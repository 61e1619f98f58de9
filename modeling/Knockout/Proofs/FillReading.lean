import Knockout.Proofs.BracketDrawing

namespace Knockout

def Statement.filled? : Statement → Option (NodeId × Fill)
  | team id _ (some fill) => some (id, fill)
  | _ => none

namespace Dot

def value? (key : String) : List Sign → Option (List Char)
  | .word name :: .mark '=' :: .quoted text :: rest => if name = key.toList then some text else value? key rest
  | _ :: rest => value? key rest
  | [] => none

def fill? (clause : List Sign) : Option (String × String) :=
  match item? clause with
  | some (.node id) => (value? "fillcolor" clause).map fun color => (id, .ofList color)
  | _ => none

def fills (xs : List (List Sign)) : List (String × String) := xs.filterMap fill?

theorem fill?_statement (s : Statement) :
    fill? (statementClause s) = s.filled?.map fun e => (e.1.text, e.2.color) := by
  rw [fill?, item?_statement]
  rcases s with ⟨n, name, _ | fill⟩ | ⟨n, label⟩ | ⟨side, game⟩
  · rfl
  · cases fill <;> rfl
  · rfl
  · rfl

theorem fills_map {α : Type} {clause : α → List Sign} {fill : α → Option (String × String)}
    (h : ∀ x, fill? (clause x) = fill x) (l : List α) : fills (l.map clause) = l.filterMap fill := by
  rw [fills, List.filterMap_map]
  exact List.filterMap_congr fun x _ => h x

theorem fills_append (xs ys : List (List Sign)) : fills (xs ++ ys) = fills xs ++ fills ys :=
  List.filterMap_append

theorem fills_rank (nodes : List NodeId) : fills (rankClauses nodes) = [] := by
  cases nodes with
  | nil => rfl
  | cons first nodes =>
    have hnodes : fills ((first :: nodes).map fun n : NodeId => [.word n.text.toList]) = [] := by
      exact (fills_map (fun _ => rfl) _).trans (List.filterMap_none _)
    change fills (((first :: nodes).map fun n : NodeId => [.word n.text.toList]) ++ [[]]) = _
    rw [fills_append, hnodes]
    rfl

theorem fills_cluster (c : Cluster) :
    fills (clusterClauses c) = c.statements.filterMap fun s => s.filled?.map fun e => (e.1.text, e.2.color) := by
  have hlines : fills [[.word "subgraph".toList, .word ("cluster_" ++ c.phase.key).toList],
      labelSigns c.phase.displayName] = [] := rfl
  have hclose : fills [[]] = [] := rfl
  change fills ([_, _] ++ (c.statements.map statementClause ++ rankClauses _ ++ [[]])) = _
  rw [fills_append, hlines, fills_append, fills_append, fills_map fill?_statement, fills_rank, hclose]
  simp

theorem fills_flatMap {α : Type} (f : α → List (List Sign)) (l : List α) :
    fills (l.flatMap f) = l.flatMap fun x => fills (f x) :=
  List.filterMap_flatMap

theorem fills_graph (g : Graph) : fills (graphClauses g) = g.clusters.flatMap fun c =>
    c.statements.filterMap fun s => s.filled?.map fun e => (e.1.text, e.2.color) := by
  have hopen : fills [[.word "digraph".toList, .word "bracket".toList],
      [.word "rankdir".toList, .mark '=', .word g.direction.keyword.toList], defaultClause] = [] := rfl
  have htitle : fills (g.title.elim [] titleClauses) = [] := by
    cases g.title <;> rfl
  have hadvances : fills (g.advances.map advanceClause) = [] := by
    exact (fills_map (fun _ => rfl) _).trans (List.filterMap_none _)
  have hclose : fills [[]] = [] := rfl
  change fills ([_, _, _] ++ _ ++ _ ++ _ ++ _) = _
  rw [fills_append, fills_append, fills_append, fills_append, hopen, htitle, hadvances, hclose, fills_flatMap]
  simp only [fills_cluster, List.nil_append, List.append_nil]

end Dot

end Knockout
