import Knockout.Proofs.DotReading

namespace Knockout

theorem Phase.key_injective : Function.Injective key := by
  intro p q h
  revert h
  cases p <;> cases q <;> decide

theorem Slot.letter_injective : Function.Injective letter := by
  intro a b h
  revert h
  cases a <;> cases b <;> decide

namespace NodeId

theorem toList_text (n : NodeId) :
    n.text.toList = n.phase.key.toList ++ '_' :: (Nat.toDigits 10 n.index ++ '_' :: n.slot.letter.toList) := by
  simp [text, toString, Nat.toList_repr]

theorem isWordChar_text (n : NodeId) : ∀ c ∈ n.text.toList, Dot.isWordChar c = true := by
  have hkey : n.phase.key.toList.all Dot.isWordChar = true := by cases n.phase <;> decide
  have hslot : n.slot.letter.toList.all Dot.isWordChar = true := by cases n.slot <;> decide
  intro c hc
  rw [toList_text, List.mem_append, List.mem_cons, List.mem_append, List.mem_cons] at hc
  rcases hc with hc | rfl | hc | rfl | hc
  · exact List.all_eq_true.mp hkey c hc
  · decide
  · have hdigit := Nat.isDigit_of_mem_toDigits (by decide) (by decide) hc
    simp [Dot.isWordChar, Char.isAlphanum, hdigit]
  · decide
  · exact List.all_eq_true.mp hslot c hc

theorem text_ne_nil (n : NodeId) : n.text.toList ≠ [] := by
  rw [toList_text]
  exact List.append_ne_nil_of_right_ne_nil _ (List.cons_ne_nil _ _)

theorem not_mem_key (p : Phase) : '_' ∉ p.key.toList := by
  cases p <;> decide

theorem not_mem_toDigits (n : Nat) : '_' ∉ Nat.toDigits 10 n := by
  intro h
  exact absurd (Nat.isDigit_of_mem_toDigits (by decide) (by decide) h) (by decide)

theorem append_cons_inj {a b c d : List Char} (ha : '_' ∉ a) (hc : '_' ∉ c) (h : a ++ '_' :: b = c ++ '_' :: d) :
    a = c ∧ b = d := by
  rcases List.append_eq_append_iff.mp h with ⟨_ | ⟨e, m⟩, rfl, hm⟩ | ⟨_ | ⟨e, m⟩, rfl, hm⟩
  · exact ⟨by simp, (List.cons.inj hm).2⟩
  · obtain ⟨rfl, -⟩ := List.cons.inj hm
    exact absurd (by simp) hc
  · exact ⟨by simp, (List.cons.inj hm).2.symm⟩
  · obtain ⟨rfl, -⟩ := List.cons.inj hm
    exact absurd (by simp) ha

theorem text_injective : Function.Injective text := by
  rintro ⟨p, i, s⟩ ⟨q, j, r⟩ h
  have hl := congrArg String.toList h
  rw [toList_text, toList_text] at hl
  obtain ⟨hkey, hl⟩ := append_cons_inj (not_mem_key p) (not_mem_key q) hl
  obtain ⟨hindex, hslot⟩ := append_cons_inj (not_mem_toDigits i) (not_mem_toDigits j) hl
  have hi : i = j := by
    rw [← Nat.ofDigitChars_ten_toDigits (n := i), ← Nat.ofDigitChars_ten_toDigits (n := j)]
    exact congrArg (Nat.ofDigitChars 10 · 0) hindex
  have hp := Phase.key_injective (String.toList_inj.mp hkey)
  have hs := Slot.letter_injective (String.toList_inj.mp hslot)
  dsimp only at hp hs
  rw [hp, hi, hs]

theorem quote_notMem_text (n : NodeId) : '"' ∉ n.text.toList :=
  fun h => absurd (n.isWordChar_text _ h) (by decide)

theorem not_keyword_text (n : NodeId) : n.text.toList ∉ ["graph".toList, "node".toList, "edge".toList] := by
  have hkey : '_' ∈ n.text.toList := by
    rw [toList_text]
    exact List.mem_append_right _ List.mem_cons_self
  intro h
  simp only [List.mem_cons, List.not_mem_nil, or_false] at h
  rcases h with h | h | h <;> rw [h] at hkey <;> exact absurd hkey (by decide)

end NodeId

namespace Dot

def linkAttributes : List Sign :=
  [.mark '[', .word "arrowhead".toList, .mark '=', .word "none".toList, .mark ']']

def advanceAttributes : List Sign :=
  [.mark '[', .word "style".toList, .mark '=', .word "bold".toList, .mark ']']

def labelSigns (text : String) : List Sign := [.word "label".toList, .mark '=', .quoted (shown text)]

def fillSigns (fill : Fill) : List Sign :=
  [.mark ',', .word "fillcolor".toList, .mark '=', .quoted fill.color.toList]

def statementClause : Statement → List Sign
  | .team id name fill =>
    .word id.text.toList :: .mark '[' :: (labelSigns name ++ (fill.elim [] fillSigns ++ [.mark ']']))
  | .game id label =>
    .word id.text.toList :: .mark '[' ::
      (labelSigns label ++ [.mark ',', .word "shape".toList, .mark '=', .word "ellipse".toList, .mark ']'])
  | .link side game => .word side.text.toList :: .mark '-' :: .mark '>' :: .word game.text.toList :: linkAttributes

def rankClauses (nodes : List NodeId) : List (List Sign) :=
  if nodes.isEmpty then []
  else [] :: [.word "rank".toList, .mark '=', .word "same".toList] ::
    (nodes.map (fun n => [.word n.text.toList]) ++ [[]])

def clusterClauses (c : Cluster) : List (List Sign) :=
  [.word "subgraph".toList, .word ("cluster_" ++ c.phase.key).toList] :: labelSigns c.phase.displayName ::
    (c.statements.map statementClause ++ rankClauses (c.statements.filterMap Statement.teamNode?) ++ [[]])

def advanceClause (a : Advance) : List Sign :=
  .word a.winner.text.toList :: .mark '-' :: .mark '>' :: .word a.target.text.toList :: advanceAttributes

def defaultClause : List Sign :=
  [.word "node".toList, .mark '[', .word "shape".toList, .mark '=', .word "box".toList, .mark ',',
    .word "style".toList, .mark '=', .quoted "rounded,filled".toList, .mark ',',
    .word "fillcolor".toList, .mark '=', .quoted "white".toList, .mark ']']

def titleClauses (name : String) : List (List Sign) :=
  [labelSigns name, [.word "labelloc".toList, .mark '=', .word "t".toList]]

def graphClauses (g : Graph) : List (List Sign) :=
  [[.word "digraph".toList, .word "bracket".toList],
    [.word "rankdir".toList, .mark '=', .word g.direction.keyword.toList], defaultClause] ++
    g.title.elim [] titleClauses ++ g.clusters.flatMap clusterClauses ++ g.advances.map advanceClause ++ [[]]

def statementItem : Statement → Item
  | .team id .. => .node id.text
  | .game id _ => .node id.text
  | .link side game => .edge side.text game.text linkAttributes

def mention (n : NodeId) : Item := .mention n.text

def clusterItems (c : Cluster) : List Item :=
  .subgraph ("cluster_" ++ c.phase.key) ::
    (c.statements.map statementItem ++ (c.statements.filterMap Statement.teamNode?).map mention)

def advanceItem (a : Advance) : Item := .edge a.winner.text a.target.text advanceAttributes

def graphItems (g : Graph) : List Item := g.clusters.flatMap clusterItems ++ g.advances.map advanceItem

section Lines

variable (glyphs : List Glyph)

theorem tokens_indent : tokens (spell "        " ++ glyphs) = tokens glyphs := rfl

theorem tokens_label (text : List Char) : tokens (spell " [label=" ++ .quoted text :: glyphs) =
    .mark '[' :: .word "label".toList :: .mark '=' :: .quoted text :: tokens glyphs := rfl

theorem tokens_fill (text : List Char) : tokens (spell ", fillcolor=" ++ .quoted text :: glyphs) =
    .mark ',' :: .word "fillcolor".toList :: .mark '=' :: .quoted text :: tokens glyphs := rfl

theorem tokens_shape : tokens (spell ", shape=ellipse];" ++ .code '\n' :: glyphs) =
    [.mark ',', .word "shape".toList, .mark '=', .word "ellipse".toList, .mark ']'] ++ .mark ';' :: tokens glyphs := rfl

theorem tokens_close : tokens (spell "];" ++ .code '\n' :: glyphs) = .mark ']' :: .mark ';' :: tokens glyphs := rfl

theorem tokens_arrow : tokens (spell " -> " ++ glyphs) = .mark '-' :: .mark '>' :: tokens glyphs := rfl

theorem tokens_link : tokens (spell " [arrowhead=none];" ++ .code '\n' :: glyphs) =
    linkAttributes ++ .mark ';' :: tokens glyphs := rfl

theorem tokens_advance : tokens (spell " [style=bold];" ++ .code '\n' :: glyphs) =
    advanceAttributes ++ .mark ';' :: tokens glyphs := rfl

theorem tokens_node (n : NodeId) {next : String} (h : (next.toList.head?.any fun c => !isWordChar c) = true) :
    tokens (spell n.text ++ (spell next ++ glyphs)) = .word n.text.toList :: tokens (spell next ++ glyphs) :=
  tokens_word n.text_ne_nil n.isWordChar_text h glyphs

variable {glyphs}

theorem spells_statement (s : Statement) : Spells (Line.glyphs (statement s)) [statementClause s] := by
  intro more
  rcases s with ⟨n, name, _ | fill⟩ | ⟨n, label⟩ | ⟨side, game⟩
  · have hline : Line.glyphs (statement (.team n name none)) ++ more =
        spell "        " ++ (spell n.text ++ (spell " [label=" ++
          .quoted (shown name) :: (spell "];" ++ .code '\n' :: more))) := by
      simp [Line.glyphs, statement, Part.glyphs, shown, spell_append, toString]
    rw [hline, tokens_indent, tokens_node _ n (by decide), tokens_label, tokens_close]
    exact clauses_clause (statementClause (.team n name none))
      (by simp [statementClause, labelSigns, Sign.endsClause]) _
  · have hline : Line.glyphs (statement (.team n name (some fill))) ++ more =
        spell "        " ++ (spell n.text ++ (spell " [label=" ++ .quoted (shown name) ::
          (spell ", fillcolor=" ++ .quoted (shown fill.color) :: (spell "];" ++ .code '\n' :: more)))) := by
      simp [Line.glyphs, statement, Part.glyphs, shown, spell_append, toString]
    have hcolor : shown fill.color = fill.color.toList := by cases fill <;> rfl
    rw [hline, tokens_indent, tokens_node _ n (by decide), tokens_label, tokens_fill, tokens_close, hcolor]
    exact clauses_clause (statementClause (.team n name (some fill)))
      (by simp [statementClause, labelSigns, fillSigns, Sign.endsClause]) _
  · have hline : Line.glyphs (statement (.game n label)) ++ more =
        spell "        " ++ (spell n.text ++ (spell " [label=" ++ .quoted (shown label) ::
          (spell ", shape=ellipse];" ++ .code '\n' :: more))) := by
      simp [Line.glyphs, statement, Part.glyphs, shown, spell_append, toString]
    rw [hline, tokens_indent, tokens_node _ n (by decide), tokens_label, tokens_shape]
    exact clauses_clause (statementClause (.game n label)) (by simp [statementClause, labelSigns, Sign.endsClause]) _
  · have hline : Line.glyphs (statement (.link side game)) ++ more =
        spell "        " ++ (spell side.text ++ (spell " -> " ++ (spell game.text ++
          (spell " [arrowhead=none];" ++ .code '\n' :: more)))) := by
      simp [Line.glyphs, statement, Part.glyphs, spell_append, toString]
    rw [hline, tokens_indent, tokens_node _ side (by decide), tokens_arrow, tokens_node _ game (by decide), tokens_link]
    exact clauses_clause (statementClause (.link side game))
      (by simp [statementClause, linkAttributes, Sign.endsClause]) _

theorem spells_advance (a : Advance) : Spells (Line.glyphs (advance a)) [advanceClause a] := by
  intro more
  have hline : Line.glyphs (advance a) ++ more =
      spell "    " ++ (spell a.winner.text ++ (spell " -> " ++ (spell a.target.text ++
        (spell " [style=bold];" ++ .code '\n' :: more)))) := by
    simp [Line.glyphs, advance, Part.glyphs, spell_append, toString]
  have hindent (g : List Glyph) : tokens (spell "    " ++ g) = tokens g := rfl
  rw [hline, hindent, tokens_node _ a.winner (by decide), tokens_arrow, tokens_node _ a.target (by decide),
    tokens_advance]
  exact clauses_clause (advanceClause a) (by simp [advanceClause, advanceAttributes, Sign.endsClause]) _

theorem spells_rank (nodes : List NodeId) : Spells ((rank nodes).flatMap Line.glyphs) (rankClauses nodes) := by
  intro more
  cases nodes with
  | nil => rfl
  | cons first nodes =>
    have hline : (rank (first :: nodes)).flatMap Line.glyphs ++ more =
        spell "        \x7b rank=same; " ++ (spell ("; ".intercalate ((first :: nodes).map NodeId.text)) ++
          (spell "; \x7d" ++ .code '\n' :: more)) := by
      simp [Line.glyphs, rank, Part.glyphs, spell_append, toString]
    have hopen (g : List Glyph) : clauses (tokens (spell "        \x7b rank=same; " ++ g)) =
        [] :: [.word "rank".toList, .mark '=', .word "same".toList] :: clauses (tokens g) := rfl
    have hclause (n : NodeId) (signs : List Sign) :
        clauses (.word n.text.toList :: .mark ';' :: signs) = [.word n.text.toList] :: clauses signs :=
      clauses_clause [.word n.text.toList] (by simp [Sign.endsClause]) signs
    have hclauses : clauses (tokens (spell ("; ".intercalate ((first :: nodes).map NodeId.text)) ++
        (spell "; \x7d" ++ .code '\n' :: more))) =
          (first :: nodes).map (fun n => [.word n.text.toList]) ++ [] :: clauses (tokens more) := by
      clear hline
      induction nodes generalizing first with
      | nil =>
        rw [List.map_singleton, String.intercalate_singleton, tokens_node _ first (by decide)]
        exact hclause first _
      | cons second nodes ih =>
        have hsep (g : List Glyph) : tokens (spell "; " ++ g) = .mark ';' :: tokens g := rfl
        rw [List.map_cons, List.map_cons, String.intercalate_cons_cons, spell_append, spell_append, List.append_assoc,
          List.append_assoc, tokens_node _ first (by decide), hsep, hclause]
        exact congrArg _ (ih second)
    rw [hline, hopen, hclauses]
    simp [rankClauses]

theorem spells_map {α : Type} {line : α → Line} {clause : α → List Sign}
    (h : ∀ x, Spells (line x).glyphs [clause x]) (l : List α) :
    Spells ((l.map line).flatMap Line.glyphs) (l.map clause) := by
  induction l with
  | nil => exact spells_nil
  | cons x l ih => exact (h x).append ih

theorem spells_cluster (c : Cluster) : Spells ((cluster c).flatMap Line.glyphs) (clusterClauses c) := by
  have hopen : Spells (([[], [.code s!"    subgraph cluster_{c.phase.key} \x7b"],
      [.code "        label=", .quoted c.phase.displayName, .code ";"]] : List Line).flatMap Line.glyphs)
      [[.word "subgraph".toList, .word ("cluster_" ++ c.phase.key).toList], labelSigns c.phase.displayName] := by
    intro more
    cases c.phase <;> rfl
  have hclose : Spells (([[.code "    \x7d"]] : List Line).flatMap Line.glyphs) [[]] := fun _ => rfl
  have hall := ((hopen.append (spells_map spells_statement c.statements)).append
    (spells_rank (c.statements.filterMap Statement.teamNode?))).append hclose
  simpa [cluster, clusterClauses] using hall

theorem spells_lines (g : Graph) : Spells ((lines g).flatMap Line.glyphs) (graphClauses g) := by
  have hopen : Spells (([[.code "digraph bracket \x7b"], [.code s!"    rankdir={g.direction.keyword};"],
      [.code "    node [shape=box, style=", .quoted "rounded,filled", .code ", fillcolor=", .quoted "white",
        .code "];"]] : List Line).flatMap Line.glyphs)
      [[.word "digraph".toList, .word "bracket".toList],
        [.word "rankdir".toList, .mark '=', .word g.direction.keyword.toList], defaultClause] := by
    intro more
    cases g.direction <;> rfl
  have htitle : Spells ((g.title.elim [] title).flatMap Line.glyphs) (g.title.elim [] titleClauses) := by
    intro more
    cases g.title <;> rfl
  have hclusters : Spells ((g.clusters.flatMap cluster).flatMap Line.glyphs) (g.clusters.flatMap clusterClauses) := by
    rw [List.flatMap_assoc]
    exact spells_flatMap fun c _ => spells_cluster c
  have hadvances : Spells ((advances g.advances).flatMap Line.glyphs) (g.advances.map advanceClause) := by
    unfold advances
    split
    case isTrue h =>
      rw [List.isEmpty_iff.mp h]
      exact spells_nil
    case isFalse =>
      have hblank : Spells (Line.glyphs []) [] := fun _ => rfl
      exact hblank.append (spells_map spells_advance g.advances)
  have hclose : Spells (([[.code "\x7d"]] : List Line).flatMap Line.glyphs) [[]] := fun _ => rfl
  have hall := (((hopen.append htitle).append hclusters).append hadvances).append hclose
  simpa [lines, graphClauses] using hall

end Lines

section Items

theorem item?_statement (s : Statement) : item? (statementClause s) = some (statementItem s) := by
  cases s with
  | team n name fill =>
    change item? (.word n.text.toList :: .mark '[' :: _) = _
    rw [item?, if_neg n.not_keyword_text, String.ofList_toList]
    rfl
  | game n label =>
    change item? (.word n.text.toList :: .mark '[' :: _) = _
    rw [item?, if_neg n.not_keyword_text, String.ofList_toList]
    rfl
  | link side game => simp [statementClause, statementItem, item?]

theorem items_map {α : Type} {clause : α → List Sign} {item : α → Item} (h : ∀ x, item? (clause x) = some (item x))
    (l : List α) : (l.map clause).filterMap item? = l.map item := by
  rw [List.filterMap_map]
  exact List.filterMap_eq_map_iff_forall_eq_some.mpr fun x _ => h x

theorem items_rank (nodes : List NodeId) : (rankClauses nodes).filterMap item? = nodes.map mention := by
  have hnode (n : NodeId) : item? [.word n.text.toList] = some (mention n) := by
    rw [item?, String.ofList_toList]
    rfl
  cases nodes with
  | nil => rfl
  | cons first nodes =>
    have hall := items_map hnode (first :: nodes)
    change ((first :: nodes).map (fun n : NodeId => [Sign.word n.text.toList]) ++ [[]]).filterMap item? = _
    rw [List.filterMap_append, hall]
    exact List.append_nil _

theorem items_cluster (c : Cluster) : (clusterClauses c).filterMap item? = clusterItems c := by
  have hopen : item? [.word "subgraph".toList, .word ("cluster_" ++ c.phase.key).toList] =
      some (.subgraph ("cluster_" ++ c.phase.key)) := by
    rw [item?, if_pos rfl, String.ofList_toList]
  have hlabel : item? (labelSigns c.phase.displayName) = none := rfl
  have hclose : ([[]] : List (List Sign)).filterMap item? = [] := rfl
  rw [clusterClauses, List.filterMap_cons, hopen, List.filterMap_cons, hlabel, List.filterMap_append,
    List.filterMap_append, items_map item?_statement, items_rank, hclose, List.append_nil]
  rfl

theorem items_graphClauses (g : Graph) : (graphClauses g).filterMap item? = graphItems g := by
  have hopen : ([[.word "digraph".toList, .word "bracket".toList],
      [.word "rankdir".toList, .mark '=', .word g.direction.keyword.toList], defaultClause]).filterMap item? = [] := by
    cases g.direction <;> rfl
  have htitle : (g.title.elim [] titleClauses).filterMap item? = [] := by
    cases g.title <;> rfl
  have hadvance (a : Advance) : item? (advanceClause a) = some (advanceItem a) := by
    simp [advanceClause, advanceItem, item?]
  have hclose : ([[]] : List (List Sign)).filterMap item? = [] := rfl
  simp only [graphClauses, List.filterMap_append, hopen, htitle, items_map hadvance, hclose, List.filterMap_flatMap,
    items_cluster, List.nil_append, List.append_nil]
  rfl

end Items

section Plain

theorem isPlain_statement (s : Statement) : Line.IsPlain (statement s) := by
  rcases s with ⟨n, name, _ | fill⟩ | ⟨n, label⟩ | ⟨side, game⟩
  · simp [Line.IsPlain, statement, Part.IsPlain, toString, n.quote_notMem_text]
  · simp [Line.IsPlain, statement, Part.IsPlain, toString, n.quote_notMem_text]
  · simp [Line.IsPlain, statement, Part.IsPlain, toString, n.quote_notMem_text]
  · simp [Line.IsPlain, statement, Part.IsPlain, toString, side.quote_notMem_text, game.quote_notMem_text]

theorem isPlain_advance (a : Advance) : Line.IsPlain (advance a) := by
  simp [Line.IsPlain, advance, Part.IsPlain, toString, a.winner.quote_notMem_text, a.target.quote_notMem_text]

theorem isPlain_rank (nodes : List NodeId) : ∀ line ∈ rank nodes, line.IsPlain := by
  have hids : '"' ∉ ("; ".intercalate (nodes.map NodeId.text)).toList := by
    induction nodes with
    | nil => simp
    | cons first nodes ih =>
      cases nodes with
      | nil => simpa using first.quote_notMem_text
      | cons second nodes =>
        rw [List.map_cons, List.map_cons, String.intercalate_cons_cons]
        simpa [first.quote_notMem_text] using ih
  cases nodes with
  | nil => simp [rank]
  | cons first nodes => simpa [rank, Line.IsPlain, Part.IsPlain, toString] using hids

theorem isPlain_cluster (c : Cluster) : ∀ line ∈ cluster c, line.IsPlain := by
  have hkey : '"' ∉ c.phase.key.toList := by cases c.phase <;> decide
  rw [cluster, List.forall_mem_append, List.forall_mem_append, List.forall_mem_append]
  refine ⟨⟨⟨?_, ?_⟩, isPlain_rank _⟩, ?_⟩
  · simp [Line.IsPlain, Part.IsPlain, toString, hkey]
  · exact List.forall_mem_map.mpr fun s _ => isPlain_statement s
  · simp [Line.IsPlain, Part.IsPlain]

theorem isPlain_lines (g : Graph) : ∀ line ∈ lines g, line.IsPlain := by
  have hdirection : '"' ∉ g.direction.keyword.toList := by cases g.direction <;> decide
  rw [lines, List.forall_mem_append, List.forall_mem_append, List.forall_mem_append, List.forall_mem_append]
  refine ⟨⟨⟨⟨?_, ?_⟩, ?_⟩, ?_⟩, ?_⟩
  · simp [Line.IsPlain, Part.IsPlain, toString, hdirection]
  · cases g.title <;> simp [title, Line.IsPlain, Part.IsPlain]
  · exact List.forall_mem_flatMap.mpr fun c _ => isPlain_cluster c
  · unfold advances
    split
    · exact List.forall_mem_nil _
    · exact List.forall_mem_cons.mpr ⟨List.forall_mem_nil _, List.forall_mem_map.mpr fun a _ => isPlain_advance a⟩
  · simp [Line.IsPlain, Part.IsPlain]

end Plain

theorem clauses?_dot (g : Graph) : clauses? g.dot = some (graphClauses g) :=
  clauses?_lines (isPlain_lines g) (spells_lines g)

theorem read_dot (g : Graph) : read g.dot = some (graphItems g) := by
  rw [read_eq, clauses?_dot, Option.map_some, items_graphClauses]

end Dot

end Knockout
