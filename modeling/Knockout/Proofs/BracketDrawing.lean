import Knockout.Proofs.Advances
import Knockout.Proofs.GraphReading

namespace Knockout

namespace Dot

namespace Item

def subgraph? : Item → Option String
  | subgraph name => some name
  | _ => none

def node? : Item → Option String
  | node id => some id
  | _ => none

def edgeWith? (key value : String) : Item → Option (String × String)
  | edge tail head attributes =>
    if [.word key.toList, .mark '=', .word value.toList] <:+: attributes then some (tail, head) else none
  | _ => none

def uses : Item → List String
  | edge tail head _ => [tail, head]
  | mention id => [id]
  | subgraph _ | node _ => []

end Item

def Anchored (items : List Item) : Prop :=
  ∀ before item after, items = before ++ item :: after → ∀ id ∈ item.uses, .node id ∈ before

theorem anchored_nil : Anchored [] := by
  intro before item after h
  simp at h

theorem Anchored.append_of {a b : List Item} (ha : Anchored a)
    (hb : ∀ before item after, b = before ++ item :: after → ∀ id ∈ item.uses, .node id ∈ a ++ before) :
    Anchored (a ++ b) := by
  intro before item after he id hid
  rcases List.append_eq_append_iff.mp he with ⟨middle, rfl, hm⟩ | ⟨middle, rfl, hm⟩
  · exact hb middle item after hm id hid
  · cases middle with
    | nil => simpa using hb [] item after hm.symm id hid
    | cons first middle =>
      obtain ⟨rfl, -⟩ := List.cons.inj hm
      exact ha before item middle rfl id hid

theorem Anchored.append {a b : List Item} (ha : Anchored a) (hb : Anchored b) : Anchored (a ++ b) :=
  ha.append_of fun before item after he id hid => List.mem_append_right _ (hb before item after he id hid)

theorem Anchored.append_uses {a b : List Item} (ha : Anchored a)
    (hb : ∀ item ∈ b, ∀ id ∈ item.uses, .node id ∈ a) : Anchored (a ++ b) := by
  refine ha.append_of fun before item after he id hid => List.mem_append_left _ (hb item ?_ id hid)
  rw [he]
  exact List.mem_append_right _ List.mem_cons_self

theorem anchored_flatMap {α : Type} {f : α → List Item} {l : List α} (h : ∀ x ∈ l, Anchored (f x)) :
    Anchored (l.flatMap f) := by
  induction l with
  | nil => exact anchored_nil
  | cons x l ih =>
    rw [List.flatMap_cons]
    exact (h x List.mem_cons_self).append (ih fun y hy => h y (List.mem_cons_of_mem _ hy))

def matchItems (p : Phase) (i : Nat) : List Item :=
  let id slot := NodeId.text ⟨p, i, slot⟩
  [.node (id .home), .node (id .away), .node (id .game), .edge (id .home) (id .game) linkAttributes,
    .edge (id .away) (id .game) linkAttributes]

def phaseItems (p : Phase) (games : Nat) : List Item :=
  .subgraph ("cluster_" ++ p.key) :: ((List.range games).flatMap (matchItems p) ++
    (List.range games).flatMap fun i => [mention ⟨p, i, .home⟩, mention ⟨p, i, .away⟩])

theorem map_mapIdx_eq {α β γ : Type} {f : Nat → α → β} {g : β → γ} {h : Nat → γ} (hf : ∀ i x, g (f i x) = h i)
    (l : List α) : (l.mapIdx f).map g = (List.range l.length).map h := by
  apply List.ext_getElem
  · simp
  · intro i _ _
    simp [hf]

theorem clusterItems_eq (p : Phase) (fixtures : List Fixture) :
    clusterItems ⟨p, (fixtures.mapIdx (Statement.ofFixture p)).flatten⟩ = phaseItems p fixtures.length := by
  have hitems : (fixtures.mapIdx (Statement.ofFixture p)).flatten.map statementItem =
      (List.range fixtures.length).flatMap (matchItems p) := by
    have hmap : (fixtures.mapIdx (Statement.ofFixture p)).map (List.map statementItem) =
        (List.range fixtures.length).map (matchItems p) := by
      apply map_mapIdx_eq
      exact fun _ _ => rfl
    rw [List.map_flatten, hmap]
    rfl
  have hnodes : (fixtures.mapIdx (Statement.ofFixture p)).flatten.filterMap Statement.teamNode? =
      (List.range fixtures.length).flatMap fun i => [⟨p, i, .home⟩, ⟨p, i, .away⟩] := by
    have hmap : (fixtures.mapIdx (Statement.ofFixture p)).map (List.filterMap Statement.teamNode?) =
        (List.range fixtures.length).map fun i => [⟨p, i, .home⟩, ⟨p, i, .away⟩] := by
      apply map_mapIdx_eq
      exact fun _ _ => rfl
    rw [List.filterMap_flatten, hmap]
    rfl
  rw [clusterItems, hitems, hnodes, List.map_flatMap]
  rfl

theorem graphItems_eq (t : Tournament) (direction : Direction) : graphItems (t.graph direction) =
    (t.knownPhases.flatMap fun p => phaseItems p (t.fixtures p).length) ++
      (t.graph direction).advances.map advanceItem := by
  have hclusters : (t.graph direction).clusters.flatMap clusterItems =
      t.knownPhases.flatMap fun p => phaseItems p (t.fixtures p).length := by
    change (t.knownPhases.map _).flatMap clusterItems = _
    simp only [List.flatMap_map, clusterItems_eq]
  rw [graphItems, hclusters]

theorem anchored_phaseItems (p : Phase) (games : Nat) : Anchored (phaseItems p games) := by
  have hmatch (i : Nat) : Anchored (matchItems p i) := by
    have hnodes : Anchored [.node (NodeId.text ⟨p, i, .home⟩), .node (NodeId.text ⟨p, i, .away⟩),
        .node (NodeId.text ⟨p, i, .game⟩)] :=
      anchored_nil.append_uses (by simp [Item.uses])
    exact hnodes.append_uses (by simp [Item.uses])
  have hopen : Anchored [.subgraph ("cluster_" ++ p.key)] := anchored_nil.append_uses (by simp [Item.uses])
  refine hopen.append ((anchored_flatMap fun i _ => hmatch i).append_uses ?_)
  simp only [List.mem_flatMap, List.mem_range]
  rintro item ⟨i, hi, hitem⟩ id hid
  refine ⟨i, hi, ?_⟩
  simp only [List.mem_cons, List.not_mem_nil, or_false] at hitem
  rcases hitem with rfl | rfl
  · obtain rfl := List.mem_singleton.mp hid
    simp [matchItems]
  · obtain rfl := List.mem_singleton.mp hid
    simp [matchItems]

end Dot

namespace Tournament

def Holds (t : Tournament) (p : Phase) (i : Nat) : Prop := t.Has p ∧ i < (t.fixtures p).length

open Dot in
structure Drawn (t : Tournament) (items : List Item) : Prop where
  clusters : items.filterMap Item.subgraph? =
    (Phase.all.filter (t.bracket.contains ·.key)).map fun p => "cluster_" ++ p.key
  nodes (id : String) : id ∈ items.filterMap Item.node? ↔ ∃ n : NodeId, t.Holds n.phase n.index ∧ id = n.text
  nodes_nodup : (items.filterMap Item.node?).Nodup
  links (tail head : String) : (tail, head) ∈ items.filterMap (Item.edgeWith? "arrowhead" "none") ↔
    ∃ p i side, t.Holds p i ∧ side ≠ .game ∧ tail = NodeId.text ⟨p, i, side⟩ ∧ head = NodeId.text ⟨p, i, .game⟩
  links_nodup : (items.filterMap (Item.edgeWith? "arrowhead" "none")).Nodup
  advances : ∃ l : List Advance,
    items.filterMap (Item.edgeWith? "style" "bold") = l.map (fun a => (a.winner.text, a.target.text)) ∧
      (l.Pairwise fun a b => a.winner.Precedes b.winner) ∧ ∀ a, a ∈ l ↔ t.Advances a.winner a.target
  anchored : Anchored items
  filled_once : ((items.filterMap (Item.edgeWith? "style" "bold")).map Prod.snd).Nodup
  winners_only (n : NodeId) (head : String) : (n.text, head) ∈ items.filterMap (Item.edgeWith? "style" "bold") →
    ∃ f, (t.fixtures n.phase)[n.index]? = some f ∧ f.Won n.slot

end Tournament

section Filtered

open Dot

variable (t : Tournament) (direction : Direction)

def Tournament.nodes : List NodeId :=
  t.knownPhases.flatMap fun p => (List.range (t.fixtures p).length).flatMap fun i =>
    [⟨p, i, .home⟩, ⟨p, i, .away⟩, ⟨p, i, .game⟩]

def Tournament.sides : List (NodeId × NodeId) :=
  t.knownPhases.flatMap fun p => (List.range (t.fixtures p).length).flatMap fun i =>
    [(⟨p, i, .home⟩, ⟨p, i, .game⟩), (⟨p, i, .away⟩, ⟨p, i, .game⟩)]

theorem filterMap_graphItems {α : Type} {f : Item → Option α} (hmention : ∀ id, f (.mention id) = none) :
    (graphItems (t.graph direction)).filterMap f =
      (t.knownPhases.flatMap fun p => (f (.subgraph ("cluster_" ++ p.key))).toList ++
        (List.range (t.fixtures p).length).flatMap fun i => (matchItems p i).filterMap f) ++
          (t.graph direction).advances.filterMap fun a => f (advanceItem a) := by
  have hphase (p : Phase) (games : Nat) : (phaseItems p games).filterMap f =
      (f (.subgraph ("cluster_" ++ p.key))).toList ++
        (List.range games).flatMap fun i => (matchItems p i).filterMap f := by
    rw [phaseItems, List.filterMap_cons, List.filterMap_append, List.filterMap_flatMap, List.filterMap_flatMap]
    have hnone (i : Nat) : [mention ⟨p, i, .home⟩, mention ⟨p, i, .away⟩].filterMap f = [] := by
      simp [mention, hmention]
    simp only [hnone]
    cases f (.subgraph ("cluster_" ++ p.key)) <;> simp
  rw [graphItems_eq, List.filterMap_append, List.filterMap_flatMap, List.filterMap_map]
  simp only [hphase]
  rfl

theorem subgraphs_graphItems : (graphItems (t.graph direction)).filterMap Item.subgraph? =
    t.knownPhases.map fun p => "cluster_" ++ p.key := by
  have hopen (name : String) : (Item.subgraph name).subgraph? = some name := rfl
  have hmatch (p : Phase) (i : Nat) : (matchItems p i).filterMap Item.subgraph? = [] := rfl
  have hadvance (a : Advance) : (advanceItem a).subgraph? = none := rfl
  have hnone (games : Nat) : (List.range games).flatMap (fun _ => ([] : List String)) = [] :=
    List.flatMap_eq_nil_iff.mpr fun _ _ => rfl
  rw [filterMap_graphItems t direction fun _ => rfl]
  simp [hopen, hmatch, hadvance, hnone, List.map_eq_flatMap]

theorem nodes_graphItems : (graphItems (t.graph direction)).filterMap Item.node? = t.nodes.map NodeId.text := by
  have hopen (name : String) : (Item.subgraph name).node? = none := rfl
  have hmatch (p : Phase) (i : Nat) : (matchItems p i).filterMap Item.node? =
      [NodeId.text ⟨p, i, .home⟩, NodeId.text ⟨p, i, .away⟩, NodeId.text ⟨p, i, .game⟩] := rfl
  have hadvance (a : Advance) : (advanceItem a).node? = none := rfl
  rw [filterMap_graphItems t direction fun _ => rfl]
  simp [hopen, hmatch, hadvance, Tournament.nodes, List.map_flatMap]

theorem links_graphItems : (graphItems (t.graph direction)).filterMap (Item.edgeWith? "arrowhead" "none") =
    t.sides.map fun e => (e.1.text, e.2.text) := by
  have hopen (name : String) : (Item.subgraph name).edgeWith? "arrowhead" "none" = none := rfl
  have hmatch (p : Phase) (i : Nat) : (matchItems p i).filterMap (Item.edgeWith? "arrowhead" "none") =
      [(NodeId.text ⟨p, i, .home⟩, NodeId.text ⟨p, i, .game⟩),
        (NodeId.text ⟨p, i, .away⟩, NodeId.text ⟨p, i, .game⟩)] := rfl
  have hadvance (a : Advance) : (advanceItem a).edgeWith? "arrowhead" "none" = none := rfl
  rw [filterMap_graphItems t direction fun _ => rfl]
  simp [hopen, hmatch, hadvance, Tournament.sides, List.map_flatMap]

theorem advances_graphItems : (graphItems (t.graph direction)).filterMap (Item.edgeWith? "style" "bold") =
    (t.graph direction).advances.map fun a => (a.winner.text, a.target.text) := by
  have hopen (name : String) : (Item.subgraph name).edgeWith? "style" "bold" = none := rfl
  have hmatch (p : Phase) (i : Nat) : (matchItems p i).filterMap (Item.edgeWith? "style" "bold") = [] := rfl
  have hadvance (a : Advance) : (advanceItem a).edgeWith? "style" "bold" = some (a.winner.text, a.target.text) := rfl
  rw [filterMap_graphItems t direction fun _ => rfl]
  simp [hopen, hmatch, hadvance]

end Filtered

namespace Tournament

variable {t : Tournament}

theorem mem_nodes_iff {n : NodeId} : n ∈ t.nodes ↔ t.Holds n.phase n.index := by
  obtain ⟨p, i, slot⟩ := n
  simp only [nodes, Holds, List.mem_flatMap, mem_knownPhases, List.mem_range]
  constructor
  · rintro ⟨q, hq, j, hj, hn⟩
    simp only [List.mem_cons, NodeId.mk.injEq, List.not_mem_nil, or_false] at hn
    obtain ⟨rfl, rfl⟩ : p = q ∧ i = j := by
      rcases hn with ⟨hp, hi, -⟩ | ⟨hp, hi, -⟩ | ⟨hp, hi, -⟩ <;> exact ⟨hp, hi⟩
    exact ⟨hq, hj⟩
  · rintro ⟨hp, hi⟩
    refine ⟨p, hp, i, hi, ?_⟩
    cases slot <;> simp

theorem mem_sides_iff {a b : NodeId} : (a, b) ∈ t.sides ↔
    ∃ p i side, t.Holds p i ∧ side ≠ .game ∧ a = ⟨p, i, side⟩ ∧ b = ⟨p, i, .game⟩ := by
  simp only [sides, Holds, List.mem_flatMap, mem_knownPhases, List.mem_range]
  constructor
  · rintro ⟨p, hp, i, hi, he⟩
    simp only [List.mem_cons, Prod.mk.injEq, List.not_mem_nil, or_false] at he
    rcases he with ⟨ha, hb⟩ | ⟨ha, hb⟩
    · exact ⟨p, i, .home, ⟨hp, hi⟩, by decide, ha, hb⟩
    · exact ⟨p, i, .away, ⟨hp, hi⟩, by decide, ha, hb⟩
  · rintro ⟨p, i, side, ⟨hp, hi⟩, hside, rfl, rfl⟩
    refine ⟨p, hp, i, hi, ?_⟩
    cases side with
    | home => simp
    | away => simp
    | game => exact absurd rfl hside

theorem nodup_perMatch (t : Tournament) {α : Type} {f : Phase → Nat → List α} (place : α → Phase × Nat)
    (hplace : ∀ p i, ∀ x ∈ f p i, place x = (p, i)) (hf : ∀ p i, (f p i).Nodup) :
    (t.knownPhases.flatMap fun p => (List.range (t.fixtures p).length).flatMap (f p)).Nodup := by
  refine List.nodup_flatMap.mpr ⟨fun p _ => List.nodup_flatMap.mpr ⟨fun i _ => hf p i, ?_⟩, ?_⟩
  · refine List.nodup_range.imp fun {i j} hne x hi hj => hne ?_
    exact congrArg Prod.snd ((hplace p i x hi).symm.trans (hplace p j x hj))
  · refine t.knownPhases_ordered.imp fun {p q} hlt x hp hq => ?_
    obtain ⟨i, -, hi⟩ := List.mem_flatMap.mp hp
    obtain ⟨j, -, hj⟩ := List.mem_flatMap.mp hq
    have hpq : p = q := congrArg Prod.fst ((hplace p i x hi).symm.trans (hplace q j x hj))
    rw [hpq] at hlt
    exact Nat.lt_irrefl _ hlt

theorem nodup_nodes (t : Tournament) : t.nodes.Nodup := by
  refine t.nodup_perMatch (fun n => (n.phase, n.index)) (fun p i n hn => ?_) fun p i => by simp
  simp only [List.mem_cons, List.not_mem_nil, or_false] at hn
  rcases hn with rfl | rfl | rfl <;> rfl

theorem nodup_sides (t : Tournament) : t.sides.Nodup := by
  refine t.nodup_perMatch (fun e => (e.1.phase, e.1.index)) (fun p i e he => ?_) fun p i => by simp
  simp only [List.mem_cons, List.not_mem_nil, or_false] at he
  rcases he with rfl | rfl <;> rfl

theorem Advances.holds {winner target : NodeId} (h : t.Advances winner target) :
    t.Holds winner.phase winner.index ∧ t.Holds target.phase target.index := by
  obtain ⟨next, f, hnext, hf, -, hlt, rfl⟩ := advances_iff.mp h
  exact ⟨⟨hnext.here, (List.getElem?_eq_some_iff.mp hf).1⟩, hnext.there, hlt⟩

end Tournament

theorem Tournament.won_of_bold {t : Tournament} {direction : Direction} {n : NodeId} {head : String}
    (h : (n.text, head) ∈ (Dot.graphItems (t.graph direction)).filterMap (Dot.Item.edgeWith? "style" "bold")) :
    ∃ f, (t.fixtures n.phase)[n.index]? = some f ∧ f.Won n.slot := by
  rw [advances_graphItems] at h
  obtain ⟨a, ha, he⟩ := List.mem_map.mp h
  obtain ⟨next, f, -, hf, hwon, -⟩ := advances_iff.mp (mem_advances_iff.mp ha)
  have hwinner : a.winner = n := NodeId.text_injective (Prod.mk.inj he).1
  rw [hwinner] at hf hwon
  exact ⟨f, hf, hwon⟩

open Dot in
theorem anchored_graphItems (t : Tournament) (direction : Direction) :
    Anchored (graphItems (t.graph direction)) := by
  have hnodes (n : NodeId) (hn : t.Holds n.phase n.index) :
      .node n.text ∈ t.knownPhases.flatMap fun p => phaseItems p (t.fixtures p).length := by
    obtain ⟨p, i, slot⟩ := n
    have hmatch : .node (NodeId.text ⟨p, i, slot⟩) ∈ matchItems p i := by cases slot <;> simp [matchItems]
    have hall := List.mem_flatMap.mpr ⟨i, List.mem_range.mpr hn.2, hmatch⟩
    refine List.mem_flatMap.mpr ⟨p, Tournament.mem_knownPhases.mpr hn.1, ?_⟩
    exact List.mem_cons_of_mem _ (List.mem_append_left _ hall)
  rw [graphItems_eq]
  refine (anchored_flatMap fun p _ => anchored_phaseItems p _).append_uses ?_
  rintro item hitem id hid
  obtain ⟨a, ha, rfl⟩ := List.mem_map.mp hitem
  obtain ⟨hwinner, htarget⟩ := (Tournament.mem_advances_iff.mp ha).holds
  simp only [advanceItem, Item.uses, List.mem_cons, List.not_mem_nil, or_false] at hid
  rcases hid with rfl | rfl
  · exact hnodes _ hwinner
  · exact hnodes _ htarget

end Knockout
