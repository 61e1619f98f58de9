import Knockout.Proofs.Advances
import Knockout.Proofs.LabelReading

namespace Knockout

theorem map_mapIdx {α β γ : Type} (f : Nat → α → β) (g : β → γ) (l : List α) :
    (l.mapIdx f).map g = l.mapIdx fun i x => g (f i x) := by
  apply List.ext_getElem
  · simp
  · intro i _ _
    simp

theorem mapIdx_eq_of_verdicts {β : Type} {l l' : List Fixture}
    (h : l.map Fixture.verdict? = l'.map Fixture.verdict?) {f : Nat → Fixture → β}
    (hf : ∀ i a b, a.verdict? = b.verdict? → f i a = f i b) : l.mapIdx f = l'.mapIdx f := by
  have hlength : l.length = l'.length := by
    simpa using congrArg List.length h
  apply List.ext_getElem
  · simpa using hlength
  · intro i hi hi'
    rw [List.getElem_mapIdx, List.getElem_mapIdx]
    apply hf
    have hget := List.getElem_of_eq h (by simpa using hi)
    rwa [List.getElem_map, List.getElem_map] at hget

def Fixture.texts (f : Fixture) : List String := [f.home, f.away, f.result.getD "vs"]

namespace Tournament

def texts (t : Tournament) : List String :=
  (t.info.find? "nombre").toList ++ (Phase.all.filter (t.bracket.contains ·.key)).flatMap fun p =>
    p.displayName :: ((t.bracket.find? p.key).getD []).flatMap Fixture.texts

theorem texts_graph (t : Tournament) (direction : Direction) : (t.graph direction).texts = t.texts := by
  have hfixtures (p : Phase) (l : List Fixture) :
      (l.mapIdx (Statement.ofFixture p)).flatten.filterMap Statement.text? = l.flatMap Fixture.texts := by
    have htexts : l.mapIdx (fun i f => (Statement.ofFixture p i f).filterMap Statement.text?) =
        l.map Fixture.texts := by
      apply List.ext_getElem
      · simp
      · intro i _ _
        rw [List.getElem_mapIdx, List.getElem_map]
        rfl
    rw [List.filterMap_flatten, map_mapIdx, htexts]
    rfl
  change t.name?.toList ++ (t.knownPhases.map _).flatMap _ = _
  rw [List.flatMap_map]
  simp only [hfixtures]
  rfl

structure SameOutcomes (t u : Tournament) : Prop where
  title : t.name?.isSome = u.name?.isSome
  phases (p : Phase) : t.bracket.contains p.key = u.bracket.contains p.key
  verdicts (p : Phase) : (t.fixtures p).map Fixture.verdict? = (u.fixtures p).map Fixture.verdict?

namespace SameOutcomes

variable {t u : Tournament} (h : t.SameOutcomes u)

include h

theorem length_fixtures (p : Phase) : (t.fixtures p).length = (u.fixtures p).length := by
  simpa using congrArg List.length (h.verdicts p)

theorem knownPhases : t.knownPhases = u.knownPhases := by
  apply List.filter_congr
  exact fun p _ => h.phases p

theorem statements (p : Phase) : ((t.fixtures p).mapIdx (Statement.ofFixture p)).flatten.map Statement.bare =
    ((u.fixtures p).mapIdx (Statement.ofFixture p)).flatten.map Statement.bare := by
  rw [List.map_flatten, List.map_flatten, map_mapIdx, map_mapIdx]
  apply congrArg
  apply mapIdx_eq_of_verdicts (h.verdicts p)
  intro i a b hab
  simp [Statement.ofFixture, Statement.bare, hab]

theorem between (p next : Phase) : Advance.between t p next = Advance.between u p next := by
  unfold Advance.between
  rw [h.length_fixtures next]
  apply congrArg
  apply mapIdx_eq_of_verdicts (h.verdicts p)
  intro i a b hab
  simp [Advance.ofFixture?, Advance.winner?, hab]

theorem bare_graph (direction : Direction) : (t.graph direction).bare = (u.graph direction).bare := by
  have htitle : (t.name?.map fun _ => "") = u.name?.map fun _ => "" := by
    have hsome := h.title
    generalize t.name? = a, u.name? = b at hsome ⊢
    cases a <;> cases b <;> simp_all
  have hclusters : (t.graph direction).bare.clusters = (u.graph direction).bare.clusters := by
    change (t.knownPhases.map _).map _ = (u.knownPhases.map _).map _
    rw [h.knownPhases, List.map_map, List.map_map]
    apply List.map_congr_left
    intro p _
    exact congrArg (Cluster.mk p) (h.statements p)
  have hadvances : (t.graph direction).advances = (u.graph direction).advances := by
    rw [graph_advances, graph_advances, h.knownPhases]
    exact List.flatMap_congr fun e _ => h.between e.1 e.2
  change Graph.mk direction (t.name?.map fun _ => "") (t.graph direction).bare.clusters (t.graph direction).advances =
    Graph.mk direction (u.name?.map fun _ => "") (u.graph direction).bare.clusters (u.graph direction).advances
  rw [htitle, hclusters, hadvances]

end SameOutcomes

/-- Every quoted string is closed on its line, and the strings that are labels show the texts of the tournament. -/
structure Labelled (t : Tournament) (dot : String) (glyphs : List Dot.Glyph) : Prop where
  scanned : Dot.scan .code dot.toList = some glyphs
  closed : ∀ line ∈ dot.toList.splitOn '\n', (Dot.scan .code line).isSome
  written : Dot.write glyphs = dot.toList
  labels : Dot.labels glyphs = t.texts.map Dot.shown

end Tournament

theorem Dot.scan_dot (g : Graph) : scan .code g.dot.toList = some ((lines g).flatMap Line.glyphs) :=
  scan_lines (isPlain_lines g)

theorem Dot.blank_dot (g : Graph) : blank g.dot = some (write (blanked ((lines g.bare).flatMap Line.glyphs))) := by
  rw [blank, scan_dot, Option.map_some, blanked_graph]

/--
Whatever the texts of a tournament are, in its graph they stand in the labels, where they can be read again, and the
rest of the graph is the same for tournaments of the same outcomes.
-/
theorem texts_confined (t : Tournament) (direction : Direction) :
    (∃ glyphs, t.Labelled (t.graph direction).dot glyphs) ∧
      ∀ u : Tournament, t.SameOutcomes u → Dot.blank (t.graph direction).dot = Dot.blank (u.graph direction).dot := by
  constructor
  · refine ⟨_, Dot.scan_dot _, ?_, Dot.write_lines _, ?_⟩
    · apply Dot.scan_splitOn
      rw [Dot.scan_dot]
      rfl
    · rw [Dot.labels_graph, t.texts_graph]
  · intro u h
    rw [Dot.blank_dot, Dot.blank_dot, h.bare_graph]

theorem texts_confined_quotes :
    let t : Tournament := ⟨.ofList [("nombre", "Copa \"\\\n")], [⟨"A", [], 1⟩],
      .ofList [("final", [⟨"A\\\"];", "B\r, label=\"", some " 2 - 1", [], 4⟩])]⟩
    let u : Tournament := ⟨.ofList [("nombre", "")], [], .ofList [("final", [⟨"C", "D", some "1-0", [], 9⟩])]⟩
    t.SameOutcomes u ∧ (∃ glyphs, t.Labelled (t.graph .topBottom).dot glyphs) ∧
      Dot.blank (t.graph .topBottom).dot = Dot.blank (u.graph .topBottom).dot := by
  intro t u
  have h : t.SameOutcomes u := by
    constructor
    · decide
    · intro p
      cases p <;> decide
    · intro p
      cases p <;> decide
  exact ⟨h, (texts_confined t .topBottom).1, (texts_confined t .topBottom).2 u h⟩

end Knockout
