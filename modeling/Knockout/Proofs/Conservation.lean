import Knockout.Proofs.TableTotals
import Mathlib.Algebra.BigOperators.Ring.List
import Mathlib.Algebra.Group.Nat.Even

namespace Knockout

namespace Placed

def isDecided (g : Placed) : Bool := g.fixture.verdict? = some .homeWin || g.fixture.verdict? = some .awayWin

def isDrawn (g : Placed) : Bool := g.fixture.verdict? = some .draw

theorem undecided_iff (g : Placed) : g.isDecided = false ∧ g.isDrawn = false ↔ g.fixture.score? = none := by
  unfold isDecided isDrawn Fixture.verdict?
  cases g.fixture.score? with
  | none => simp
  | some s => cases h : s.verdict <;> simp [h]

end Placed

def pointsIn (games : List Placed) : Nat := 3 * games.countP Placed.isDecided + 2 * games.countP Placed.isDrawn

theorem pointsIn_eq_zero_iff (games : List Placed) : pointsIn games = 0 ↔ ∀ g ∈ games, g.fixture.score? = none := by
  have hzero : pointsIn games = 0 ↔ games.countP Placed.isDecided = 0 ∧ games.countP Placed.isDrawn = 0 := by
    unfold pointsIn
    omega
  rw [hzero, List.countP_eq_zero, List.countP_eq_zero]
  simp only [← Placed.undecided_iff, Bool.not_eq_true, ← forall_and]

theorem countP_decided (games : List Placed) : games.countP Placed.isDecided +
    games.countP (fun g => g.fixture.verdict? = none) + games.countP (fun g => g.fixture.verdict? = some .draw) =
      games.length := by
  induction games with
  | nil => rfl
  | cons g games ih =>
    rw [List.countP_cons, List.countP_cons, List.countP_cons, List.length_cons]
    rcases hv : g.fixture.verdict? with _ | _ | _ | _ <;> simp [Placed.isDecided, hv] <;> omega

theorem pointsIn_eq (games : List Placed) {sides : List Outing} (h : Sided games sides) :
    pointsIn games = Outing.points sides := by
  have hdecided := countP_decided games
  have hwon := h.won
  have hdrawn := h.drawn
  have hlevel : games.countP Placed.isDrawn = games.countP fun g => g.fixture.verdict? = some .draw := rfl
  unfold pointsIn Outing.points
  omega

theorem Outing.length_eq (outings : List Outing) :
    outings.length = outings.countP isWon + outings.countP isDrawn + outings.countP isLost := by
  induction outings with
  | nil => rfl
  | cons o outings ih =>
    rw [List.length_cons, List.countP_cons, List.countP_cons, List.countP_cons, ih]
    rcases Nat.lt_trichotomy o.scored o.conceded with hlt | he | hlt
    · simp [isWon, isDrawn, isLost, hlt, hlt.ne, hlt.not_gt]
      omega
    · simp [isWon, isDrawn, isLost, he]
      omega
    · simp [isWon, isDrawn, isLost, hlt, hlt.ne', hlt.not_gt]
      omega

theorem scoredIn_sides (games : List Placed) : Outing.scoredIn (games.flatMap fun g => g.fixture.sides) =
    Outing.concededIn (games.flatMap fun g => g.fixture.sides) := by
  induction games with
  | nil => rfl
  | cons g games ih =>
    rw [List.flatMap_cons, Outing.scoredIn_append, Outing.concededIn_append, ih]
    congr 1
    unfold Fixture.sides
    cases g.fixture.score? with
    | none => rfl
    | some s => simp [Outing.scoredIn, Outing.concededIn, Nat.add_comm]

theorem pointsIn_perm {games games' : List Placed} (h : games.Perm games') : pointsIn games = pointsIn games' := by
  rw [pointsIn, h.countP_eq, h.countP_eq, pointsIn]

theorem pointsIn_filter (games : List Placed) (p : Placed → Bool) :
    pointsIn games = pointsIn (games.filter p) + pointsIn (games.filter fun g => !p g) := by
  have hdecided := games.countP_eq_countP_filter_add Placed.isDecided p
  have hdrawn := games.countP_eq_countP_filter_add Placed.isDrawn p
  unfold pointsIn
  omega

theorem sum_differences {table : List Standing}
    (h : ∀ s ∈ table, s.goalDifference.toInt = (s.goalsFor.toNat : Int) - s.goalsAgainst.toNat) :
    (table.map fun s => s.goalDifference.toInt).sum = ((table.map fun s => s.goalsFor.toNat).sum : Nat) -
      ((table.map fun s => s.goalsAgainst.toNat).sum : Nat) := by
  induction table with
  | nil => rfl
  | cons s table ih =>
    have hs := h s List.mem_cons_self
    have htable := ih fun s' hs' => h s' (List.mem_cons_of_mem s hs')
    simp only [List.map_cons, List.sum_cons]
    omega

theorem Tournament.sum_goals (t : Tournament) (h : t.games.length < 2 ^ 30) :
    (t.standings.map fun s => s.goalsFor.toNat).sum = (t.standings.map fun s => s.goalsAgainst.toNat).sum := by
  rw [t.sum_figures h fun s outings hs => hs.goalsFor, t.sum_figures h fun s outings hs => hs.goalsAgainst]
  exact scoredIn_sides t.schedule

theorem Tournament.sum_points (t : Tournament) (h : t.games.length < 2 ^ 30) :
    (t.standings.map fun s => s.points.toNat).sum = pointsIn (t.games.filter fun g => !Phase.isMiscased g.phase) := by
  have hwon := t.sum_standings h fun s outings hs => hs.won
  have hdrawn := t.sum_standings h fun s outings hs => hs.drawn
  have hrow : ∀ s ∈ t.standings, s.points.toNat = 3 * s.won.toNat + s.drawn.toNat := by
    intro s hs
    have hcounts := Standing.counts_of_mem h.le hs
    rw [hcounts.points, hcounts.won, hcounts.drawn]
    rfl
  rw [← pointsIn_perm t.schedule_perm, pointsIn_eq t.schedule (sided_games t.schedule), List.map_congr_left hrow,
    List.sum_map_add, List.sum_map_mul_left, hwon, hdrawn]
  rfl

structure Tournament.Conserved (t : Tournament) : Prop where
  played : ∀ s ∈ t.standings, s.played.toNat = s.won.toNat + s.drawn.toNat + s.lost.toNat
  goals : (t.standings.map fun s => s.goalsFor.toNat).sum = (t.standings.map fun s => s.goalsAgainst.toNat).sum
  differences : (t.standings.map fun s => s.goalDifference.toInt).sum = 0
  won : (t.standings.map fun s => s.won.toNat).sum = (t.standings.map fun s => s.lost.toNat).sum
  drawn : Even (t.standings.map fun s => s.drawn.toNat).sum
  points : (t.standings.map fun s => s.points.toNat).sum =
    pointsIn (t.games.filter fun g => !Phase.isMiscased g.phase)
  all_points : (t.standings.map fun s => s.points.toNat).sum = pointsIn t.games ↔
    ∀ g ∈ t.games, Phase.isMiscased g.phase = true → g.fixture.score? = none

theorem table_conserved (t : Tournament) (h : t.games.length < 2 ^ 30) : t.Conserved := by
  have hcounts (s : Standing) (hs : s ∈ t.standings) := Standing.counts_of_mem h.le hs
  have hsided := sided_games t.schedule
  have hwon := t.sum_standings h fun s outings hs => hs.won
  have hlost := t.sum_standings h fun s outings hs => hs.lost
  have hdrawn := t.sum_standings h fun s outings hs => hs.drawn
  have hgoals := t.sum_goals h
  have hpoints := t.sum_points h
  constructor
  · intro s hs
    rw [(hcounts s hs).played, (hcounts s hs).won, (hcounts s hs).drawn, (hcounts s hs).lost]
    exact Outing.length_eq _
  · exact hgoals
  · rw [sum_differences, hgoals]
    · exact Int.sub_self _
    · intro s hs
      rw [(hcounts s hs).goalDifference, (hcounts s hs).goalsFor, (hcounts s hs).goalsAgainst]
  · have := hsided.won
    have := hsided.lost
    omega
  · rw [hdrawn, hsided.drawn]
    exact even_two_mul _
  · exact hpoints
  · have hmissed := pointsIn_eq_zero_iff (t.games.filter fun g => Phase.isMiscased g.phase)
    rw [List.forall_mem_filter] at hmissed
    rw [hpoints, pointsIn_filter t.games fun g => Phase.isMiscased g.phase, ← hmissed]
    omega

theorem table_conserved_miscased_final :
    let t : Tournament := ⟨.empty, [], .ofList [("Final", [⟨"A", "B", some "1-0", [], 1⟩]),
      ("cuartos", [⟨"A", "A", some "2-2", [], 2⟩])]⟩
    t.games.length < 2 ^ 30 ∧ t.Conserved ∧ (t.standings.map fun s => s.points.toNat).sum ≠ pointsIn t.games := by
  intro t
  have h : t.games.length < 2 ^ 30 := by decide
  have hconserved := table_conserved t h
  refine ⟨h, hconserved, fun hpoints => ?_⟩
  have hfinal := hconserved.all_points.mp hpoints ⟨"Final", 0, ⟨"A", "B", some "1-0", [], 1⟩⟩ (by decide) (by decide)
  exact absurd hfinal (by decide)

end Knockout
