import Knockout.Proofs.FillReading
import Knockout.Proofs.ScheduleOrder
import Knockout.Proofs.TableTotals
import Knockout.Report

namespace Knockout

namespace Tournament

variable {t : Tournament}

theorem mem_phases_key_iff {p : Phase} {games : List Fixture} :
    (p.key, games) ∈ t.phases ↔ t.fixtures? p = some games := by
  rw [phases, List.mem_append]
  constructor
  · rintro (h | h)
    · obtain ⟨q, -, hq⟩ := List.mem_filterMap.mp h
      obtain ⟨games', hgames, he⟩ := Option.map_eq_some_iff.mp hq
      obtain ⟨hkey, rfl⟩ := Prod.mk.inj he
      rwa [← Phase.key_injective hkey]
    · have hnone := (List.mem_filter.mp h).2
      simp [Phase.ofName?_key] at hnone
  · intro h
    exact .inl (List.mem_filterMap.mpr ⟨p, p.mem_all, by rw [h, Option.map_some]⟩)

theorem fixtures?_of_getElem? {p : Phase} {i : Nat} {f : Fixture} (h : (t.fixtures p)[i]? = some f) :
    t.fixtures? p = some (t.fixtures p) := by
  unfold fixtures at h ⊢
  cases hp : t.fixtures? p with
  | none =>
    rw [hp] at h
    cases h
  | some games => rfl

theorem mem_schedule_iff {p : Phase} {i : Nat} {f : Fixture} :
    ⟨p.key, i, f⟩ ∈ t.schedule ↔ (t.fixtures p)[i]? = some f := by
  rw [mem_schedule]
  constructor
  · rintro ⟨games, he, hf⟩
    rwa [fixtures, mem_phases_key_iff.mp he]
  · intro h
    exact ⟨_, mem_phases_key_iff.mpr (fixtures?_of_getElem? h), h⟩

theorem places_nodup (t : Tournament) : (t.schedule.map fun g => (g.phase, g.index)).Nodup := by
  refine List.pairwise_map.mpr (t.schedule_ordered.imp fun {a b} h he => ?_)
  obtain ⟨hphase, hindex⟩ := Prod.mk.inj he
  rcases h with h | ⟨-, h⟩
  · rw [hphase] at h
    exact Nat.lt_irrefl _ h
  · omega

end Tournament

namespace Finding

variable {t : Tournament} {goals : List Goal}

theorem game?_of_ofGame? {g : Placed} {f : Finding} (h : ofGame? g = some f) : f.game? = some g := by
  unfold ofGame? at h
  split at h
  · obtain rfl := Option.some.inj h
    rfl
  · obtain rfl := Option.some.inj h
    rfl
  · cases h

theorem mem_all_iff {f : Finding} {g : Placed} (hg : f.game? = some g) :
    f ∈ all t goals ↔ g ∈ t.schedule ∧ ofGame? g = some f := by
  rw [all, List.mem_append, List.mem_append, List.mem_filterMap]
  constructor
  · rintro ((⟨g', hg', hf⟩ | h) | h)
    · obtain rfl : g' = g := Option.some.inj ((game?_of_ofGame? hf).symm.trans hg)
      exact ⟨hg', hf⟩
    · obtain ⟨player, -, rfl⟩ := List.mem_map.mp h
      cases hg
    · obtain ⟨team, -, rfl⟩ := List.mem_map.mp h
      cases hg
  · rintro ⟨hmem, hf⟩
    exact .inl (.inl ⟨g, hmem, hf⟩)

def matchChecks : List (String × Option Verdict) := [("pending", none), ("drawn_knockout", some .draw)]

theorem pending_mem_matchChecks : ("pending", none) ∈ matchChecks := by decide

theorem drawn_mem_matchChecks : ("drawn_knockout", some .draw) ∈ matchChecks := by decide

section Checks

variable {check : String} {ending : Option Verdict} (h : (check, ending) ∈ matchChecks)

include h

theorem exists_ofGame?_iff {g : Placed} :
    (∃ f, ofGame? g = some f ∧ f.check = check) ↔ g.fixture.verdict? = ending := by
  simp only [matchChecks, List.mem_cons, Prod.mk.injEq, List.not_mem_nil, or_false] at h
  unfold ofGame?
  rcases h with ⟨rfl, rfl⟩ | ⟨rfl, rfl⟩
  · rcases g.fixture.verdict? with _ | _ | _ | _ <;> simp [Finding.check]
  · rcases g.fixture.verdict? with _ | _ | _ | _ <;> simp [Finding.check]

theorem game?_of_check {f : Finding} (hf : f.check = check) : ∃ g, f.game? = some g := by
  simp only [matchChecks, List.mem_cons, Prod.mk.injEq, List.not_mem_nil, or_false] at h
  cases f with
  | pending g => exact ⟨g, rfl⟩
  | drawn g => exact ⟨g, rfl⟩
  | unrosteredScorer player goals => rcases h with ⟨rfl, -⟩ | ⟨rfl, -⟩ <;> simp [Finding.check] at hf
  | unrosteredTeam team => rcases h with ⟨rfl, -⟩ | ⟨rfl, -⟩ <;> simp [Finding.check] at hf

theorem countP_all :
    (all t goals).countP (fun f => f.check = check) = t.schedule.countP fun g => g.fixture.verdict? = ending := by
  have hnone (findings : List Finding) (hg : ∀ f ∈ findings, f.game? = none) :
      findings.countP (fun f => f.check = check) = 0 := by
    refine List.countP_eq_zero.mpr fun f hf hcheck => ?_
    obtain ⟨g, hsome⟩ := game?_of_check h (of_decide_eq_true hcheck)
    rw [hg f hf] at hsome
    cases hsome
  have hplayers := hnone ((unrosteredPlayers t goals).map fun player =>
    .unrosteredScorer player (goals.countP fun g => g.player = player)) (by simp [game?])
  have hteams := hnone ((unrosteredTeams t).map .unrosteredTeam) (by simp [game?])
  rw [all, List.countP_append, List.countP_append, hplayers, hteams, List.countP_filterMap]
  apply List.countP_congr
  intro g _
  rw [decide_eq_true_iff, ← exists_ofGame?_iff h]
  cases ofGame? g <;> simp

end Checks

end Finding

namespace Report

def count (r : Report) (check : String) : Nat := r.findings.countP fun f => f.check = check

def Remarks (r : Report) (check : String) (p : Phase) (i : Nat) : Prop :=
  ∃ f ∈ r.findings, f.check = check ∧ ∃ g, f.game? = some g ∧ g.phase = p.key ∧ g.index = i

theorem remarks_iff {t : Tournament} {p : Phase} {i : Nat} {f : Fixture} (hf : (t.fixtures p)[i]? = some f)
    {check : String} {ending : Option Verdict} (h : (check, ending) ∈ Finding.matchChecks) :
    t.report.Remarks check p i ↔ f.verdict? = ending := by
  rw [← Finding.exists_ofGame?_iff h (g := ⟨p.key, i, f⟩)]
  constructor
  · rintro ⟨finding, hfinding, hcheck, ⟨key, j, f'⟩, hg, rfl, rfl⟩
    obtain ⟨hmem, hsome⟩ := (Finding.mem_all_iff hg).mp hfinding
    obtain rfl : f' = f := Option.some.inj ((Tournament.mem_schedule_iff.mp hmem).symm.trans hf)
    exact ⟨finding, hsome, hcheck⟩
  · rintro ⟨finding, hsome, hcheck⟩
    have hg := Finding.game?_of_ofGame? hsome
    refine ⟨finding, ?_, hcheck, _, hg, rfl, rfl⟩
    exact (Finding.mem_all_iff hg).mpr ⟨Tournament.mem_schedule_iff.mpr hf, hsome⟩

structure Balanced (t : Tournament) (r : Report) : Prop where
  remarked (f : Finding) : f ∈ r.findings → f.check = "pending" ∨ f.check = "drawn_knockout" →
    ∃ g ∈ t.schedule, f.game? = some g
  remarked_once : ((r.findings.filterMap Finding.game?).map fun g => (g.phase, g.index)).Nodup
  played : (r.standings.map fun s => s.played.toNat).sum + 2 * r.count "pending" = 2 * t.schedule.length
  drawn : (r.standings.map fun s => s.drawn.toNat).sum = 2 * r.count "drawn_knockout"
  won : (r.standings.map fun s => s.won.toNat).sum + r.count "pending" + r.count "drawn_knockout" = t.schedule.length
  lost : (r.standings.map fun s => s.lost.toNat).sum + r.count "pending" + r.count "drawn_knockout" = t.schedule.length

theorem balanced (t : Tournament) (h : t.games.length < 2 ^ 30) : t.report.Balanced t := by
  have hpending : t.report.count "pending" = t.schedule.countP fun g => g.fixture.verdict? = none :=
    Finding.countP_all Finding.pending_mem_matchChecks
  have hdrawn : t.report.count "drawn_knockout" = t.schedule.countP fun g => g.fixture.verdict? = some .draw :=
    Finding.countP_all Finding.drawn_mem_matchChecks
  have hsided := sided_games t.schedule
  constructor
  · rintro f hf hcheck
    have hgame : ∃ g, f.game? = some g := by
      rcases hcheck with hcheck | hcheck
      · exact Finding.game?_of_check Finding.pending_mem_matchChecks hcheck
      · exact Finding.game?_of_check Finding.drawn_mem_matchChecks hcheck
    obtain ⟨g, hg⟩ := hgame
    exact ⟨g, ((Finding.mem_all_iff hg).mp hf).1, hg⟩
  · change (((Finding.all t t.goals).filterMap Finding.game?).map _).Nodup
    rw [Finding.games_all]
    exact t.places_nodup.sublist (List.filter_sublist.map _)
  · have hcounts (s : Standing) (outings : List Outing) (hs : s.Counts outings) :
        s.played.toNat = outings.countP fun _ => true := by
      rw [hs.played, List.countP_true]
    have hsum := t.sum_standings h hcounts
    rw [hpending, ← hsided.played, ← hsum]
    rfl
  · have hsum := t.sum_standings h fun s outings hs => hs.drawn
    rw [hdrawn, ← hsided.drawn, ← hsum]
    rfl
  · have hsum := t.sum_standings h fun s outings hs => hs.won
    rw [hpending, hdrawn, ← hsided.won, ← hsum]
    rfl
  · have hsum := t.sum_standings h fun s outings hs => hs.lost
    rw [hpending, hdrawn, ← hsided.lost, ← hsum]
    rfl

end Report

section Painted

variable {t : Tournament} {direction : Direction}

theorem Statement.mem_filled_iff {p : Phase} {i : Nat} {f : Fixture} {n : NodeId} {fill : Fill} :
    (n, fill) ∈ (ofFixture p i f).filterMap filled? ↔
      (n.phase = p ∧ n.index = i) ∧ n.slot ≠ .game ∧ Statement.fill n.slot f.verdict? = some fill := by
  obtain ⟨q, j, slot⟩ := n
  have hfilled : (ofFixture p i f).filterMap filled? =
      ((Statement.fill .home f.verdict?).map (⟨p, i, .home⟩, ·)).toList ++
        ((Statement.fill .away f.verdict?).map (⟨p, i, .away⟩, ·)).toList := by
    unfold ofFixture
    rcases f.verdict? with _ | _ | _ | _ <;> rfl
  rw [hfilled]
  cases slot with
  | home => simp [and_comm, eq_comm]
  | away => simp [and_comm, eq_comm]
  | game => simp

theorem mem_fills_iff {n : NodeId} {color : String} :
    (n.text, color) ∈ Dot.fills (Dot.graphClauses (t.graph direction)) ↔ ∃ f, (t.fixtures n.phase)[n.index]? = some f ∧
      n.slot ≠ .game ∧ (Statement.fill n.slot f.verdict?).map Fill.color = some color := by
  rw [Dot.fills_graph]
  constructor
  · intro h
    obtain ⟨c, hc, h⟩ := List.mem_flatMap.mp h
    obtain ⟨s, hs, h⟩ := List.mem_filterMap.mp h
    obtain ⟨⟨m, fill⟩, hfilled, he⟩ := Option.map_eq_some_iff.mp h
    obtain ⟨htext, rfl⟩ := Prod.mk.inj he
    obtain rfl : m = n := NodeId.text_injective htext
    obtain ⟨p, -, rfl⟩ := List.mem_map.mp hc
    obtain ⟨l, hl, hs⟩ := List.mem_flatten.mp hs
    obtain ⟨i, hi, rfl⟩ := List.mem_mapIdx.mp hl
    have hmem := Statement.mem_filled_iff.mp (List.mem_filterMap.mpr ⟨s, hs, hfilled⟩)
    obtain ⟨⟨rfl, rfl⟩, hslot, hfill⟩ := hmem
    exact ⟨_, List.getElem?_eq_getElem hi, hslot, by rw [hfill, Option.map_some]⟩
  · rintro ⟨f, hf, hslot, hcolor⟩
    obtain ⟨fill, hfill, rfl⟩ := Option.map_eq_some_iff.mp hcolor
    have hmem := Statement.mem_filled_iff.mpr ⟨⟨rfl, rfl⟩, hslot, hfill⟩
    obtain ⟨s, hs, hfilled⟩ := List.mem_filterMap.mp hmem
    obtain ⟨hi, rfl⟩ := List.getElem?_eq_some_iff.mp hf
    have hknown : n.phase ∈ t.knownPhases := by
      refine Tournament.mem_knownPhases.mpr ?_
      rw [Tournament.Has, KeyMap.contains]
      exact Option.isSome_of_eq_some (Tournament.fixtures?_of_getElem? hf)
    refine List.mem_flatMap.mpr ⟨_, List.mem_map.mpr ⟨_, hknown, rfl⟩, List.mem_filterMap.mpr ⟨s, ?_, ?_⟩⟩
    · exact List.mem_flatten.mpr ⟨_, List.mem_mapIdx.mpr ⟨_, hi, rfl⟩, hs⟩
    · rw [hfilled, Option.map_some]

theorem Statement.fill_winner {f : Fixture} {slot : Slot} (h : Advance.winner? f = some slot) :
    (f.verdict? ≠ none ∧ f.verdict? ≠ some .draw) ∧ slot ≠ .game ∧ fill slot f.verdict? = some .winner := by
  revert h
  unfold Advance.winner?
  rcases f.verdict? with _ | _ | _ | _ <;> intro h
  · cases h
  · obtain rfl := Option.some.inj h
    decide
  · obtain rfl := Option.some.inj h
    decide
  · cases h

end Painted

def Phase.Filled (p : Phase) (i : Nat) (clauses : List (List Dot.Sign)) (side : Slot) (color : String) : Prop :=
  (NodeId.text ⟨p, i, side⟩, color) ∈ Dot.fills clauses

open Dot in
structure Tournament.Agrees (t : Tournament) (clauses : List (List Sign)) (p : Phase) (i : Nat) : Prop where
  pending : t.report.Remarks "pending" p i ↔ ∀ color ∈ ["palegreen", "khaki"],
    ¬ p.Filled i clauses .home color ∧ ¬ p.Filled i clauses .away color
  drawn : t.report.Remarks "drawn_knockout" p i ↔
    p.Filled i clauses .home "khaki" ∧ p.Filled i clauses .away "khaki"
  decided : ¬ t.report.Remarks "pending" p i ∧ ¬ t.report.Remarks "drawn_knockout" p i ↔
    (p.Filled i clauses .home "palegreen" ↔ ¬ p.Filled i clauses .away "palegreen")
  advances (slot : Slot) (head : String) : (NodeId.text ⟨p, i, slot⟩, head) ∈
      (clauses.filterMap item?).filterMap (Item.edgeWith? "style" "bold") →
    (¬ t.report.Remarks "pending" p i ∧ ¬ t.report.Remarks "drawn_knockout" p i) ∧ p.Filled i clauses slot "palegreen"

theorem Tournament.agrees (t : Tournament) (direction : Direction) {p : Phase} {i : Nat}
    (hi : i < (t.fixtures p).length) : t.Agrees (Dot.graphClauses (t.graph direction)) p i := by
  have hf := List.getElem?_eq_getElem hi
  generalize (t.fixtures p)[i] = f at hf
  have hpending := Report.remarks_iff hf Finding.pending_mem_matchChecks
  have hdrawn := Report.remarks_iff hf Finding.drawn_mem_matchChecks
  have hfilled (side : Slot) (color : String) : p.Filled i (Dot.graphClauses (t.graph direction)) side color ↔
      side ≠ .game ∧ (Statement.fill side f.verdict?).map Fill.color = some color := by
    rw [Phase.Filled, mem_fills_iff]
    simp [hf]
  constructor
  · simp only [hpending, hfilled]
    rcases f.verdict? with _ | _ | _ | _ <;> decide
  · simp only [hdrawn, hfilled]
    rcases f.verdict? with _ | _ | _ | _ <;> decide
  · simp only [hpending, hdrawn, hfilled]
    rcases f.verdict? with _ | _ | _ | _ <;> decide
  · intro slot head hbold
    rw [Dot.items_graphClauses] at hbold
    obtain ⟨f', hf', hwon⟩ := Tournament.won_of_bold hbold
    obtain rfl : f' = f := Option.some.inj (hf'.symm.trans hf)
    obtain ⟨hdecided, hslot, hwinner⟩ := Statement.fill_winner (Advance.winner?_eq_some_iff.mpr hwon)
    rw [hpending, hdrawn, hfilled]
    exact ⟨hdecided, hslot, by rw [hwinner]; rfl⟩

end Knockout
