import Knockout.Proofs.ScheduleOrder
import Knockout.Proofs.StableOrder
import Knockout.Proofs.StandingsReference

namespace Knockout

def Tournament.entrants (t : Tournament) : List String := t.teams.map Team.name ++ t.contenders

namespace Standing

section Entrants

variable {rows : List Row} {names : List String}

theorem teams_update_of_eraseDups {change : Row → Row} (h : KeepsTeam change)
    (hrows : rows.map Row.team = names.eraseDups) (team : String) :
    (update team change rows).map Row.team = (names ++ [team]).eraseDups := by
  rw [teams_update rows team h, hrows, List.eraseDups_append]
  by_cases hm : team ∈ names
  · rw [if_pos (List.mem_eraseDups.mpr hm)]
    simp [List.removeAll, hm]
  · rw [if_neg (by rwa [List.mem_eraseDups])]
    simp [List.removeAll, hm, List.eraseDups_cons]

theorem teams_update_of_mem {change : Row → Row} (h : KeepsTeam change) (team : String)
    (hm : team ∈ rows.map Row.team) : (update team change rows).map Row.team = rows.map Row.team := by
  rw [teams_update rows team h, if_pos hm]

theorem teams_enter (hrows : rows.map Row.team = names.eraseDups) (g : Placed) :
    (enter rows g).map Row.team = (names ++ [g.fixture.home, g.fixture.away]).eraseDups := by
  have hreach := teams_update_of_eraseDups (keepsTeam_reach (Phase.rankOf g.phase))
    (teams_update_of_eraseDups (keepsTeam_reach (Phase.rankOf g.phase)) hrows g.fixture.home) g.fixture.away
  rw [List.append_assoc] at hreach
  unfold enter
  split
  case h_1 => exact hreach
  case h_2 s _ =>
    have hhome := teams_update_of_mem (keepsTeam_record s.home s.away) g.fixture.home (by rw [hreach]; simp)
    have haway := teams_update_of_mem (keepsTeam_record s.away s.home) g.fixture.away (by rw [hhome, hreach]; simp)
    rw [haway, hhome, hreach]
    rfl

end Entrants

theorem teams_rows (t : Tournament) : (rows t).map Row.team = t.entrants.eraseDups := by
  have hteams : (t.teams.foldl (fun rows team => update team.name id rows) []).map Row.team =
      (t.teams.map Team.name).eraseDups := by
    induction t.teams using List.reverseRecOn with
    | nil => rfl
    | append_singleton teams team ih =>
      rw [List.foldl_append, List.map_append]
      exact teams_update_of_eraseDups keepsTeam_id ih team.name
  have hgames := Tournament.flatMap_schedule t fun f => [f.home, f.away]
  rw [Tournament.entrants, Tournament.contenders, ← hgames, rows]
  induction t.schedule using List.reverseRecOn with
  | nil => rwa [List.flatMap_nil, List.append_nil]
  | append_singleton games g ih =>
    rw [List.foldl_append, List.flatMap_append, ← List.append_assoc]
    exact teams_enter ih g

theorem rows_ordered (t : Tournament) :
    (rows t).Pairwise fun a b => t.entrants.idxOf a.team < t.entrants.idxOf b.team := by
  have hteams := pairwise_idxOf_eraseDups t.entrants fun _ => true
  rwa [List.filter_true, ← teams_rows, List.pairwise_map] at hteams

def Precedes (names : List String) (a b : Standing) : Prop :=
  b.points < a.points ∨ a.points = b.points ∧ (b.goalDifference < a.goalDifference ∨
    a.goalDifference = b.goalDifference ∧ (b.goalsFor < a.goalsFor ∨
      a.goalsFor = b.goalsFor ∧ names.idxOf a.team < names.idxOf b.team))

section Ahead

variable {a b : Standing}

theorem ahead_iff : ahead a b = true ↔ b.points.toNat < a.points.toNat ∨ a.points.toNat = b.points.toNat ∧
    (b.goalDifference.toInt < a.goalDifference.toInt ∨ a.goalDifference.toInt = b.goalDifference.toInt ∧
      b.goalsFor.toNat ≤ a.goalsFor.toNat) := by
  simp only [ahead, Bool.or_eq_true, Bool.and_eq_true, decide_eq_true_eq, UInt32.lt_iff_toNat_lt, UInt32.toNat_inj,
    Int64.lt_iff_toInt_lt, Int64.toInt_inj, UInt64.le_iff_toNat_le]

theorem precedes_iff {names : List String} : Precedes names a b ↔ b.points.toNat < a.points.toNat ∨
    a.points.toNat = b.points.toNat ∧ (b.goalDifference.toInt < a.goalDifference.toInt ∨
      a.goalDifference.toInt = b.goalDifference.toInt ∧ (b.goalsFor.toNat < a.goalsFor.toNat ∨
        a.goalsFor.toNat = b.goalsFor.toNat ∧ names.idxOf a.team < names.idxOf b.team)) := by
  simp only [Precedes, UInt32.lt_iff_toNat_lt, UInt32.toNat_inj, Int64.lt_iff_toInt_lt, Int64.toInt_inj,
    UInt64.lt_iff_toNat_lt, UInt64.toNat_inj]

theorem ranks_ahead : Ranks ahead where
  trans a b c := by
    simp only [ahead_iff]
    omega
  total a b := by
    rw [Bool.or_eq_true, ahead_iff, ahead_iff]
    omega

theorem precedes_of_ahead {names : List String} (hab : ahead a b = true)
    (hlevel : ahead b a = true → names.idxOf a.team < names.idxOf b.team) : Precedes names a b := by
  rw [ahead_iff] at hab hlevel
  rw [precedes_iff]
  omega

end Ahead

instance (names : List String) : Std.Asymm (Precedes names) where
  asymm a b hab hba := by
    rw [precedes_iff] at hab hba
    omega

theorem phaseReached_inj {s s' : Standing} (h : s.phaseName = s'.phaseName) : s.phaseReached = s'.phaseReached := by
  unfold phaseName at h
  rcases hs : s.phaseReached with _ | _ | _ | _ <;> rcases hs' : s'.phaseReached with _ | _ | _ | _ <;>
    simp [hs, hs', Phase.displayName] at h ⊢

end Standing

theorem Tournament.Furthest.unique {t : Tournament} {team : String} {p q : Phase} (hp : t.Furthest team p)
    (hq : t.Furthest team q) : p = q := by
  apply Phase.eq_of_rank_eq
  exact Nat.le_antisymm (hq.2 p hp.1) (hp.2 q hq.1)

theorem Standing.Reflects.unique {t : Tournament} {s s' : Standing} (h : s.Reflects t) (h' : s'.Reflects t)
    (ht : s.team = s'.team) : s = s' := by
  have hcounts := h.toCounts
  have hcounts' := h'.toCounts
  rw [← ht] at hcounts'
  have hphase : s.phaseName = s'.phaseName := by
    rcases h.phaseName with ⟨p, hp, hs⟩ | ⟨hnone, hs⟩ <;> rcases h'.phaseName with ⟨q, hq, hs'⟩ | ⟨hnone', hs'⟩
    · rw [← ht] at hq
      rw [hs, hs', hp.unique hq]
    · rw [← ht] at hnone'
      exact absurd hp.1 (hnone' p)
    · rw [← ht] at hq
      exact absurd hq.1 (hnone q)
    · rw [hs, hs']
  have hreached := phaseReached_inj hphase
  have hplayed := UInt32.toNat_inj.mp (hcounts.played.trans hcounts'.played.symm)
  have hwon := UInt32.toNat_inj.mp (hcounts.won.trans hcounts'.won.symm)
  have hdrawn := UInt32.toNat_inj.mp (hcounts.drawn.trans hcounts'.drawn.symm)
  have hlost := UInt32.toNat_inj.mp (hcounts.lost.trans hcounts'.lost.symm)
  have hfor := UInt64.toNat_inj.mp (hcounts.goalsFor.trans hcounts'.goalsFor.symm)
  have hagainst := UInt64.toNat_inj.mp (hcounts.goalsAgainst.trans hcounts'.goalsAgainst.symm)
  have hdifference := Int64.toInt_inj.mp (hcounts.goalDifference.trans hcounts'.goalDifference.symm)
  have hpoints := UInt32.toNat_inj.mp (hcounts.points.trans hcounts'.points.symm)
  cases s
  cases s'
  simp_all

/-- A table in its order: one row for each team, with the figures of its matches, better figures first. -/
structure Tournament.Ranked (t : Tournament) (table : List Standing) : Prop where
  teams (name : String) : name ∈ table.map Standing.team ↔ name ∈ t.entrants
  rows : ∀ s ∈ table, s.Reflects t
  ordered : table.Pairwise (Standing.Precedes t.entrants)

namespace Tournament.Ranked

variable {t : Tournament} {table table' : List Standing}

theorem mem_of_mem (h : t.Ranked table) (h' : t.Ranked table') {s : Standing} (hs : s ∈ table) : s ∈ table' := by
  have hteam := (h'.teams s.team).mpr ((h.teams s.team).mp (List.mem_map_of_mem hs))
  obtain ⟨s', hs', ht⟩ := List.mem_map.mp hteam
  rwa [(h.rows s hs).unique (h'.rows s' hs') ht.symm]

theorem unique (h : t.Ranked table) (h' : t.Ranked table') : table = table' := by
  apply h.ordered.eq_of_mem_iff h'.ordered
  exact fun s => ⟨h.mem_of_mem h', h'.mem_of_mem h⟩

end Tournament.Ranked

theorem Tournament.ranked_standings (t : Tournament) (h : t.games.length < 2 ^ 30) : t.Ranked t.standings where
  teams name := by
    have hperm := (List.mergeSort_perm ((Standing.rows t).map Row.finish) Standing.ahead).map Standing.team
    rw [standings, hperm.mem_iff, List.map_map, ← List.mem_eraseDups (l := t.entrants), ← Standing.teams_rows]
    rfl
  rows s hs := by
    obtain ⟨row, hrow, rfl⟩ := List.mem_map.mp (List.mem_mergeSort.mp hs)
    exact Standing.reflects_finish (Standing.entered_rows t) h hrow
  ordered := by
    have hrows : ((Standing.rows t).map Row.finish).Pairwise fun a b =>
        t.entrants.idxOf a.team < t.entrants.idxOf b.team := by
      rw [List.pairwise_map]
      exact Standing.rows_ordered t
    apply (Standing.ranks_ahead.pairwise_mergeSort hrows).imp
    rintro a b ⟨hab, hlevel⟩
    exact Standing.precedes_of_ahead hab hlevel

theorem ranked_iff_eq_standings (t : Tournament) (h : t.games.length < 2 ^ 30) (table : List Standing) :
    t.Ranked table ↔ table = t.standings := by
  constructor
  · intro hranked
    exact hranked.unique (t.ranked_standings h)
  · rintro rfl
    exact t.ranked_standings h

theorem ranked_iff_eq_standings_of_level_teams :
    let quarterfinals : List Fixture := [⟨"A", "B", some "1-0", [], 4⟩, ⟨"C", "D", some "3-2", [], 5⟩]
    let t : Tournament := ⟨.empty, [⟨"Z", [], 1⟩, ⟨"Y", [], 2⟩, ⟨"Z", [], 3⟩], .ofList [("cuartos", quarterfinals)]⟩
    t.games.length < 2 ^ 30 ∧ ∀ table, t.Ranked table ↔ table = t.standings := by
  intro quarterfinals t
  have h : t.games.length < 2 ^ 30 := by decide
  exact ⟨h, ranked_iff_eq_standings t h⟩

example : (Tournament.mk .empty [⟨"Z", [], 1⟩, ⟨"Y", [], 2⟩, ⟨"Z", [], 3⟩] (.ofList [("cuartos",
    [⟨"A", "B", some "1-0", [], 4⟩, ⟨"C", "D", some "3-2", [], 5⟩])])).standings.map Standing.team =
      ["C", "A", "Z", "Y", "D", "B"] := by cbv

end Knockout
