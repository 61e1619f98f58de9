import Knockout.Proofs.RowTallies
import Knockout.Proofs.ScheduleOrder

namespace Knockout

def Fixture.Features (f : Fixture) (team : String) : Prop := f.home = team ∨ f.away = team

namespace Standing

section Update

variable {change : Row → Row} (rows : List Row) (team name : String)

def rowOf : Row := (rows.find? fun row => row.team = name).getD { team := name }

theorem rowOf_of_mem {rows : List Row} (hn : (rows.map Row.team).Nodup) {row : Row} (h : row ∈ rows) :
    rowOf rows row.team = row := by
  induction rows with
  | nil => cases h
  | cons first rows ih =>
    rw [List.map_cons, List.nodup_cons] at hn
    rcases List.mem_cons.mp h with rfl | h
    · simp [rowOf]
    · have hne : first.team ≠ row.team := fun he => hn.1 (he ▸ List.mem_map_of_mem h)
      have hrow := ih hn.2 h
      rwa [rowOf, List.find?_cons_of_neg (by simpa using hne)]

def KeepsTeam (change : Row → Row) : Prop := ∀ row, (change row).team = row.team

theorem keepsTeam_id : KeepsTeam id := fun _ => rfl

theorem keepsTeam_reach (rank : Nat) : KeepsTeam (Row.reach rank) := fun _ => rfl

theorem keepsTeam_record (scored conceded : Nat) : KeepsTeam (Row.record scored conceded) := by
  intro row
  unfold Row.record
  split
  · rfl
  · split <;> rfl

theorem rowOf_update (h : KeepsTeam change) :
    rowOf (update team change rows) name = if team = name then change (rowOf rows name) else rowOf rows name := by
  induction rows with
  | nil =>
    by_cases ht : team = name
    · subst ht
      simp [update, rowOf, h _]
    · simp [update, rowOf, h _, ht]
  | cons row rows ih =>
    unfold rowOf at ih
    unfold update
    by_cases hr : row.team = team
    · subst hr
      by_cases hn : row.team = name <;> simp [rowOf, h _, hn]
    · rw [if_neg hr]
      by_cases hn : row.team = name
      · subst hn
        simp [rowOf, Ne.symm hr]
      · simp [rowOf, hn, ih]

theorem teams_update (h : KeepsTeam change) : (update team change rows).map Row.team =
    if team ∈ rows.map Row.team then rows.map Row.team else rows.map Row.team ++ [team] := by
  induction rows with
  | nil => simp [update, h _]
  | cons row rows ih =>
    unfold update
    by_cases hr : row.team = team
    · simp [hr, h _]
    · rw [if_neg hr, List.map_cons, ih]
      by_cases hm : team ∈ rows.map Row.team
      · simp [hm]
      · simp [hm, Ne.symm hr]

variable {rows name}

theorem nodup_update (h : KeepsTeam change) (hn : (rows.map Row.team).Nodup) :
    ((update team change rows).map Row.team).Nodup := by
  rw [teams_update _ _ h]
  split
  case isTrue => exact hn
  case isFalse hm =>
    rw [List.nodup_append_comm]
    exact List.nodup_cons.mpr ⟨hm, hn⟩

theorem mem_teams_update (h : KeepsTeam change) :
    name ∈ (update team change rows).map Row.team ↔ name ∈ rows.map Row.team ∨ team = name := by
  rw [teams_update _ _ h]
  split
  case isTrue hm =>
    constructor
    · exact .inl
    · rintro (hr | rfl)
      · exact hr
      · exact hm
  case isFalse => simp [eq_comm]

end Update

section Enter

variable {rows : List Row} {name : String} {outings : List Outing}

theorem tallies_reach (h : (rowOf rows name).Tallies outings) (team : String) (rank : Nat) :
    (rowOf (update team (.reach rank) rows) name).Tallies outings := by
  rw [rowOf_update _ _ _ (keepsTeam_reach rank)]
  split
  · exact h.reach rank
  · exact h

theorem tallies_record (h : (rowOf rows name).Tallies outings) (team : String) {scored conceded : Nat}
    (hs : scored < Score.limit) (hc : conceded < Score.limit) :
    (rowOf (update team (.record scored conceded) rows) name).Tallies
      (outings ++ if team = name then [⟨scored, conceded⟩] else []) := by
  rw [rowOf_update _ _ _ (keepsTeam_record scored conceded)]
  split
  · exact h.record hs hc
  · rwa [List.append_nil]

theorem rank_reach_le (team : String) (rank k : Nat) : (rowOf (update team (.reach rank) rows) name).rank ≤ k ↔
    (rowOf rows name).rank ≤ k ∧ (team = name → rank ≤ k) := by
  rw [rowOf_update _ _ _ (keepsTeam_reach rank)]
  split
  case isTrue h => simp [Row.reach, h]
  case isFalse h => simp [h]

theorem rank_record (team : String) (scored conceded : Nat) :
    (rowOf (update team (.record scored conceded) rows) name).rank = (rowOf rows name).rank := by
  rw [rowOf_update _ _ _ (keepsTeam_record scored conceded)]
  split
  · unfold Row.record
    split
    · rfl
    · split <;> rfl
  · rfl

theorem nodup_enter (h : (rows.map Row.team).Nodup) (g : Placed) : ((enter rows g).map Row.team).Nodup := by
  have hreach := nodup_update g.fixture.away (keepsTeam_reach (Phase.rankOf g.phase))
    (nodup_update g.fixture.home (keepsTeam_reach (Phase.rankOf g.phase)) h)
  unfold enter
  split
  · exact hreach
  · apply nodup_update _ (keepsTeam_record _ _)
    exact nodup_update _ (keepsTeam_record _ _) hreach

theorem mem_teams_enter (g : Placed) :
    name ∈ (enter rows g).map Row.team ↔ name ∈ rows.map Row.team ∨ g.fixture.Features name := by
  unfold enter Fixture.Features
  split
  · rw [mem_teams_update _ (keepsTeam_reach _), mem_teams_update _ (keepsTeam_reach _), or_assoc]
  · rw [mem_teams_update _ (keepsTeam_record _ _), mem_teams_update _ (keepsTeam_record _ _),
      mem_teams_update _ (keepsTeam_reach _), mem_teams_update _ (keepsTeam_reach _)]
    tauto

theorem tallies_enter (h : (rowOf rows name).Tallies outings) (g : Placed) :
    (rowOf (enter rows g) name).Tallies (outings ++ g.fixture.outings name) := by
  have hreach := tallies_reach (tallies_reach h g.fixture.home (Phase.rankOf g.phase)) g.fixture.away
    (Phase.rankOf g.phase)
  unfold enter Fixture.outings
  split
  case h_1 hs =>
    rw [hs, Option.elim_none, List.append_nil]
    exact hreach
  case h_2 s hs =>
    obtain ⟨hh, ha⟩ := g.fixture.lt_limit_of_score? hs
    rw [hs, Option.elim_some, ← List.append_assoc]
    exact tallies_record (tallies_record hreach g.fixture.home hh ha) g.fixture.away ha hh

theorem rank_enter_le (g : Placed) (k : Nat) : (rowOf (enter rows g) name).rank ≤ k ↔
    (rowOf rows name).rank ≤ k ∧ (g.fixture.Features name → Phase.rankOf g.phase ≤ k) := by
  unfold enter Fixture.Features
  split
  · rw [rank_reach_le, rank_reach_le]
    tauto
  · rw [rank_record, rank_record, rank_reach_le, rank_reach_le]
    tauto

end Enter

structure Entered (teams : List Team) (games : List Placed) (rows : List Row) : Prop where
  nodup : (rows.map Row.team).Nodup
  teams (name : String) : name ∈ rows.map Row.team ↔
    name ∈ teams.map Team.name ∨ ∃ g ∈ games, g.fixture.Features name
  tallies (name : String) : (rowOf rows name).Tallies (games.flatMap fun g => g.fixture.outings name)
  rank (name : String) (k : Nat) : (rowOf rows name).rank ≤ k ↔
    ∀ g ∈ games, g.fixture.Features name → Phase.rankOf g.phase ≤ k

variable {teams : List Team} {games : List Placed} {rows : List Row}

theorem entered_nil : Entered [] [] [] where
  nodup := .nil
  teams := by simp
  tallies := Row.tallies_nil
  rank := by simp [rowOf]

theorem Entered.roster (h : Entered teams games rows) (team : Team) :
    Entered (teams ++ [team]) games (update team.name id rows) where
  nodup := nodup_update _ keepsTeam_id h.nodup
  teams name := by
    rw [mem_teams_update _ keepsTeam_id, h.teams, List.map_append, List.mem_append, or_right_comm]
    simp [eq_comm]
  tallies name := by
    rw [rowOf_update _ _ _ keepsTeam_id, id, ite_self]
    exact h.tallies name
  rank name k := by
    rw [rowOf_update _ _ _ keepsTeam_id, id, ite_self]
    exact h.rank name k

theorem Entered.game (h : Entered teams games rows) (g : Placed) :
    Entered teams (games ++ [g]) (enter rows g) where
  nodup := nodup_enter h.nodup g
  teams name := by
    rw [mem_teams_enter, h.teams, or_assoc]
    simp [or_and_right, exists_or]
  tallies name := by
    rw [List.flatMap_append, List.flatMap_singleton]
    exact tallies_enter (h.tallies name) g
  rank name k := by
    rw [rank_enter_le, h.rank]
    simp [or_imp, forall_and]

theorem Entered.tallies_of_mem (h : Entered teams games rows) {row : Row} (hrow : row ∈ rows) :
    row.Tallies (games.flatMap fun g => g.fixture.outings row.team) := by
  have htallies := h.tallies row.team
  rwa [rowOf_of_mem h.nodup hrow] at htallies

theorem entered_rosters (teams : List Team) :
    Entered teams [] (teams.foldl (fun rows team => update team.name id rows) []) := by
  induction teams using List.reverseRecOn with
  | nil => exact entered_nil
  | append_singleton teams team ih =>
    rw [List.foldl_append]
    exact ih.roster team

theorem Entered.foldl_enter (h : Entered teams [] rows) (games : List Placed) :
    Entered teams games (games.foldl enter rows) := by
  induction games using List.reverseRecOn with
  | nil => exact h
  | append_singleton games g ih =>
    rw [List.foldl_append]
    exact ih.game g

theorem entered_rows (t : Tournament) : Entered t.teams t.schedule (Standing.rows t) :=
  (entered_rosters t.teams).foldl_enter t.schedule

end Standing

theorem Phase.rank_le_three (p : Phase) : p.rank ≤ 3 := Nat.le_of_lt_succ p.rank_lt_four

theorem Phase.exists_rank_eq {rank : Nat} (h : rank ≤ 3) : rank = 0 ∨ ∃ p : Phase, rank = p.rank := by
  match rank, h with
  | 0, _ => exact .inl rfl
  | 1, _ => exact .inr ⟨.quarterfinal, rfl⟩
  | 2, _ => exact .inr ⟨.semifinal, rfl⟩
  | 3, _ => exact .inr ⟨.final, rfl⟩

namespace Tournament

def outings (t : Tournament) (team : String) : List Outing :=
  t.phases.flatMap fun e => e.2.flatMap fun f => f.outings team

theorem outings_eq_schedule (t : Tournament) (team : String) :
    t.outings team = t.schedule.flatMap fun g => g.fixture.outings team :=
  (t.flatMap_schedule fun f => f.outings team).symm

def Plays (t : Tournament) (team : String) : Prop := ∃ e ∈ t.phases, ∃ f ∈ e.2, f.Features team

def Reaches (t : Tournament) (team : String) (p : Phase) : Prop :=
  ∃ e ∈ t.phases, ∃ f ∈ e.2, Phase.ofName? e.1 = some p ∧ f.Features team

theorem plays_iff {t : Tournament} {team : String} : t.Plays team ↔ ∃ g ∈ t.schedule, g.fixture.Features team :=
  (t.exists_scheduled fun _ f => f.Features team).symm

theorem reaches_iff {t : Tournament} {team : String} {p : Phase} :
    t.Reaches team p ↔ ∃ g ∈ t.schedule, Phase.ofName? g.phase = some p ∧ g.fixture.Features team :=
  (t.exists_scheduled fun phase f => Phase.ofName? phase = some p ∧ f.Features team).symm

def Furthest (t : Tournament) (team : String) (p : Phase) : Prop :=
  t.Reaches team p ∧ ∀ q, t.Reaches team q → q.rank ≤ p.rank

end Tournament

/-- A row of the table says of its team what the matches of the phases say. -/
structure Standing.Reflects (t : Tournament) (s : Standing) : Prop extends s.Counts (t.outings s.team) where
  phaseName : (∃ p, t.Furthest s.team p ∧ s.phaseName = p.displayName) ∨
    (∀ p, ¬ t.Reaches s.team p) ∧ s.phaseName = ""

structure Tournament.Tabulated (t : Tournament) : Prop where
  nodup : (t.standings.map Standing.team).Nodup
  teams (name : String) : name ∈ t.standings.map Standing.team ↔
    name ∈ t.teams.map Team.name ∨ t.Plays name
  rows : ∀ s ∈ t.standings, s.Reflects t

namespace Standing

variable {t : Tournament} {rows : List Row} {name : String}

theorem rank_le_iff (h : Entered t.teams t.schedule rows) (k : Nat) :
    (rowOf rows name).rank ≤ k ↔ ∀ p, t.Reaches name p → p.rank ≤ k := by
  rw [h.rank]
  simp only [Tournament.reaches_iff]
  constructor
  · rintro hk p ⟨g, hg, hp, hf⟩
    have hr := hk g hg hf
    rwa [Phase.rankOf, hp] at hr
  · intro hk g hg hf
    unfold Phase.rankOf
    cases hp : Phase.ofName? g.phase with
    | none => exact Nat.zero_le k
    | some p => exact hk p ⟨g, hg, hp, hf⟩

theorem furthest_of_rank (h : Entered t.teams t.schedule rows) {p : Phase} (hp : (rowOf rows name).rank = p.rank) :
    t.Furthest name p := by
  have hle : ∀ q, t.Reaches name q → q.rank ≤ p.rank := (rank_le_iff h p.rank).mp hp.le
  refine ⟨?_, hle⟩
  by_contra hn
  have hlt : (rowOf rows name).rank ≤ p.rank - 1 := by
    apply (rank_le_iff h _).mpr
    intro q hq
    have hne : q.rank ≠ p.rank := fun he => hn (Phase.eq_of_rank_eq he ▸ hq)
    have := hle q hq
    omega
  have := p.rank_pos
  omega

theorem counts_finish (h : Entered t.teams t.schedule rows) (hn : t.games.length ≤ 2 ^ 30) {row : Row}
    (hrow : row ∈ rows) : row.finish.Counts (t.outings row.team) := by
  rw [t.outings_eq_schedule]
  apply (h.tallies_of_mem hrow).counts (bounded_outings t.schedule row.team)
  exact t.schedule_length_le.trans hn

theorem reflects_finish (h : Entered t.teams t.schedule rows) (hn : t.games.length < 2 ^ 30) {row : Row}
    (hrow : row ∈ rows) : row.finish.Reflects t := by
  have hrowOf := rowOf_of_mem h.nodup hrow
  refine ⟨counts_finish h hn.le hrow, ?_⟩
  have hrank : row.rank ≤ 3 := by
    rw [← hrowOf, rank_le_iff h]
    exact fun p _ => p.rank_le_three
  rcases Phase.exists_rank_eq hrank with hzero | ⟨p, hp⟩
  · refine .inr ⟨fun p hp => ?_, by simp [phaseName, Row.finish, hzero, Phase.ofRank?, Phase.all, Phase.rank]⟩
    have hle := (rank_le_iff h 0).mp ((congrArg Row.rank hrowOf).trans hzero).le p hp
    have := p.rank_pos
    omega
  · refine .inl ⟨p, furthest_of_rank h (by rw [← hp]; exact congrArg Row.rank hrowOf), ?_⟩
    simp [phaseName, Row.finish, hp, Phase.ofRank?_rank]

theorem counts_of_mem (hn : t.games.length ≤ 2 ^ 30) {s : Standing} (hs : s ∈ t.standings) :
    s.Counts (t.outings s.team) := by
  obtain ⟨row, hrow, rfl⟩ := List.mem_map.mp (List.mem_mergeSort.mp hs)
  exact counts_finish (entered_rows t) hn hrow

end Standing

theorem tournament_tabulated (t : Tournament) (h : t.games.length < 2 ^ 30) : t.Tabulated := by
  have hentered := Standing.entered_rows t
  have hperm : t.standings.Perm ((Standing.rows t).map Row.finish) := List.mergeSort_perm _ _
  have hteams : (t.standings.map Standing.team).Perm ((Standing.rows t).map Row.team) := by
    have hmap := hperm.map Standing.team
    rwa [List.map_map] at hmap
  constructor
  · exact hteams.nodup_iff.mpr hentered.nodup
  · intro name
    rw [hteams.mem_iff, Tournament.plays_iff]
    exact hentered.teams name
  · intro s hs
    obtain ⟨row, hrow, rfl⟩ := List.mem_map.mp (hperm.mem_iff.mp hs)
    exact Standing.reflects_finish hentered h hrow

theorem tournament_tabulated_self_match :
    let quarterfinals : List Fixture := [⟨"A", "B", some "2-1", [], 2⟩, ⟨"C", "C", some "0-0", [], 3⟩]
    let t : Tournament :=
      ⟨.empty, [⟨"A", [], 1⟩], .ofList [("cuartos", quarterfinals), ("final", [⟨"A", "D", none, [], 4⟩])]⟩
    t.games.length < 2 ^ 30 ∧ t.Tabulated := by
  intro quarterfinals t
  have h : t.games.length < 2 ^ 30 := by decide
  exact ⟨h, tournament_tabulated t h⟩

end Knockout
