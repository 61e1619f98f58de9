import Knockout.Encoding
import Knockout.Proofs.GoalOrder
import Knockout.Proofs.KeyLookups
import Mathlib.Data.List.Sort

namespace Knockout

namespace Tournament

def scorers (t : Tournament) : List Scorer := t.phases.flatMap fun e => e.2.flatMap Fixture.scorers

theorem team?_eq_none_iff {t : Tournament} {name : String} :
    t.team? name = none ↔ ∀ team ∈ t.teams, team.name ≠ name := by
  simp [team?]

theorem players_goals (t : Tournament) : (t.goals.map Goal.player).Perm (t.scorers.map Scorer.player) := by
  refine ((List.mergeSort_perm _ _).map Goal.player).trans ?_
  rw [scorers, ← flatMap_schedule, List.map_flatMap, List.map_flatMap]
  simp [List.map_map, Function.comp_def]

end Tournament

namespace Finding

structure Record where
  check : String
  severity : Severity
  message : String
  subject : Option String
  details : Json

def record (f : Finding) : Record := ⟨f.check, f.severity, f.message, f.subject?, f.details⟩

def gameRecord (g : Placed) : Record :=
  let details := Json.obj [("phase", .str g.phase), ("index", .ofNat g.index), ("line", .ofNat g.fixture.line.toNat),
    ("result", .ofOption .str g.fixture.result)]
  if g.fixture.score? = none then
    ⟨"pending", .info, s!"Match {g.fixture.home} vs {g.fixture.away} in {g.phase} has no result yet", none, details⟩
  else
    ⟨"drawn_knockout", .warning,
      s!"Match {g.fixture.home} vs {g.fixture.away} in {g.phase} ended level; no team advances", none, details⟩

def scorerRecord (player : String) (goals : Nat) : Record :=
  ⟨"unrostered_scorer", .warning, s!"Player '{player}' scored {goals} goal(s) but is on no team roster", some player,
    .obj [("goals", .ofNat goals)]⟩

def teamRecord (team : String) : Record :=
  ⟨"unrostered_team", .info, s!"Team '{team}' plays in the bracket but has no roster", some team, .null⟩

structure Remarked (t : Tournament) (goals : List Goal) (games : List Placed) (players teams : List String) :
    Prop where
  mem_games (g : Placed) : g ∈ games ↔
    (∃ fixtures, (g.phase, fixtures) ∈ t.phases ∧ fixtures[g.index]? = some g.fixture) ∧
      ∀ s, g.fixture.score? = some s → s.home = s.away
  games_ordered : games.Pairwise (Placed.Precedes t.keys)
  mem_players (player : String) : player ∈ players ↔
    (∃ g ∈ goals, g.player = player ∧ g.club = unknownClub) ∧ t.Unlisted player
  players_ordered : players.Pairwise fun a b => a < b
  mem_teams (name : String) : name ∈ teams ↔ name ∈ t.contenders ∧ ∀ team ∈ t.teams, team.name ≠ name
  teams_ordered : teams.Pairwise fun a b => t.contenders.idxOf a < t.contenders.idxOf b

theorem Remarked.unique {t : Tournament} {goals : List Goal} {games games' : List Placed}
    {players players' teams teams' : List String} (h : Remarked t goals games players teams)
    (h' : Remarked t goals games' players' teams') : games = games' ∧ players = players' ∧ teams = teams' := by
  have : Std.Asymm fun a b : String => t.contenders.idxOf a < t.contenders.idxOf b := ⟨fun _ _ => Nat.lt_asymm⟩
  refine ⟨?_, ?_, ?_⟩
  · exact h.games_ordered.eq_of_mem_iff h'.games_ordered fun g => (h.mem_games g).trans (h'.mem_games g).symm
  · exact h.players_ordered.eq_of_mem_iff h'.players_ordered fun p => (h.mem_players p).trans (h'.mem_players p).symm
  · exact h.teams_ordered.eq_of_mem_iff h'.teams_ordered fun n => (h.mem_teams n).trans (h'.mem_teams n).symm

def Lists (t : Tournament) (goals : List Goal) (records : List Record) : Prop :=
  ∃ games players teams, Remarked t goals games players teams ∧
    records = games.map gameRecord ++
      players.map (fun player => scorerRecord player (goals.countP fun g => g.player = player)) ++
      teams.map teamRecord

theorem isUndecided_iff {g : Placed} : isUndecided g = true ↔ ∀ s, g.fixture.score? = some s → s.home = s.away := by
  unfold isUndecided Fixture.verdict?
  cases g.fixture.score? with
  | none => simp
  | some s => simp [s.verdict_eq_draw_iff]

theorem records_games (games : List Placed) :
    (games.filterMap ofGame?).map record = (games.filter isUndecided).map gameRecord := by
  have hgame (g : Placed) : (ofGame? g).map record = if isUndecided g then some (gameRecord g) else none := by
    unfold ofGame? isUndecided gameRecord Fixture.verdict?
    cases g.fixture.score? with
    | none => rfl
    | some s =>
      rw [Option.map_some]
      cases s.verdict <;> rfl
  rw [List.map_filterMap, ← List.filterMap_eq_map, List.filterMap_filter]
  simp only [hgame, Function.comp_apply]

theorem mem_unrosteredPlayers {t : Tournament} {goals : List Goal} {player : String} :
    player ∈ unrosteredPlayers t goals ↔
      (∃ g ∈ goals, g.player = player ∧ g.club = unknownClub) ∧ t.Unlisted player := by
  rw [unrosteredPlayers, KeyMap.mem_keys_ofList, ← Tournament.clubOf?_eq_none_iff]
  simp only [List.map_map, List.mem_map, List.mem_filter, decide_eq_true_eq, Function.comp_apply]
  constructor
  · rintro ⟨g, ⟨hg, hclub, hnone⟩, rfl⟩
    exact ⟨⟨g, hg, rfl, hclub⟩, hnone⟩
  · rintro ⟨⟨g, hg, rfl, hclub⟩, hnone⟩
    exact ⟨g, ⟨hg, hclub, hnone⟩, rfl⟩

theorem remarked_all (t : Tournament) (goals : List Goal) :
    Remarked t goals (t.schedule.filter isUndecided) (unrosteredPlayers t goals) (unrosteredTeams t) where
  mem_games g := by rw [List.mem_filter, Tournament.mem_schedule, isUndecided_iff]
  games_ordered := t.schedule_ordered.filter _
  mem_players _ := mem_unrosteredPlayers
  players_ordered := List.pairwise_map.mpr (KeyMap.ordered _)
  mem_teams name := by
    rw [unrosteredTeams, List.mem_eraseDups, List.mem_filter, Tournament.flatMap_schedule t fun f => [f.home, f.away],
      Option.isNone_iff_eq_none, Tournament.team?_eq_none_iff]
    rfl
  teams_ordered := by
    rw [unrosteredTeams, Tournament.flatMap_schedule t fun f => [f.home, f.away]]
    exact pairwise_idxOf_eraseDups _ _

theorem lists_iff (t : Tournament) (goals : List Goal) (records : List Record) :
    Lists t goals records ↔ records = (all t goals).map record := by
  have hall : (all t goals).map record = (t.schedule.filter isUndecided).map gameRecord ++
      (unrosteredPlayers t goals).map (fun player => scorerRecord player (goals.countP fun g => g.player = player)) ++
      (unrosteredTeams t).map teamRecord := by
    rw [all, List.map_append, List.map_append, records_games, List.map_map, List.map_map]
    rfl
  rw [hall]
  constructor
  · rintro ⟨games, players, teams, h, rfl⟩
    obtain ⟨rfl, rfl, rfl⟩ := h.unique (remarked_all t goals)
    rfl
  · rintro rfl
    exact ⟨_, _, _, remarked_all t goals, rfl⟩

theorem mem_unrosteredPlayers_goals {t : Tournament} {player : String} :
    player ∈ unrosteredPlayers t t.goals ↔ (∃ s ∈ t.scorers, s.player = player) ∧ t.Unlisted player := by
  have hcredited : (∃ g ∈ t.goals, g.player = player) ↔ ∃ s ∈ t.scorers, s.player = player := by
    rw [← List.mem_map, ← List.mem_map]
    exact t.players_goals.mem_iff
  rw [mem_unrosteredPlayers, ← hcredited]
  apply and_congr_left
  intro hunlisted
  constructor
  · rintro ⟨g, hg, hplayer, -⟩
    exact ⟨g, hg, hplayer⟩
  · rintro ⟨g, hg, rfl⟩
    refine ⟨g, hg, rfl, ?_⟩
    rw [Tournament.club_of_mem_goals hg, Tournament.clubOf?_eq_none_iff.mpr hunlisted, Option.getD_none]

theorem mem_report_iff {t : Tournament} {player : String} {goals : Nat} :
    .unrosteredScorer player goals ∈ t.report.findings ↔ ((∃ s ∈ t.scorers, s.player = player) ∧ t.Unlisted player) ∧
      goals = t.scorers.countP fun s => s.player = player := by
  have hcount : (t.goals.countP fun g => g.player = player) = t.scorers.countP fun s => s.player = player := by
    have := t.players_goals.countP_eq fun name => name = player
    rwa [List.countP_map, List.countP_map] at this
  change _ ∈ all t t.goals ↔ _
  rw [← mem_unrosteredPlayers_goals, ← hcount, all, List.mem_append, List.mem_append, List.mem_filterMap, List.mem_map,
    List.mem_map]
  constructor
  · rintro ((⟨g, -, hg⟩ | ⟨p, hp, he⟩) | ⟨name, -, he⟩)
    · unfold ofGame? at hg
      split at hg <;> cases hg
    · obtain ⟨rfl, rfl⟩ := unrosteredScorer.inj he
      exact ⟨hp, rfl⟩
    · cases he
  · rintro ⟨hp, rfl⟩
    exact .inl (.inr ⟨player, hp, rfl⟩)

end Finding

theorem report_findings_exact (t : Tournament) :
    (∀ r : Report, (r.withFindings t).standings = r.standings ∧ (r.withFindings t).goals = r.goals ∧
      ∀ records, Finding.Lists t r.goals records ↔ records = (r.withFindings t).findings.map Finding.record) ∧
    ∀ player goals, .unrosteredScorer player goals ∈ t.report.findings ↔
      ((∃ s ∈ t.scorers, s.player = player) ∧ t.Unlisted player) ∧
        goals = t.scorers.countP fun s => s.player = player := by
  constructor
  · intro r
    exact ⟨rfl, rfl, Finding.lists_iff t r.goals⟩
  · intro player goals
    exact Finding.mem_report_iff

example : (Tournament.mk .empty [⟨"Desconocido", [⟨"Ana", .empty⟩], 1⟩]
    (.ofList [("final", [⟨"Desconocido", "B", none, [⟨"Ana", none⟩, ⟨"Eva", none⟩], 1⟩])])).report.findings.map
      (fun f => (f.check, f.subject?)) =
    [("pending", none), ("unrostered_scorer", some "Eva"), ("unrostered_team", some "B")] := by cbv

end Knockout
