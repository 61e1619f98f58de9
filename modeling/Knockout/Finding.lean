import Knockout.Goal
import Knockout.Standing

namespace Knockout

inductive Severity where
  | info
  | warning
deriving DecidableEq, Repr

inductive Finding where
  | pending (game : Placed)
  | drawn (game : Placed)
  | unrosteredScorer (player : String) (goals : Nat)
  | unrosteredTeam (team : String)
deriving DecidableEq, Repr

namespace Finding

def check : Finding → String
  | pending _ => "pending"
  | drawn _ => "drawn_knockout"
  | unrosteredScorer .. => "unrostered_scorer"
  | unrosteredTeam _ => "unrostered_team"

def severity : Finding → Severity
  | pending _ | unrosteredTeam _ => .info
  | drawn _ | unrosteredScorer .. => .warning

def message : Finding → String
  | pending g => s!"Match {g.fixture.home} vs {g.fixture.away} in {g.phase} has no result yet"
  | drawn g => s!"Match {g.fixture.home} vs {g.fixture.away} in {g.phase} ended level; no team advances"
  | unrosteredScorer player goals => s!"Player '{player}' scored {goals} goal(s) but is on no team roster"
  | unrosteredTeam team => s!"Team '{team}' plays in the bracket but has no roster"

def subject? : Finding → Option String
  | pending _ | drawn _ => none
  | unrosteredScorer player _ => some player
  | unrosteredTeam team => some team

def ofGame? (g : Placed) : Option Finding :=
  match g.fixture.verdict? with
  | none => some (.pending g)
  | some .draw => some (.drawn g)
  | some _ => none

def unrosteredPlayers (t : Tournament) (goals : List Goal) : List String :=
  let credited := goals.filter fun g => g.club = unknownClub ∧ t.clubOf? g.player = none
  (KeyMap.ofList (credited.map fun g => (g.player, ()))).entries.map Prod.fst

def unrosteredTeams (t : Tournament) : List String :=
  ((t.schedule.flatMap fun g => [g.fixture.home, g.fixture.away]).filter fun name =>
    (t.team? name).isNone).eraseDups

def all (t : Tournament) (goals : List Goal) : List Finding :=
  t.schedule.filterMap ofGame? ++
    (unrosteredPlayers t goals).map (fun player =>
      .unrosteredScorer player (goals.countP fun g => g.player = player)) ++
    (unrosteredTeams t).map .unrosteredTeam

end Finding

end Knockout
