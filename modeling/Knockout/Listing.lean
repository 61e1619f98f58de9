import Knockout.Grid
import Knockout.Report
import Knockout.Source

namespace Knockout.Listing

def tokens (tokens : List Token) : String :=
  let grid : Grid := {
    headers := ["LINE", "COL", "KIND", "LEXEME"]
    rows := tokens.map fun t => [toString t.position.line, toString t.position.column, t.kind.label, t.lexeme] }
  s!"{grid.text}{tokens.length} token(s)\n"

def diagnostics (diagnostics : List Diagnostic) : String :=
  if diagnostics.isEmpty then "No problems found.\n"
  else
    let grid : Grid := {
      headers := ["LINE", "COL", "CATEGORY", "KIND", "TEXT", "DESCRIPTION"]
      rows := diagnostics.map fun d =>
        [toString d.position.line, toString d.position.column, d.kind.category.name, d.kind.label, d.text,
          d.description] }
    s!"{grid.text}{diagnostics.length} problem(s)\n"

def player (p : Player) : String :=
  if p.attributes.isEmpty then s!"    - {p.name}\n"
  else
    let attributes := ", ".intercalate (p.attributes.entries.map fun e => s!"{e.1}: {e.2}")
    s!"    - {p.name} [{attributes}]\n"

def team (t : Team) : String :=
  s!"  {t.name} ({t.players.length} jugador(es))\n" ++ String.join (t.players.map player)

def scorer (s : Scorer) : String :=
  match s.minute with
  | some minute => s!"{s.player} ({minute}')"
  | none => s.player

def fixture (f : Fixture) : String :=
  let result := f.result.getD "-"
  let goals :=
    if f.scorers.isEmpty then "" else "  goles: " ++ ", ".intercalate (f.scorers.map scorer)
  s!"    {f.home} vs {f.away}  {result}{goals}\n"

def phase (e : String × List Fixture) : String :=
  s!"  {e.1}:\n" ++ String.join (e.2.map fixture)

def tournament (t : Tournament) : String :=
  let name := t.name?.getD "(sin nombre)"
  let info := t.info.entries.filter fun e => e.1 ≠ "nombre"
  s!"Torneo: {name}\n" ++ String.join (info.map fun e => s!"  {e.1}: {e.2}\n") ++
    s!"\nEquipos ({t.teams.length})\n" ++ String.join (t.teams.map team) ++
    "\nEliminacion\n" ++ String.join (t.phases.map phase)

def signed (n : Int) : String :=
  if n < 0 then toString n else s!"+{n}"

def standings (standings : List Standing) : String :=
  let grid : Grid := {
    headers := ["#", "TEAM", "P", "W", "D", "L", "GF", "GA", "GD", "PTS", "PHASE"]
    rows := standings.mapIdx fun i s =>
      [toString (i + 1), s.team, toString s.played.toNat, toString s.won.toNat, toString s.drawn.toNat,
        toString s.lost.toNat, toString s.goalsFor.toNat, toString s.goalsAgainst.toNat,
        signed s.goalDifference.toInt, toString s.points.toNat, s.phaseName] }
  grid.text

def tallies (tallies : List Tally) : String :=
  if tallies.isEmpty then "No goals recorded.\n"
  else
    let grid : Grid := {
      headers := ["PLAYER", "CLUB", "GOALS", "MINUTES"]
      rows := tallies.map fun t => [t.player, t.club, toString t.goals.toNat, ", ".intercalate t.minutes] }
    grid.text

def severity : Severity → String
  | .info => "info"
  | .warning => "warning"

def findings (findings : List Finding) : String :=
  if findings.isEmpty then ""
  else "\nFindings\n" ++ String.join (findings.map fun f => s!"  [{severity f.severity}] {f.message}\n")

def stats (report : Report) (tallied : List Tally) : String :=
  s!"Standings\n{standings report.standings}\nScorers\n{tallies tallied}" ++ findings report.findings

end Knockout.Listing
