import Knockout.Json
import Knockout.Report
import Knockout.Source

namespace Knockout

namespace TokenKind

def typeName : TokenKind → String
  | reserved => "Reserved"
  | identifier => "Identifier"
  | string => "String"
  | number => "Number"
  | versus => "VersusMarker"
  | openBrace => "LBrace"
  | closeBrace => "RBrace"
  | openBracket => "LBracket"
  | closeBracket => "RBracket"
  | colon => "Colon"
  | comma => "Comma"
  | semicolon => "Semicolon"

end TokenKind

def Span.json (s : Span) : Json :=
  .obj [("start", .ofNat s.start), ("end", .ofNat s.stop)]

def Token.json (t : Token) : Json :=
  .obj [("kind", .str t.kind.typeName), ("lexeme", .str t.lexeme), ("line", .ofNat t.position.line.toNat),
    ("column", .ofNat t.position.column.toNat), ("span", t.position.span.json)]

def Diagnostic.json (d : Diagnostic) : Json :=
  .obj [("offending_text", .str d.text), ("kind", .str d.kind.label), ("category", .str d.kind.category.name),
    ("description", .str d.description), ("line", .ofNat d.position.line.toNat),
    ("column", .ofNat d.position.column.toNat)]

def KeyMap.json {α : Type} (f : α → Json) (m : KeyMap α) : Json :=
  .obj (m.entries.map fun e => (e.1, f e.2))

def Player.json (p : Player) : Json :=
  .obj [("name", .str p.name), ("attributes", p.attributes.json .str)]

def Team.json (t : Team) : Json :=
  .obj [("name", .str t.name), ("players", .arr (t.players.map Player.json)), ("line", .ofNat t.line.toNat)]

def Scorer.json (s : Scorer) : Json :=
  .obj [("player_name", .str s.player), ("minute", .ofOption .str s.minute)]

def Fixture.json (f : Fixture) : Json :=
  .obj [("team_a", .str f.home), ("team_b", .str f.away), ("result", .ofOption .str f.result),
    ("scorers", .arr (f.scorers.map Scorer.json)), ("line", .ofNat f.line.toNat)]

def Tournament.json (t : Tournament) : Json :=
  .obj [("metadata", t.info.json .str), ("teams", .arr (t.teams.map Team.json)),
    ("elimination_bracket", t.bracket.json fun games => .arr (games.map Fixture.json))]

def Standing.json (s : Standing) : Json :=
  .obj [("team", .str s.team), ("played", .ofNat s.played.toNat), ("won", .ofNat s.won.toNat),
    ("drawn", .ofNat s.drawn.toNat), ("lost", .ofNat s.lost.toNat), ("goals_for", .ofNat s.goalsFor.toNat),
    ("goals_against", .ofNat s.goalsAgainst.toNat), ("goal_difference", .num s.goalDifference.toInt),
    ("points", .ofNat s.points.toNat), ("phase_reached", .str s.phaseName)]

def Goal.json (g : Goal) : Json :=
  .obj [("player", .str g.player), ("club", .str g.club), ("minute", .ofOption .str g.minute),
    ("phase", .str g.phase)]

def Tally.json (t : Tally) : Json :=
  .obj [("player", .str t.player), ("club", .str t.club), ("goals", .ofNat t.goals.toNat),
    ("minutes", .strings t.minutes)]

def Severity.typeName : Severity → String
  | info => "Info"
  | warning => "Warning"

def Placed.json (g : Placed) : Json :=
  .obj [("phase", .str g.phase), ("index", .ofNat g.index), ("line", .ofNat g.fixture.line.toNat),
    ("result", .ofOption .str g.fixture.result)]

def Finding.details : Finding → Json
  | pending g | drawn g => g.json
  | unrosteredScorer _ goals => .obj [("goals", .ofNat goals)]
  | unrosteredTeam _ => .null

def Finding.json (f : Finding) : Json :=
  .obj [("check", .str f.check), ("severity", .str f.severity.typeName), ("message", .str f.message),
    ("subject", .ofOption .str f.subject?), ("details", f.details)]

def Report.json (r : Report) : Json :=
  .obj [("standings", .arr (r.standings.map Standing.json)), ("scorers", .arr (r.goals.map Goal.json)),
    ("findings", .arr (r.findings.map Finding.json))]

end Knockout
