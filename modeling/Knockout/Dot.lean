import Knockout.Graph

namespace Knockout

/-- The letters that stand for a character inside a quoted string; a carriage return is left out. -/
def Dot.escapeChar (c : Char) : List Char :=
  if c = '"' then ['\\', '"']
  else if c = '\\' then ['\\', '\\']
  else if c = '\n' then ['\\', 'n']
  else if c = '\r' then []
  else [c]

namespace Dot

def escape (text : String) : String :=
  String.ofList (text.toList.flatMap escapeChar)

inductive Part where
  | code (text : String)
  | quoted (text : String)
deriving DecidableEq, Repr

def Part.text : Part → String
  | code text => text
  | quoted text => s!"\"{escape text}\""

abbrev Line := List Part

def Line.text (line : Line) : String :=
  String.join (line.map Part.text) ++ "\n"

def title (name : String) : List Line :=
  [[.code "    label=", .quoted name, .code ";"], [.code "    labelloc=t;"]]

def statement : Statement → Line
  | .team id name none => [.code s!"        {id.text} [label=", .quoted name, .code "];"]
  | .team id name (some fill) =>
    [.code s!"        {id.text} [label=", .quoted name, .code ", fillcolor=", .quoted fill.color, .code "];"]
  | .game id label => [.code s!"        {id.text} [label=", .quoted label, .code ", shape=ellipse];"]
  | .link side game => [.code s!"        {side.text} -> {game.text} [arrowhead=none];"]

def rank (nodes : List NodeId) : List Line :=
  if nodes.isEmpty then []
  else
    let ids := "; ".intercalate (nodes.map NodeId.text)
    [[.code s!"        \x7b rank=same; {ids}; \x7d"]]

def cluster (c : Cluster) : List Line :=
  [[], [.code s!"    subgraph cluster_{c.phase.key} \x7b"],
    [.code "        label=", .quoted c.phase.displayName, .code ";"]] ++
    c.statements.map statement ++ rank (c.statements.filterMap Statement.teamNode?) ++ [[.code "    \x7d"]]

def advance (a : Advance) : Line :=
  [.code s!"    {a.winner.text} -> {a.target.text} [style=bold];"]

def advances (l : List Advance) : List Line :=
  if l.isEmpty then [] else [] :: l.map advance

def lines (g : Graph) : List Line :=
  [[.code "digraph bracket \x7b"],
    [.code s!"    rankdir={g.direction.keyword};"],
    [.code "    node [shape=box, style=", .quoted "rounded,filled", .code ", fillcolor=", .quoted "white",
      .code "];"]] ++
    (g.title.elim [] title) ++ g.clusters.flatMap cluster ++ advances g.advances ++ [[.code "\x7d"]]

end Dot

def Graph.dot (g : Graph) : String :=
  String.join ((Dot.lines g).map Dot.Line.text)

end Knockout
