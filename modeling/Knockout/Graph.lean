import Knockout.Log
import Knockout.Score

namespace Knockout

inductive Direction where
  | leftRight
  | topBottom
deriving DecidableEq, Repr

def Direction.keyword : Direction → String
  | leftRight => "LR"
  | topBottom => "TB"

inductive Slot where
  | home
  | away
  | game
deriving DecidableEq, Repr

def Slot.letter : Slot → String
  | home => "A"
  | away => "B"
  | game => "M"

structure NodeId where
  phase : Phase
  index : Nat
  slot : Slot
deriving DecidableEq, Repr

def NodeId.text (n : NodeId) : String := s!"{n.phase.key}_{n.index}_{n.slot.letter}"

inductive Fill where
  | winner
  | level
deriving DecidableEq, Repr

def Fill.color : Fill → String
  | winner => "palegreen"
  | level => "khaki"

inductive Statement where
  | team (id : NodeId) (name : String) (fill : Option Fill)
  | game (id : NodeId) (label : String)
  | link (side game : NodeId)
deriving DecidableEq, Repr

structure Cluster where
  phase : Phase
  statements : List Statement
deriving DecidableEq, Repr

structure Advance where
  winner : NodeId
  target : NodeId
deriving DecidableEq, Repr

structure Graph where
  direction : Direction
  title : Option String
  clusters : List Cluster
  advances : List Advance
deriving DecidableEq, Repr

namespace Statement

def fill (side : Slot) : Option Verdict → Option Fill
  | some .draw => some .level
  | some .homeWin => if side = .home then some .winner else none
  | some .awayWin => if side = .away then some .winner else none
  | none => none

def ofFixture (phase : Phase) (index : Nat) (f : Fixture) : List Statement :=
  let id slot : NodeId := ⟨phase, index, slot⟩
  [.team (id .home) f.home (fill .home f.verdict?),
    .team (id .away) f.away (fill .away f.verdict?),
    .game (id .game) (f.result.getD "vs"),
    .link (id .home) (id .game),
    .link (id .away) (id .game)]

def teamNode? : Statement → Option NodeId
  | team id .. => some id
  | _ => none

end Statement

namespace Advance

def winner? (f : Fixture) : Option Slot :=
  match f.verdict? with
  | some .homeWin => some .home
  | some .awayWin => some .away
  | _ => none

/-- The winners of matches `2 i` and `2 i + 1` meet in match `i` of the next phase, if there is one. -/
def ofFixture? (phase next : Phase) (games index : Nat) (f : Fixture) : Option Advance := do
  let slot ← winner? f
  if index / 2 < games then
    some ⟨⟨phase, index, slot⟩, ⟨next, index / 2, if index % 2 = 0 then .home else .away⟩⟩
  else none

def between (t : Tournament) (phase next : Phase) : List Advance :=
  ((t.fixtures phase).mapIdx (ofFixture? phase next (t.fixtures next).length)).filterMap id

end Advance

def Tournament.knownPhases (t : Tournament) : List Phase :=
  Phase.all.filter fun p => t.bracket.contains p.key

def Tournament.graph (t : Tournament) (direction : Direction) : Graph where
  direction
  title := t.name?
  clusters := t.knownPhases.map fun p => ⟨p, ((t.fixtures p).mapIdx (Statement.ofFixture p)).flatten⟩
  advances := (t.knownPhases.zip t.knownPhases.tail).flatMap fun e => Advance.between t e.1 e.2

def Graph.log (g : Graph) : List LogLine :=
  [⟨.debug, .graph, s!"generated bracket graph with {g.clusters.length} phase cluster(s)"⟩]

end Knockout
