import Knockout.KeyMap
import Knockout.Phase

namespace Knockout

structure Player where
  name : String
  attributes : KeyMap String
deriving DecidableEq

structure Team where
  name : String
  players : List Player
  line : UInt32
deriving DecidableEq

structure Scorer where
  player : String
  minute : Option String
deriving DecidableEq, Repr

structure Fixture where
  home : String
  away : String
  result : Option String
  scorers : List Scorer
  line : UInt32
deriving DecidableEq, Repr

structure Tournament where
  info : KeyMap String
  teams : List Team
  bracket : KeyMap (List Fixture)
deriving DecidableEq

namespace Team

def lists (t : Team) (player : String) : Bool :=
  t.players.any fun p => p.name = player

end Team

namespace Tournament

def empty : Tournament := ⟨.empty, [], .empty⟩

def isEmpty (t : Tournament) : Bool :=
  t.info.isEmpty && t.teams.isEmpty && t.bracket.isEmpty

def name? (t : Tournament) : Option String :=
  t.info.find? "nombre"

def fixtures? (t : Tournament) (phase : Phase) : Option (List Fixture) :=
  t.bracket.find? phase.key

def fixtures (t : Tournament) (phase : Phase) : List Fixture :=
  (t.fixtures? phase).getD []

/-- The known phases in bracket order, then the phases by other names in the order of their names. -/
def phases (t : Tournament) : List (String × List Fixture) :=
  (Phase.all.filterMap fun p => (t.fixtures? p).map fun games => (p.key, games)) ++
    t.bracket.entries.filter fun e => (Phase.ofName? e.1).isNone

def team? (t : Tournament) (name : String) : Option Team :=
  t.teams.find? fun team => team.name = name

def clubOf? (t : Tournament) (player : String) : Option String :=
  (t.teams.find? fun team => team.lists player).map Team.name

end Tournament

end Knockout
