import Knockout.Score

namespace Knockout

structure Row where
  team : String
  played : UInt32 := 0
  won : UInt32 := 0
  drawn : UInt32 := 0
  lost : UInt32 := 0
  goalsFor : UInt64 := 0
  goalsAgainst : UInt64 := 0
  points : UInt32 := 0
  rank : Nat := 0
deriving DecidableEq, Repr

structure Standing where
  team : String
  played : UInt32
  won : UInt32
  drawn : UInt32
  lost : UInt32
  goalsFor : UInt64
  goalsAgainst : UInt64
  goalDifference : Int64
  points : UInt32
  phaseReached : Option Phase
deriving DecidableEq

def addSaturating (a b : UInt64) : UInt64 :=
  if a.toNat + b.toNat < 18446744073709551616 then a + b else 18446744073709551615

def toSigned (n : UInt64) : Int64 :=
  if n.toNat < 9223372036854775808 then n.toInt64 else Int64.maxValue

namespace Row

def reach (rank : Nat) (row : Row) : Row := { row with rank := max row.rank rank }

def record (scored conceded : Nat) (row : Row) : Row :=
  let counted := { row with
    played := row.played + 1
    goalsFor := addSaturating row.goalsFor (.ofNat scored)
    goalsAgainst := addSaturating row.goalsAgainst (.ofNat conceded) }
  if conceded < scored then { counted with won := row.won + 1, points := row.points + 3 }
  else if scored < conceded then { counted with lost := row.lost + 1 }
  else { counted with drawn := row.drawn + 1, points := row.points + 1 }

def finish (row : Row) : Standing where
  team := row.team
  played := row.played
  won := row.won
  drawn := row.drawn
  lost := row.lost
  goalsFor := row.goalsFor
  goalsAgainst := row.goalsAgainst
  goalDifference := toSigned row.goalsFor - toSigned row.goalsAgainst
  points := row.points
  phaseReached := Phase.ofRank? row.rank

end Row

namespace Standing

def phaseName (s : Standing) : String := s.phaseReached.elim "" Phase.displayName

def update (team : String) (change : Row → Row) : List Row → List Row
  | [] => [change { team }]
  | row :: rest => if row.team = team then change row :: rest else row :: update team change rest

def enter (rows : List Row) (p : Placed) : List Row :=
  let rank := Phase.rankOf p.phase
  let rows := update p.fixture.away (.reach rank) (update p.fixture.home (.reach rank) rows)
  match p.fixture.score? with
  | none => rows
  | some s => update p.fixture.away (.record s.away s.home) (update p.fixture.home (.record s.home s.away) rows)

def rows (t : Tournament) : List Row :=
  t.schedule.foldl enter (t.teams.foldl (fun rows team => update team.name id rows) [])

def ahead (a b : Standing) : Bool :=
  b.points < a.points || a.points = b.points &&
    (b.goalDifference < a.goalDifference || a.goalDifference = b.goalDifference && b.goalsFor ≤ a.goalsFor)

end Standing

def Tournament.standings (t : Tournament) : List Standing :=
  ((Standing.rows t).map Row.finish).mergeSort Standing.ahead

end Knockout
