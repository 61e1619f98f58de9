import Knockout.Score

namespace Knockout

structure Goal where
  player : String
  club : String
  minute : Option String
  phase : String
deriving DecidableEq, Repr

def unknownClub : String := "Desconocido"

namespace Goal

def minuteLimit : Nat := 4294967296

def minuteValue? (g : Goal) : Option Nat := do
  let text ← g.minute
  match trim text.toList with
  | '+' :: digits => readDecimal? minuteLimit digits
  | digits => readDecimal? minuteLimit digits

def before (a b : Goal) : Bool :=
  a.player < b.player || a.player = b.player &&
    match a.minuteValue?, b.minuteValue? with
    | some m, some n => m ≤ n
    | none, some _ => false
    | _, none => true

end Goal

def Tournament.goals (t : Tournament) : List Goal :=
  (t.schedule.flatMap fun p => p.fixture.scorers.map fun s =>
    ⟨s.player, (t.clubOf? s.player).getD unknownClub, s.minute, p.phase⟩).mergeSort Goal.before

structure Tally where
  player : String
  club : String
  goals : UInt32
  minutes : List String
deriving DecidableEq, Repr

namespace Tally

def credit (g : Goal) : List Tally → List Tally
  | [] => [⟨g.player, g.club, 1, g.minute.toList⟩]
  | t :: rest =>
    if t.player = g.player then
      { t with goals := t.goals + 1, minutes := t.minutes ++ g.minute.toList } :: rest
    else t :: credit g rest

def ahead (a b : Tally) : Bool :=
  b.goals < a.goals || a.goals = b.goals && a.player ≤ b.player

def ofGoals (goals : List Goal) : List Tally :=
  (goals.foldl (fun tallies g => credit g tallies) []).mergeSort ahead

end Tally

end Knockout
