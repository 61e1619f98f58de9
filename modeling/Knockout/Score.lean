import Knockout.Decimal
import Knockout.Tournament
import Knockout.WhiteSpace

namespace Knockout

structure Score where
  home : Nat
  away : Nat
deriving DecidableEq, Repr

inductive Verdict where
  | homeWin
  | awayWin
  | draw
deriving DecidableEq, Repr

namespace Score

def verdict (s : Score) : Verdict :=
  if s.away < s.home then .homeWin else if s.home < s.away then .awayWin else .draw

def limit : Nat := 2147483648

def readGoals? (text : List Char) : Option (Nat × List Char) :=
  (readDecimal? limit (text.takeWhile Char.isDigit)).map fun n =>
    (n, (text.dropWhile Char.isDigit).dropWhile isWhiteSpace)

def parse? (text : String) : Option Score := do
  let (home, rest) ← readGoals? (text.toList.dropWhile isWhiteSpace)
  match rest with
  | '-' :: rest =>
    match ← readGoals? (rest.dropWhile isWhiteSpace) with
    | (away, []) => some ⟨home, away⟩
    | _ => none
  | _ => none

theorem verdict_eq_draw_iff (s : Score) : s.verdict = .draw ↔ s.home = s.away := by
  unfold verdict
  split
  case isTrue h => simp [Nat.ne_of_gt h]
  case isFalse h =>
    split
    case isTrue h' => simp [Nat.ne_of_lt h']
    case isFalse h' => simp [Nat.le_antisymm (Nat.not_lt.mp h) (Nat.not_lt.mp h')]

theorem parse?_eq_some_iff_sides (text : String) (s : Score) :
    parse? text = some s ↔ ∃ rest, readGoals? (text.toList.dropWhile isWhiteSpace) = some (s.home, '-' :: rest) ∧
      readGoals? (rest.dropWhile isWhiteSpace) = some (s.away, []) := by
  unfold parse?
  constructor
  · intro h
    obtain ⟨⟨home, rest⟩, hhome, h⟩ := Option.bind_eq_some_iff.mp h
    dsimp only at h
    split at h
    case h_2 => cases h
    case h_1 rest =>
    obtain ⟨⟨away, more⟩, haway, h⟩ := Option.bind_eq_some_iff.mp h
    split at h
    case h_2 => cases h
    case h_1 away he =>
    obtain ⟨rfl, rfl⟩ := Prod.mk.inj he
    obtain rfl := Option.some.inj h
    exact ⟨rest, hhome, haway⟩
  · rintro ⟨rest, hhome, haway⟩
    simp [hhome, haway]

end Score

namespace Fixture

def score? (f : Fixture) : Option Score := f.result.bind Score.parse?

def verdict? (f : Fixture) : Option Verdict := f.score?.map Score.verdict

end Fixture

structure Placed where
  phase : String
  index : Nat
  fixture : Fixture
deriving DecidableEq, Repr

def Tournament.schedule (t : Tournament) : List Placed :=
  t.phases.flatMap fun e => e.2.mapIdx fun index fixture => ⟨e.1, index, fixture⟩

end Knockout
