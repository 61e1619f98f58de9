namespace Knockout

def digitValue (c : Char) : Nat := c.toNat - '0'.toNat

def decimalValue (digits : List Char) : Nat :=
  digits.foldl (fun n c => 10 * n + digitValue c) 0

def readDecimal? (limit : Nat) (digits : List Char) : Option Nat :=
  if digits ≠ [] ∧ digits.all Char.isDigit ∧ decimalValue digits < limit then some (decimalValue digits) else none

theorem readDecimal?_eq_some_iff (limit : Nat) (digits : List Char) (n : Nat) :
    readDecimal? limit digits = some n ↔
      (digits ≠ [] ∧ digits.all Char.isDigit ∧ decimalValue digits < limit) ∧ decimalValue digits = n := by
  simp [readDecimal?]

end Knockout
