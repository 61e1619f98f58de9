import Knockout.Proofs.PieceReading
import Knockout.Score
import Mathlib.Data.Nat.Digits.Defs

namespace Knockout

theorem decimalValue_eq_ofDigits (digits : List Char) :
    decimalValue digits = Nat.ofDigits 10 (digits.map digitValue).reverse := by
  rw [Nat.ofDigits_eq_foldr, List.foldr_reverse, List.foldl_map, decimalValue]
  simp only [Nat.cast_id, Nat.add_comm]

theorem decimalValue_toDigits (n : Nat) : decimalValue (Nat.toDigits 10 n) = n := Nat.ofDigitChars_ten_toDigits

theorem isDigit_of_isWhiteSpace {c : Char} (h : isWhiteSpace c = true) : c.isDigit = false := by
  apply Bool.eq_false_iff.mpr
  intro hd
  rw [isDigit_iff] at hd
  simp only [isWhiteSpace, Bool.or_eq_true, Bool.and_eq_true, decide_eq_true_eq] at h
  omega

theorem not_isWhiteSpace_of_isDigit {c : Char} (h : c.isDigit = true) : isWhiteSpace c = false := by
  apply Bool.eq_false_iff.mpr
  intro hw
  rw [isDigit_of_isWhiteSpace hw] at h
  cases h

theorem stopsBefore_append {class? : Char → Bool} {text after : List Char} (h : ∀ c ∈ text, class? c = false)
    (ha : StopsBefore class? after) : StopsBefore class? (text ++ after) := by
  cases text with
  | nil => exact ha
  | cons c text =>
    intro d hd
    obtain rfl := Option.some.inj hd
    exact h c List.mem_cons_self

namespace Score

structure IsNumeral (n : Nat) (digits : List Char) : Prop where
  ne_nil : digits ≠ []
  isDigit : ∀ c ∈ digits, c.isDigit = true
  value : Nat.ofDigits 10 (digits.map digitValue).reverse = n

def IsSide (n : Nat) (text : List Char) : Prop :=
  ∃ before digits after, text = before ++ digits ++ after ∧ (∀ c ∈ before, isWhiteSpace c = true) ∧
    IsNumeral n digits ∧ (∀ c ∈ after, isWhiteSpace c = true) ∧ n < 2147483648

def Writes (s : Score) (text : List Char) : Prop :=
  ∃ home away, text = home ++ '-' :: away ∧ IsSide s.home home ∧ IsSide s.away away

theorem readDecimal?_eq_some_iff_isNumeral (limit : Nat) (digits : List Char) (n : Nat) :
    readDecimal? limit digits = some n ↔ IsNumeral n digits ∧ n < limit := by
  rw [readDecimal?_eq_some_iff, decimalValue_eq_ofDigits, List.all_eq_true]
  constructor
  · rintro ⟨⟨hne, hdigits, hlt⟩, rfl⟩
    exact ⟨⟨hne, hdigits, rfl⟩, hlt⟩
  · rintro ⟨⟨hne, hdigits, rfl⟩, hlt⟩
    exact ⟨⟨hne, hdigits, hlt⟩, rfl⟩

section Side

variable {text rest : List Char} {n : Nat}

theorem isSide_of_readGoals? (h : readGoals? (text.dropWhile isWhiteSpace) = some (n, rest)) :
    ∃ side, text = side ++ rest ∧ IsSide n side := by
  obtain ⟨m, hm, he⟩ := Option.map_eq_some_iff.mp h
  obtain ⟨rfl, rfl⟩ := Prod.mk.inj he
  obtain ⟨hnumeral, hlt⟩ := (readDecimal?_eq_some_iff_isNumeral limit _ m).mp hm
  have hblank (l : List Char) : ∀ c ∈ l.takeWhile isWhiteSpace, isWhiteSpace c = true :=
    List.all_eq_true.mp List.all_takeWhile
  refine ⟨text.takeWhile isWhiteSpace ++ (text.dropWhile isWhiteSpace).takeWhile Char.isDigit ++
    ((text.dropWhile isWhiteSpace).dropWhile Char.isDigit).takeWhile isWhiteSpace, ?_, ?_⟩
  · rw [List.append_assoc, List.append_assoc, List.takeWhile_append_dropWhile, List.takeWhile_append_dropWhile,
      List.takeWhile_append_dropWhile]
  · exact ⟨_, _, _, rfl, hblank text, hnumeral, hblank _, hlt⟩

theorem readGoals?_of_isSide (h : IsSide n text) (hdigit : StopsBefore Char.isDigit rest)
    (hblank : StopsBefore isWhiteSpace rest) :
    readGoals? ((text ++ rest).dropWhile isWhiteSpace) = some (n, rest) := by
  obtain ⟨before, digits, after, rfl, hbefore, hnumeral, hafter, hlt⟩ := h
  have hstart : StopsBefore isWhiteSpace (digits ++ (after ++ rest)) := by
    obtain ⟨c, digits, rfl⟩ := List.exists_cons_of_ne_nil hnumeral.ne_nil
    intro d hd
    obtain rfl := Option.some.inj hd
    exact not_isWhiteSpace_of_isDigit (hnumeral.isDigit c List.mem_cons_self)
  have hend : StopsBefore Char.isDigit (after ++ rest) :=
    stopsBefore_append (fun c hc => isDigit_of_isWhiteSpace (hafter c hc)) hdigit
  rw [List.append_assoc, List.append_assoc, dropWhile_append_of_stops hbefore hstart, readGoals?,
    takeWhile_append_of_stops hnumeral.isDigit hend, dropWhile_append_of_stops hnumeral.isDigit hend,
    dropWhile_append_of_stops hafter hblank, (readDecimal?_eq_some_iff_isNumeral limit digits n).mpr ⟨hnumeral, hlt⟩]
  rfl

end Side

theorem parse?_eq_some_iff (text : String) (s : Score) : parse? text = some s ↔ s.Writes text.toList := by
  rw [parse?_eq_some_iff_sides]
  constructor
  · rintro ⟨rest, hhome, haway⟩
    obtain ⟨home, htext, hh⟩ := isSide_of_readGoals? hhome
    obtain ⟨away, hrest, ha⟩ := isSide_of_readGoals? haway
    rw [List.append_nil] at hrest
    rw [hrest] at htext
    exact ⟨home, away, htext, hh, ha⟩
  · rintro ⟨home, away, htext, hh, ha⟩
    refine ⟨away, ?_, ?_⟩
    · rw [htext]
      apply readGoals?_of_isSide hh
      · rintro c ⟨⟩
        decide
      · rintro c ⟨⟩
        decide
    · rw [← List.append_nil away]
      apply readGoals?_of_isSide ha
      · rintro c ⟨⟩
      · rintro c ⟨⟩

theorem lt_of_writes {s : Score} {text : List Char} (h : s.Writes text) :
    s.home < 2147483648 ∧ s.away < 2147483648 := by
  obtain ⟨home, away, -, ⟨_, _, _, _, _, _, _, hh⟩, _, _, _, _, _, _, _, ha⟩ := h
  exact ⟨hh, ha⟩

theorem isSide_toDigits {n : Nat} (h : n < 2147483648) : IsSide n (Nat.toDigits 10 n) := by
  refine ⟨[], Nat.toDigits 10 n, [], by simp, by simp, ⟨Nat.toDigits_ne_nil, ?_, ?_⟩, by simp, h⟩
  · intro c hc
    exact Nat.isDigit_of_mem_toDigits (by decide) (by decide) hc
  · rw [← decimalValue_eq_ofDigits, decimalValue_toDigits]

theorem writes_rendered {home away : Nat} (hh : home < 2147483648) (ha : away < 2147483648) :
    Writes ⟨home, away⟩ s!"{home}-{away}".toList := by
  refine ⟨Nat.toDigits 10 home, Nat.toDigits 10 away, ?_, isSide_toDigits hh, isSide_toDigits ha⟩
  simp [toString]

theorem parse_iff_writes (text : String) :
    (∀ s, parse? text = some s ↔ s.Writes text.toList) ∧
    (parse? text = none ↔ ∀ s : Score, ¬ s.Writes text.toList) ∧
    (∀ s ∈ parse? text, s.home < 2147483648 ∧ s.away < 2147483648) ∧
    ∀ home away : Nat, parse? s!"{home}-{away}" = some ⟨home, away⟩ ↔ home < 2147483648 ∧ away < 2147483648 := by
  refine ⟨parse?_eq_some_iff text, ?_, ?_, ?_⟩
  · simp only [← parse?_eq_some_iff]
    exact Option.eq_none_iff_forall_ne_some
  · intro s hs
    exact lt_of_writes ((parse?_eq_some_iff text s).mp hs)
  · intro home away
    constructor
    · intro h
      exact lt_of_writes ((parse?_eq_some_iff _ _).mp h)
    · rintro ⟨hh, ha⟩
      exact (parse?_eq_some_iff _ _).mpr (writes_rendered hh ha)

example : parse? "\t007 -\u00a02 " = some ⟨7, 2⟩ := by decide

example : parse? "0-2147483648" = none := by decide

end Score

end Knockout
