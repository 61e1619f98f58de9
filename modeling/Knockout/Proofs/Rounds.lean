import Knockout.Document
import Mathlib.Data.List.Infix

namespace Knockout.Reader

variable {α : Type}

inductive Round where
  | again (cursor : List Token)
  | ended (cursor : List Token)
deriving DecidableEq

def round (turn : Token → List Token → Turn α) : List Token → Round
  | [] => .ended []
  | t :: rest =>
    match turn t rest with
    | .finish => .ended rest
    | .leave _ => .ended (t :: rest)
    | .pass => .again rest
    | .enter item => .again (item.run rest).rest
    | .drop _ => .again rest

/-- A run of a list, round by round, with the cursor after each round but the last; it need not exist beforehand. -/
inductive Rounds (turn : Token → List Token → Turn α) : List Token → List (List Token) → List Token → Prop
  | ended {tokens final : List Token} : round turn tokens = .ended final → Rounds turn tokens [] final
  | again {tokens cursor final : List Token} {cursors : List (List Token)} :
    round turn tokens = .again cursor → Rounds turn cursor cursors final → Rounds turn tokens (cursor :: cursors) final

def Advances (before after : List Token) : Prop := after <:+ before ∧ after.length < before.length

theorem Advances.trans {a b c : List Token} (h : Advances a b) (h' : Advances b c) : Advances a c :=
  ⟨h'.1.trans h.1, h'.2.trans h.2⟩

theorem rest_suffix (r : Reader α) (tokens : List Token) : (r.run tokens).rest <:+ tokens :=
  ⟨_, r.accounts tokens⟩

section

variable {turn : Token → List Token → Turn α} {tokens cursor final : List Token} {cursors : List (List Token)}

theorem advances_of_round (h : round turn tokens = .again cursor) : Advances tokens cursor := by
  cases tokens with
  | nil => cases h
  | cons t rest =>
    have hs : rest <:+ t :: rest := List.suffix_cons t rest
    simp only [round] at h
    split at h
    case h_1 => cases h
    case h_2 => cases h
    case h_3 =>
      obtain rfl := Round.again.inj h
      exact ⟨hs, Nat.lt_succ_self _⟩
    case h_4 item _ =>
      obtain rfl := Round.again.inj h
      exact ⟨(item.rest_suffix rest).trans hs, Nat.lt_succ_of_le (item.rest_length rest)⟩
    case h_5 =>
      obtain rfl := Round.again.inj h
      exact ⟨hs, Nat.lt_succ_self _⟩

theorem suffix_of_round (h : round turn tokens = .ended final) : final <:+ tokens := by
  cases tokens with
  | nil =>
    obtain rfl := Round.ended.inj h
    exact List.suffix_refl []
  | cons t rest =>
    simp only [round] at h
    split at h
    case h_1 =>
      obtain rfl := Round.ended.inj h
      exact List.suffix_cons t rest
    case h_2 =>
      obtain rfl := Round.ended.inj h
      exact List.suffix_refl _
    case h_3 => cases h
    case h_4 => cases h
    case h_5 => cases h

namespace Rounds

theorem advances (h : Rounds turn tokens cursors final) : (tokens :: cursors).Pairwise Advances := by
  induction h with
  | ended => exact List.pairwise_singleton _ _
  | again hr _ ih =>
    refine List.pairwise_cons.mpr ⟨fun c hc => ?_, ih⟩
    have ha := advances_of_round hr
    rcases List.mem_cons.mp hc with rfl | hc
    · exact ha
    · exact ha.trans ((List.pairwise_cons.mp ih).1 c hc)

theorem suffix (h : Rounds turn tokens cursors final) : final <:+ tokens := by
  induction h with
  | ended hr => exact suffix_of_round hr
  | again hr _ ih => exact ih.trans (advances_of_round hr).1

theorem length_le (h : Rounds turn tokens cursors final) : cursors.length ≤ tokens.length := by
  induction h with
  | ended => exact Nat.zero_le _
  | again hr _ ih =>
    have := (advances_of_round hr).2
    simp only [List.length_cons]
    omega

theorem unique {cursors' : List (List Token)} {final' : List Token} (h : Rounds turn tokens cursors final)
    (h' : Rounds turn tokens cursors' final') : cursors = cursors' ∧ final = final' := by
  induction h generalizing cursors' with
  | ended hr =>
    cases h' with
    | ended hr' => exact ⟨rfl, Round.ended.inj (hr.symm.trans hr')⟩
    | again hr' _ => cases hr.symm.trans hr'
  | again hr _ ih =>
    cases h' with
    | ended hr' => cases hr.symm.trans hr'
    | again hr' h' =>
      obtain rfl := Round.again.inj (hr.symm.trans hr')
      obtain ⟨rfl, rfl⟩ := ih h'
      exact ⟨rfl, rfl⟩

end Rounds

theorem items_rounds (turn : Token → List Token → Turn α) (unfinished : Option Cause) (tokens : List Token) :
    ∃ cursors, Rounds turn tokens cursors ((items turn unfinished).run tokens).rest := by
  change ∃ cursors, Rounds turn tokens cursors (itemsFrom turn unfinished tokens).rest
  fun_induction itemsFrom turn unfinished tokens with
  | case1 => exact ⟨[], .ended rfl⟩
  | case2 t rest ht => exact ⟨[], .ended (by simp only [round, ht])⟩
  | case3 t rest cause ht => exact ⟨[], .ended (by simp only [round, ht])⟩
  | case4 t rest ht more ih =>
    obtain ⟨cursors, h⟩ := ih
    exact ⟨rest :: cursors, .again (by simp only [round, ht]) h⟩
  | case5 t rest item ht first more ih =>
    obtain ⟨cursors, h⟩ := ih
    exact ⟨first.rest :: cursors, .again (by simp only [round, ht, first]) h⟩
  | case6 t rest context ht more ih =>
    obtain ⟨cursors, h⟩ := ih
    exact ⟨rest :: cursors, .again (by simp only [round, ht]) h⟩

structure Ends (turn : Token → List Token → Turn α) (tokens final : List Token) : Prop where
  rounds : ∃ cursors, Rounds turn tokens cursors final ∧ (tokens :: cursors).Pairwise Advances ∧
    cursors.length ≤ tokens.length
  suffix : final <:+ tokens
  only {cursors : List (List Token)} {other : List Token} : Rounds turn tokens cursors other → other = final

theorem items_ends (turn : Token → List Token → Turn α) (unfinished : Option Cause) (tokens : List Token) :
    Ends turn tokens ((items turn unfinished).run tokens).rest := by
  obtain ⟨cursors, h⟩ := items_rounds turn unfinished tokens
  exact ⟨⟨cursors, h, h.advances, h.length_le⟩, h.suffix, fun h' => (h'.unique h).2⟩

end

end Knockout.Reader
