import Knockout.Document

namespace Knockout

namespace Fence

variable (fence : Fence)

theorem closer_ne_comma : fence.closer ≠ .comma := by cases fence <;> decide

theorem closer_ne_reserved : fence.closer ≠ .reserved := by cases fence <;> decide

theorem closer_ne_openBracket : fence.closer ≠ .openBracket := by cases fence <;> decide

end Fence

namespace Token

variable {t : Token} {word other : String}

theorem kind_of_isReserved (h : t.isReserved word = true) : t.kind = .reserved := by
  simp only [isReserved, Bool.and_eq_true, decide_eq_true_eq] at h
  exact h.1

theorem lexeme_of_isReserved (h : t.isReserved word = true) : t.lexeme = word := by
  simp only [isReserved, Bool.and_eq_true, decide_eq_true_eq] at h
  exact h.2

theorem isKey_of_isReserved (h : t.isReserved word = true) : t.isKey = true := by
  simp [isKey, kind_of_isReserved h]

theorem isName_eq_false (h : t.kind = .reserved) : t.isName = false := by
  simp [isName, h]

theorem isReserved_unique (h : t.isReserved word = true) (h' : t.isReserved other = true) : word = other :=
  (lexeme_of_isReserved h).symm.trans (lexeme_of_isReserved h')

theorem isReserved_eq_false (h : t.isReserved word = true) (hne : word ≠ other) : t.isReserved other = false := by
  simp [isReserved, lexeme_of_isReserved h, hne]

theorem isBlockKeyword_eq_false (h : t.isReserved word = true)
    (hne : word ≠ "torneo" ∧ word ≠ "equipos" ∧ word ≠ "eliminacion") : t.isBlockKeyword = false := by
  simp only [isBlockKeyword, isReserved_eq_false h hne.1, isReserved_eq_false h hne.2.1,
    isReserved_eq_false h hne.2.2, Bool.or_false]

theorem isBlockKeyword_iff : t.isBlockKeyword = true ↔
    t.isReserved "torneo" = true ∨ t.isReserved "equipos" = true ∨ t.isReserved "eliminacion" = true := by
  simp only [isBlockKeyword, Bool.or_eq_true, or_assoc]

theorem kind_of_isBlockKeyword (h : t.isBlockKeyword = true) : t.kind = .reserved := by
  rcases isBlockKeyword_iff.mp h with h | h | h
  · exact kind_of_isReserved h
  · exact kind_of_isReserved h
  · exact kind_of_isReserved h

theorem isReserved_eq_false_of_isBlockKeyword (h : t.isBlockKeyword = true)
    (hne : "torneo" ≠ word ∧ "equipos" ≠ word ∧ "eliminacion" ≠ word) : t.isReserved word = false := by
  rcases isBlockKeyword_iff.mp h with h | h | h
  · exact isReserved_eq_false h hne.1
  · exact isReserved_eq_false h hne.2.1
  · exact isReserved_eq_false h hne.2.2

end Token

namespace Document

open Reader

variable {α : Type} {t : Token} {rest : List Token}

theorem isBlockKeyword_of_startsBlock (h : startsBlock t rest = true) : t.isBlockKeyword = true := by
  simp only [startsBlock, Bool.and_eq_true] at h
  exact h.1

theorem kind_of_startsBlock (h : startsBlock t rest = true) : t.kind = .reserved :=
  Token.kind_of_isBlockKeyword (isBlockKeyword_of_startsBlock h)

theorem startsBlock_eq_false (h : t.isBlockKeyword = false) (rest : List Token) : startsBlock t rest = false := by
  rw [startsBlock, h, Bool.false_and]

theorem isPhaseKeyword_eq_false (h : t.isBlockKeyword = true) : isPhaseKeyword t = false := by
  unfold isPhaseKeyword
  rcases Token.isBlockKeyword_iff.mp h with h | h | h
  · rw [Token.lexeme_of_isReserved h, show Phase.ofName? "torneo" = none by decide]
    simp
  · rw [Token.lexeme_of_isReserved h, show Phase.ofName? "equipos" = none by decide]
    simp
  · rw [Token.lexeme_of_isReserved h, show Phase.ofName? "eliminacion" = none by decide]
    simp

section ListTurn

variable {fence : Fence} {context : Context} {item : Token → Option (Reader α)}

inductive ListTurn (fence : Fence) (context : Context) (item : Token → Option (Reader α)) (t : Token)
    (rest : List Token) : Turn α → Prop
  | finish : t.kind = fence.closer → ListTurn fence context item t rest .finish
  | pass : t.kind = .comma → ListTurn fence context item t rest .pass
  | leave : startsBlock t rest = true → ListTurn fence context item t rest (.leave (some (.unclosedList fence context)))
  | enter {reader : Reader α} : item t = some reader → ListTurn fence context item t rest (.enter reader)
  | drop : item t = none → ListTurn fence context item t rest (.drop context)

theorem listTurn_view (fence : Fence) (context : Context) (item : Token → Option (Reader α)) (t : Token)
    (rest : List Token) : ListTurn fence context item t rest (listTurn fence context item t rest) := by
  unfold listTurn
  split
  case isTrue h => exact .finish h
  case isFalse =>
  split
  case isTrue h => exact .pass h
  case isFalse =>
  split
  case isTrue h => exact .leave h
  case isFalse =>
  split
  case h_1 h => exact .enter h
  case h_2 h => exact .drop h

theorem listTurn_eq_finish_iff : listTurn fence context item t rest = .finish ↔ t.kind = fence.closer := by
  constructor
  · intro h
    have hv := listTurn_view fence context item t rest
    rw [h] at hv
    cases hv with
    | finish hk => exact hk
  · exact fun h => if_pos h

theorem listTurn_eq_pass_iff : listTurn fence context item t rest = .pass ↔ t.kind = .comma := by
  constructor
  · intro h
    have hv := listTurn_view fence context item t rest
    rw [h] at hv
    cases hv with
    | pass hk => exact hk
  · intro h
    simp [listTurn, h, fence.closer_ne_comma.symm]

theorem listTurn_eq_leave_iff {cause : Option Cause} : listTurn fence context item t rest = .leave cause ↔
    cause = some (.unclosedList fence context) ∧ startsBlock t rest = true := by
  constructor
  · intro h
    have hv := listTurn_view fence context item t rest
    rw [h] at hv
    cases hv with
    | leave hs => exact ⟨rfl, hs⟩
  · rintro ⟨rfl, hs⟩
    simp [listTurn, kind_of_startsBlock hs, fence.closer_ne_reserved.symm, hs]

theorem item_of_listTurn_eq_enter {reader : Reader α} (h : listTurn fence context item t rest = .enter reader) :
    item t = some reader := by
  have hv := listTurn_view fence context item t rest
  rw [h] at hv
  cases hv with
  | enter hi => exact hi

theorem listTurn_of_item {reader : Reader α} (h : item t = some reader)
    (hk : t.kind ≠ fence.closer ∧ t.kind ≠ .comma) (hs : startsBlock t rest = false) :
    listTurn fence context item t rest = .enter reader := by
  simp [listTurn, hk, hs, h]

end ListTurn

section PhaseTurn

variable {keyword : Token} {fence : Option Fence}

inductive PhaseTurn (keyword : Token) (fence : Option Fence) (t : Token) (rest : List Token) :
    Turn (Option Fixture) → Prop
  | finish {f : Fence} : fence = some f → t.kind = f.closer → PhaseTurn keyword fence t rest .finish
  | pass : t.kind = .comma → PhaseTurn keyword fence t rest .pass
  | enter : t.isReserved "partido" = true → PhaseTurn keyword fence t rest (.enter (fixture t))
  | stop : fence = none → PhaseTurn keyword fence t rest (.leave none)
  | leave {f : Fence} : fence = some f → (t.kind = .closeBrace || isPhaseKeyword t || startsBlock t rest) = true →
    PhaseTurn keyword fence t rest (.leave (some (.unclosedPhase f keyword.lexeme)))
  | drop {f : Fence} : fence = some f → PhaseTurn keyword fence t rest (.drop .phase)

theorem phaseTurn_view (keyword : Token) (fence : Option Fence) (t : Token) (rest : List Token) :
    PhaseTurn keyword fence t rest (phaseTurn keyword fence t rest) := by
  unfold phaseTurn
  split
  case isTrue h =>
    cases fence with
    | none => cases h
    | some f => exact .finish rfl (by simpa using h)
  case isFalse =>
  split
  case isTrue h => exact .pass h
  case isFalse =>
  split
  case isTrue h => exact .enter h
  case isFalse =>
  split
  case h_1 => exact .stop rfl
  case h_2 =>
  split
  case isTrue h => exact .leave rfl h
  case isFalse => exact .drop rfl

theorem phaseTurn_eq_finish_iff {f : Fence} : phaseTurn keyword (some f) t rest = .finish ↔ t.kind = f.closer := by
  constructor
  · intro h
    have hv := phaseTurn_view keyword (some f) t rest
    rw [h] at hv
    cases hv with
    | finish he hk => rwa [Option.some.inj he]
  · intro h
    simp [phaseTurn, h]

theorem phaseTurn_eq_pass_iff : phaseTurn keyword fence t rest = .pass ↔ t.kind = .comma := by
  constructor
  · intro h
    have hv := phaseTurn_view keyword fence t rest
    rw [h] at hv
    cases hv with
    | pass hk => exact hk
  · intro h
    cases fence with
    | none => simp [phaseTurn, h]
    | some f => simp [phaseTurn, h, f.closer_ne_comma.symm]

theorem phaseTurn_eq_enter_iff {reader : Reader (Option Fixture)} :
    phaseTurn keyword fence t rest = .enter reader ↔ t.isReserved "partido" = true ∧ reader = fixture t := by
  constructor
  · intro h
    have hv := phaseTurn_view keyword fence t rest
    rw [h] at hv
    cases hv with
    | enter hp => exact ⟨hp, rfl⟩
  · rintro ⟨hp, rfl⟩
    have hk := Token.kind_of_isReserved hp
    cases fence with
    | none => simp [phaseTurn, hk, hp]
    | some f => simp [phaseTurn, hk, hp, f.closer_ne_reserved.symm]

theorem cause_of_phaseTurn {cause : Option Cause} (h : phaseTurn keyword fence t rest = .leave cause) :
    cause = fence.map (.unclosedPhase · keyword.lexeme) := by
  have hv := phaseTurn_view keyword fence t rest
  rw [h] at hv
  cases hv with
  | stop he => rw [he]; rfl
  | leave he _ => rw [he]; rfl

theorem phaseTurn_of_startsBlock (keyword : Token) (fence : Option Fence) (h : startsBlock t rest = true) :
    phaseTurn keyword fence t rest = .leave (fence.map (.unclosedPhase · keyword.lexeme)) := by
  have hk := kind_of_startsBlock h
  have hp := Token.isReserved_eq_false_of_isBlockKeyword (isBlockKeyword_of_startsBlock h)
    (show "torneo" ≠ "partido" ∧ "equipos" ≠ "partido" ∧ "eliminacion" ≠ "partido" by decide)
  cases fence with
  | none => simp [phaseTurn, hk, hp]
  | some f => simp [phaseTurn, hk, hp, h, f.closer_ne_reserved.symm]

end PhaseTurn

theorem block?_eq_some_iff {block : Reader Unit} : block? t = some block ↔
    t.isReserved "torneo" = true ∧ block = infoBlock t ∨ t.isReserved "equipos" = true ∧ block = teamsBlock t ∨
      t.isReserved "eliminacion" = true ∧ block = bracketBlock t := by
  unfold block?
  constructor
  · intro h
    split at h
    case isTrue ht => exact .inl ⟨ht, (Option.some.inj h).symm⟩
    case isFalse =>
    split at h
    case isTrue ht => exact .inr (.inl ⟨ht, (Option.some.inj h).symm⟩)
    case isFalse =>
    split at h
    case isTrue ht => exact .inr (.inr ⟨ht, (Option.some.inj h).symm⟩)
    case isFalse => cases h
  · rintro (⟨h, rfl⟩ | ⟨h, rfl⟩ | ⟨h, rfl⟩)
    · exact if_pos h
    · rw [Token.isReserved_eq_false h (by decide)]
      exact if_pos h
    · rw [Token.isReserved_eq_false h (by decide), Token.isReserved_eq_false h (by decide)]
      exact if_pos h

theorem exists_block (h : startsBlock t rest = true) : ∃ block, block? t = some block := by
  rcases Token.isBlockKeyword_iff.mp (isBlockKeyword_of_startsBlock h) with h | h | h
  · exact ⟨_, block?_eq_some_iff.mpr (.inl ⟨h, rfl⟩)⟩
  · exact ⟨_, block?_eq_some_iff.mpr (.inr (.inl ⟨h, rfl⟩))⟩
  · exact ⟨_, block?_eq_some_iff.mpr (.inr (.inr ⟨h, rfl⟩))⟩

def phaseItem (t : Token) : Option (Reader Unit) :=
  if isPhaseKeyword t then some (phase t) else none

abbrev phaseList : Reader (List Unit) := list .brace .bracket phaseItem

theorem item_of_isPhaseKeyword {t : Token} {reader : Reader Unit} (h : phaseItem t = some reader) :
    isPhaseKeyword t = true ∧ reader = phase t := by
  unfold phaseItem at h
  split at h
  case isTrue ht => exact ⟨ht, (Option.some.inj h).symm⟩
  case isFalse => cases h

inductive DocumentTurn (t : Token) : Turn Unit → Prop
  | enter {reader : Reader Unit} : block? t = some reader → DocumentTurn t (.enter reader)
  | drop : block? t = none → DocumentTurn t (.drop .document)

theorem documentTurn_view (t : Token) (rest : List Token) : DocumentTurn t (documentTurn t rest) := by
  unfold documentTurn
  split
  case h_1 h => exact .enter h
  case h_2 h => exact .drop h

theorem documentTurn_eq_enter_iff {t : Token} {rest : List Token} {reader : Reader Unit} :
    documentTurn t rest = .enter reader ↔ block? t = some reader := by
  constructor
  · intro h
    have hv := documentTurn_view t rest
    rw [h] at hv
    cases hv with
    | enter hb => exact hb
  · intro h
    rw [documentTurn, h]

end Document

end Knockout
