import Knockout.Scan

namespace Knockout

def StopsBefore (class? : Char → Bool) (after : List Char) : Prop :=
  ∀ c ∈ after.head?, class? c = false

def IsWord (text after : List Char) : Prop :=
  ∃ c rest, text = c :: rest ∧ isLetter c = true ∧ (∀ d ∈ rest, isWordPart d = true) ∧ StopsBefore isWordPart after

def IsNumber (text after : List Char) : Prop :=
  text ≠ [] ∧ (∀ c ∈ text, c.isDigit = true) ∧ StopsBefore Char.isDigit after

def IsStringBody (body : List Char) : Prop := ∀ c ∈ body, c ≠ '"' ∧ c ≠ '\n'

def TokenKind.Spells (lexeme : String) (text after : List Char) : TokenKind → Prop
  | identifier => IsWord text after ∧ lexeme = String.ofList text ∧ lowered lexeme ∉ reservedWords
  | reserved => IsWord text after ∧ lexeme = lowered (String.ofList text) ∧ lexeme ∈ reservedWords ∧ lexeme ≠ "vs"
  | versus => IsWord text after ∧ lexeme = String.ofList text ∧ lowered lexeme = "vs"
  | number => IsNumber text after ∧ lexeme = String.ofList text
  | string => ∃ body, text = '"' :: (body ++ ['"']) ∧ IsStringBody body ∧ lexeme = String.ofList body
  | kind => ∃ c, text = [c] ∧ kind.symbol? = some c ∧ lexeme = c.toString

theorem TokenKind.Spells.before {kind : TokenKind} {lexeme : String} {text after after' : List Char}
    (h : kind.Spells lexeme text after) (hword : StopsBefore isWordPart after → StopsBefore isWordPart after')
    (hdigit : StopsBefore Char.isDigit after → StopsBefore Char.isDigit after') : kind.Spells lexeme text after' := by
  have hw (h : IsWord text after) : IsWord text after' := by
    obtain ⟨c, rest, rfl, hc, hrest, hs⟩ := h
    exact ⟨c, rest, rfl, hc, hrest, hword hs⟩
  cases kind with
  | identifier => exact ⟨hw h.1, h.2⟩
  | reserved => exact ⟨hw h.1, h.2⟩
  | versus => exact ⟨hw h.1, h.2⟩
  | number =>
    obtain ⟨⟨hne, hdigits, hs⟩, hl⟩ := h
    exact ⟨⟨hne, hdigits, hdigit hs⟩, hl⟩
  | _ => exact h

def Cause.Marks (report : String) (text after : List Char) : Cause → Prop
  | unterminatedString =>
    ∃ body, text = '"' :: body ∧ IsStringBody body ∧ (after = [] ∨ after.head? = some '\n') ∧
      report = String.ofList body
  | unclosedComment =>
    ∃ body, text = '/' :: '*' :: body ∧ ¬ ['*', '/'] <:+: body ∧ after = [] ∧ report = "/*"
  | invalidCharacter c =>
    text = [c] ∧ isBlank c = false ∧ isLetter c = false ∧ c.isDigit = false ∧ c ≠ '"' ∧
      TokenKind.ofSymbol? c = none ∧ (c = '/' → after.head? ≠ some '/' ∧ after.head? ≠ some '*') ∧ report = c.toString
  | _ => False

inductive IsGap (after : List Char) : List Char → Prop
  | blank {c : Char} : isBlank c = true → IsGap after [c]
  | line {body : List Char} : '\n' ∉ body → (after = [] ∨ after.head? = some '\n') → IsGap after ('/' :: '/' :: body)
  | block {body : List Char} : ¬ ['*', '/'] <:+: body ++ ['*'] → IsGap after ('/' :: '*' :: (body ++ ['*', '/']))

inductive Piece.Fits (after : List Char) : Piece → Prop
  | gap {text : List Char} : IsGap after text → Piece.Fits after ⟨text, .gap⟩
  | token {text : List Char} {kind : TokenKind} {lexeme : String} :
    kind.Spells lexeme text after → Piece.Fits after ⟨text, .token kind lexeme⟩
  | fault {text : List Char} {cause : Cause} {report : String} :
    cause.Marks report text after → Piece.Fits after ⟨text, .fault cause report⟩

namespace Piece.Fits

variable {piece : Piece} {after : List Char}

theorem isGap (h : piece.Fits after) (hs : piece.shape = .gap) : IsGap after piece.text := by
  cases h with
  | gap h => exact h
  | token => cases hs
  | fault => cases hs

theorem spells {kind : TokenKind} {lexeme : String} (h : piece.Fits after) (hs : piece.shape = .token kind lexeme) :
    kind.Spells lexeme piece.text after := by
  cases h with
  | gap => cases hs
  | token h =>
    obtain ⟨rfl, rfl⟩ := Shape.token.inj hs
    exact h
  | fault => cases hs

theorem marks {cause : Cause} {report : String} (h : piece.Fits after) (hs : piece.shape = .fault cause report) :
    cause.Marks report piece.text after := by
  cases h with
  | gap => cases hs
  | token => cases hs
  | fault h =>
    obtain ⟨rfl, rfl⟩ := Shape.fault.inj hs
    exact h

end Piece.Fits

theorem stopsBefore_dropWhile (class? : Char → Bool) (text : List Char) :
    StopsBefore class? (text.dropWhile class?) := by
  intro c hc
  have h := List.head?_dropWhile_not class? text
  rw [Option.mem_def.mp hc] at h
  exact h

theorem closer_infix_cons (c : Char) (cs : List Char) :
    ['*', '/'] <:+: c :: cs ↔ (c = '*' ∧ cs.head? = some '/') ∨ ['*', '/'] <:+: cs := by
  rw [List.infix_cons_iff, List.cons_prefix_cons, @eq_comm _ '*' c]
  cases cs with
  | nil => simp
  | cons d cs => simp [List.cons_prefix_cons, @eq_comm _ '/' d]

theorem commentBody_eq_some {cs body after : List Char} (h : commentBody cs = some (body, after)) :
    ∃ inner, body = inner ++ ['*', '/'] ∧ ¬ ['*', '/'] <:+: inner ++ ['*'] := by
  induction cs generalizing body with
  | nil => simp [commentBody] at h
  | cons c cs ih =>
    simp only [commentBody] at h
    split at h
    case isTrue hc =>
      obtain ⟨rfl, rfl⟩ := Prod.mk.inj (Option.some.inj h)
      refine ⟨[], rfl, fun hi => ?_⟩
      have := hi.length_le
      simp at this
    case isFalse hc =>
      obtain ⟨⟨b, a⟩, hb, he⟩ := Option.map_eq_some_iff.mp h
      obtain ⟨rfl, rfl⟩ := Prod.mk.inj he
      obtain ⟨inner, rfl, hi⟩ := ih hb
      refine ⟨c :: inner, rfl, ?_⟩
      rw [List.cons_append, closer_infix_cons]
      rintro (⟨rfl, hd⟩ | hi')
      · apply hc
        rw [← commentBody_text hb]
        refine ⟨rfl, ?_⟩
        cases inner with
        | nil => simp at hd
        | cons d inner => simpa using hd
      · exact hi hi'

theorem commentBody_eq_none {cs : List Char} (h : commentBody cs = none) : ¬ ['*', '/'] <:+: cs := by
  induction cs with
  | nil =>
    intro hi
    simpa using hi.length_le
  | cons c cs ih =>
    simp only [commentBody] at h
    split at h
    case isTrue => cases h
    case isFalse hc =>
      rw [closer_infix_cons]
      rintro (hd | hi)
      · exact hc hd
      · exact ih (Option.map_eq_none_iff.mp h) hi

theorem isWord_takeWhile {c : Char} {rest : List Char} (hc : isLetter c = true) :
    IsWord (c :: rest.takeWhile isWordPart) (rest.dropWhile isWordPart) :=
  ⟨c, _, rfl, hc, List.all_eq_true.mp List.all_takeWhile, stopsBefore_dropWhile isWordPart rest⟩

theorem ofWord_fits {text after : List Char} (h : IsWord text after) :
    Piece.Fits after ⟨text, .ofWord (String.ofList text)⟩ := by
  unfold Shape.ofWord
  split
  case isTrue hv => exact .token ⟨h, rfl, hv⟩
  case isFalse hv =>
    split
    case isTrue hr => exact .token ⟨h, rfl, List.contains_iff_mem.mp hr, hv⟩
    case isFalse hr => exact .token ⟨h, rfl, fun hm => hr (List.contains_iff_mem.mpr hm)⟩

theorem symbol_fits {c : Char} {kind : TokenKind} (after : List Char) (h : TokenKind.ofSymbol? c = some kind) :
    Piece.Fits after ⟨[c], .token kind c.toString⟩ := by
  have hs := (TokenKind.ofSymbol?_eq_some_iff c kind).mp h
  refine .token ?_
  cases kind <;> cases hs <;> exact ⟨_, rfl, rfl, rfl⟩

theorem number_fits {c : Char} (rest : List Char) (hc : c.isDigit = true) :
    Piece.Fits (rest.dropWhile Char.isDigit)
      ⟨c :: rest.takeWhile Char.isDigit, .token .number (String.ofList (c :: rest.takeWhile Char.isDigit))⟩ := by
  refine .token ⟨⟨by simp, ?_, stopsBefore_dropWhile Char.isDigit rest⟩, rfl⟩
  intro d hd
  rcases List.mem_cons.mp hd with rfl | hd
  · exact hc
  · exact List.all_eq_true.mp List.all_takeWhile d hd

theorem isStringBody_takeWhile (rest : List Char) :
    IsStringBody (rest.takeWhile fun d => d ≠ '"' ∧ d ≠ '\n') := by
  intro c hc
  simpa using List.all_eq_true.mp List.all_takeWhile c hc

theorem head?_dropWhile_stringBody {rest after : List Char}
    (h : rest.dropWhile (fun d => d ≠ '"' ∧ d ≠ '\n') = after) (hq : ∀ tail, after ≠ '"' :: tail) :
    after = [] ∨ after.head? = some '\n' := by
  cases after with
  | nil => exact .inl rfl
  | cons c tail =>
    have hs := stopsBefore_dropWhile (fun d => d ≠ '"' ∧ d ≠ '\n') rest c (by rw [h]; rfl)
    have hc : c ≠ '"' := fun hc => hq tail (by rw [hc])
    exact .inr (by simpa [hc] using hs)

theorem lineComment_fits {rest : List Char} (hd : rest.head? = some '/') :
    Piece.Fits (rest.dropWhile (· ≠ '\n')) ⟨'/' :: rest.takeWhile (· ≠ '\n'), .gap⟩ := by
  obtain ⟨tail, rfl⟩ : ∃ tail, rest = '/' :: tail := by
    cases rest with
    | nil => cases hd
    | cons d tail => exact ⟨tail, by rw [Option.some.inj hd]⟩
  have hs : '/' ≠ '\n' := by decide
  simp only [List.takeWhile_cons, List.dropWhile_cons, hs, ne_eq, not_false_eq_true, decide_true, ↓reduceIte]
  refine .gap (.line (fun hm => ?_) ?_)
  · simpa using List.all_eq_true.mp List.all_takeWhile _ hm
  · have := stopsBefore_dropWhile (· ≠ '\n') tail
    cases ht : tail.dropWhile (· ≠ '\n') with
    | nil => simp
    | cons d more =>
      rw [ht] at this
      have hd := this d rfl
      right
      simpa [ht] using hd

theorem blockComment_fits {rest body after : List Char} (h : commentBody rest = some (body, after)) :
    Piece.Fits after ⟨'/' :: '*' :: body, .gap⟩ := by
  obtain ⟨inner, rfl, hi⟩ := commentBody_eq_some h
  exact .gap (.block hi)

theorem Piece.next_fits (c : Char) (rest : List Char) : (Piece.next c rest).1.Fits (Piece.next c rest).2 := by
  unfold Piece.next
  split
  case isTrue hb => exact .gap (.blank hb)
  case isFalse hb =>
  split
  case isTrue hc =>
    obtain ⟨rfl, hd⟩ := hc
    exact lineComment_fits hd
  case isFalse hl =>
  split
  case isTrue hc =>
    obtain ⟨rfl, hd⟩ := hc
    cases rest with
    | nil => cases hd
    | cons d tail =>
      obtain rfl := Option.some.inj hd
      rw [List.tail_cons]
      split
      case h_1 body after ht => exact blockComment_fits ht
      case h_2 ht => exact .fault ⟨tail, rfl, commentBody_eq_none ht, rfl, rfl⟩
  case isFalse hs =>
  split
  case isTrue hq =>
    subst hq
    dsimp only
    split
    case h_1 => exact .token ⟨_, rfl, isStringBody_takeWhile rest, rfl⟩
    case h_2 hq => exact .fault ⟨_, rfl, isStringBody_takeWhile rest, head?_dropWhile_stringBody rfl hq, rfl⟩
  case isFalse hq =>
  split
  case isTrue hd => exact number_fits rest hd
  case isFalse hd =>
  split
  case isTrue hw => exact ofWord_fits (isWord_takeWhile hw)
  case isFalse hw =>
  split
  case h_1 kind hk => exact symbol_fits rest hk
  case h_2 hk =>
    refine .fault ⟨rfl, by simpa using hb, by simpa using hw, by simpa using hd, hq, hk, fun hc => ?_, rfl⟩
    exact ⟨fun hh => hl ⟨hc, hh⟩, fun hh => hs ⟨hc, hh⟩⟩

def textOf (pieces : List Piece) : List Char := pieces.flatMap Piece.text

@[simp]
theorem textOf_nil : textOf [] = [] := rfl

@[simp]
theorem textOf_cons (piece : Piece) (rest : List Piece) : textOf (piece :: rest) = piece.text ++ textOf rest := rfl

@[simp]
theorem textOf_append (a b : List Piece) : textOf (a ++ b) = textOf a ++ textOf b := List.flatMap_append

@[simp]
theorem textOf_pieces (text : List Char) : textOf (pieces text) = text := by
  fun_induction pieces text with
  | case1 => rfl
  | case2 c rest ih => rw [textOf_cons, ih, Piece.next_text]

theorem pieces_text_ne_nil {text : List Char} {piece : Piece} (h : piece ∈ pieces text) : piece.text ≠ [] := by
  fun_induction pieces text with
  | case1 => cases h
  | case2 c rest ih =>
    rcases List.mem_cons.mp h with rfl | h
    · exact Piece.next_text_ne_nil c rest
    · exact ih h

theorem pieces_fit {text : List Char} {before after : List Piece} {piece : Piece}
    (h : pieces text = before ++ piece :: after) : piece.Fits (textOf after) := by
  fun_induction pieces text generalizing before with
  | case1 => simp at h
  | case2 c rest ih =>
    cases before with
    | nil =>
      obtain ⟨rfl, rfl⟩ := List.cons.inj h
      rw [textOf_pieces]
      exact Piece.next_fits c rest
    | cons first before => exact ih (List.cons.inj h).2

end Knockout
