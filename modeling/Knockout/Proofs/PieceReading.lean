import Knockout.Proofs.PieceShapes

namespace Knockout

section Classes

variable {c : Char}

theorem of_isBlank (h : isBlank c = true) : c.isDigit = false ∧ isLetter c = false := by
  have hm := List.contains_iff_mem.mp h
  simp only [List.mem_cons, List.not_mem_nil, or_false] at hm
  rcases hm with rfl | rfl | rfl | rfl | rfl | rfl <;> decide

theorem of_isDigit (h : c.isDigit = true) : isBlank c = false ∧ c ≠ '/' ∧ c ≠ '"' := by
  refine ⟨?_, ?_, ?_⟩
  · cases hb : isBlank c with
    | false => rfl
    | true => rw [(of_isBlank hb).1] at h; cases h
  · rintro rfl
    exact absurd h (by decide)
  · rintro rfl
    exact absurd h (by decide)

theorem isAlpha_iff (c : Char) :
    c.isAlpha = true ↔ (65 ≤ c.toNat ∧ c.toNat ≤ 90) ∨ (97 ≤ c.toNat ∧ c.toNat ≤ 122) := by
  change (decide (65 ≤ c.toNat ∧ c.toNat ≤ 90) || (decide (97 ≤ c.toNat) && decide (c.toNat ≤ 122))) = true ↔ _
  simp

theorem isDigit_iff (c : Char) : c.isDigit = true ↔ 48 ≤ c.toNat ∧ c.toNat ≤ 57 := by
  change (decide (48 ≤ c.toNat) && decide (c.toNat ≤ 57)) = true ↔ _
  simp

theorem isDigit_of_isLetter (h : isLetter c = true) : c.isDigit = false := by
  simp only [isLetter, Bool.or_eq_true, decide_eq_true_eq, List.contains_iff_mem, List.mem_cons,
    List.not_mem_nil, or_false] at h
  rcases h with (h | rfl) | h
  · apply Bool.eq_false_iff.mpr
    intro hd
    rw [isAlpha_iff] at h
    rw [isDigit_iff] at hd
    omega
  · decide
  · rcases h with rfl | rfl | rfl | rfl | rfl | rfl | rfl | rfl | rfl | rfl | rfl | rfl <;> decide

theorem of_isLetter (h : isLetter c = true) : isBlank c = false ∧ c ≠ '/' ∧ c ≠ '"' ∧ c.isDigit = false := by
  refine ⟨?_, ?_, ?_, isDigit_of_isLetter h⟩
  · cases hb : isBlank c with
    | false => rfl
    | true => rw [(of_isBlank hb).2] at h; cases h
  · rintro rfl
    exact absurd h (by decide)
  · rintro rfl
    exact absurd h (by decide)

theorem of_symbol? {kind : TokenKind} (h : kind.symbol? = some c) :
    isBlank c = false ∧ c ≠ '/' ∧ c ≠ '"' ∧ c.isDigit = false ∧ isLetter c = false := by
  cases kind <;> cases h <;> decide

end Classes

section Maximal

variable {class? : Char → Bool} {text after : List Char}

theorem takeWhile_append_of_stops (h : ∀ c ∈ text, class? c = true) (hs : StopsBefore class? after) :
    (text ++ after).takeWhile class? = text := by
  rw [List.takeWhile_append_of_pos h]
  cases after with
  | nil => simp
  | cons c after => simp [hs c rfl]

theorem dropWhile_append_of_stops (h : ∀ c ∈ text, class? c = true) (hs : StopsBefore class? after) :
    (text ++ after).dropWhile class? = after := by
  rw [List.dropWhile_append_of_pos h]
  cases after with
  | nil => rfl
  | cons c after => simp [hs c rfl]

end Maximal

theorem commentBody_append {body : List Char} (h : ¬ ['*', '/'] <:+: body ++ ['*']) (after : List Char) :
    commentBody (body ++ ['*', '/'] ++ after) = some (body ++ ['*', '/'], after) := by
  induction body with
  | nil => rfl
  | cons c body ih =>
    rw [List.cons_append, closer_infix_cons, not_or] at h
    have hc : ¬ (c = '*' ∧ (body ++ ['*', '/'] ++ after).head? = some '/') := by
      rintro ⟨rfl, hd⟩
      apply h.1
      refine ⟨rfl, ?_⟩
      cases body with
      | nil => exact absurd hd (by simp)
      | cons d body => exact hd
    rw [List.cons_append, List.cons_append, commentBody, if_neg hc, ih h.2]
    rfl

theorem commentBody_of_not_infix {text : List Char} (h : ¬ ['*', '/'] <:+: text) : commentBody text = none := by
  induction text with
  | nil => rfl
  | cons c text ih =>
    rw [closer_infix_cons, not_or] at h
    rw [commentBody, if_neg h.1, ih h.2]
    rfl

namespace Piece

theorem next_word {c : Char} {rest after : List Char} (h : IsWord (c :: rest) after) :
    next c (rest ++ after) = (⟨c :: rest, .ofWord (String.ofList (c :: rest))⟩, after) := by
  obtain ⟨d, tail, he, hd, htail, hs⟩ := h
  obtain ⟨rfl, rfl⟩ := List.cons.inj he
  obtain ⟨hblank, hslash, hquote, hdigit⟩ := of_isLetter hd
  simp [next, hblank, hslash, hquote, hdigit, hd, takeWhile_append_of_stops htail hs,
    dropWhile_append_of_stops htail hs]

theorem next_number {c : Char} {rest after : List Char} (h : IsNumber (c :: rest) after) :
    next c (rest ++ after) = (⟨c :: rest, .token .number (String.ofList (c :: rest))⟩, after) := by
  obtain ⟨-, hdigits, hs⟩ := h
  obtain ⟨hc, hrest⟩ := List.forall_mem_cons.mp hdigits
  obtain ⟨hblank, hslash, hquote⟩ := of_isDigit hc
  simp [next, hblank, hslash, hquote, hc, takeWhile_append_of_stops hrest hs, dropWhile_append_of_stops hrest hs]

theorem next_string {body : List Char} (h : IsStringBody body) (after : List Char) :
    next '"' (body ++ ['"'] ++ after) = (⟨'"' :: (body ++ ['"']), .token .string (String.ofList body)⟩, after) := by
  have hbody : ∀ d ∈ body, (decide (d ≠ '"' ∧ d ≠ '\n')) = true := fun d hd => decide_eq_true (h d hd)
  have hs : StopsBefore (fun d => decide (d ≠ '"' ∧ d ≠ '\n')) ('"' :: after) := by
    intro d hd
    obtain rfl := Option.some.inj hd
    rfl
  have htake := takeWhile_append_of_stops hbody hs
  have hdrop := dropWhile_append_of_stops hbody hs
  rw [List.append_assoc, List.singleton_append]
  unfold next
  rw [if_neg (by decide), if_neg (by simp), if_neg (by simp), if_pos rfl]
  dsimp only
  rw [htake, hdrop]
  rfl

theorem next_unterminated {body after : List Char} (h : IsStringBody body)
    (ha : after = [] ∨ after.head? = some '\n') :
    next '"' (body ++ after) = (⟨'"' :: body, .fault .unterminatedString (String.ofList body)⟩, after) := by
  have hbody : ∀ d ∈ body, (decide (d ≠ '"' ∧ d ≠ '\n')) = true := fun d hd => decide_eq_true (h d hd)
  have hs : StopsBefore (fun d => decide (d ≠ '"' ∧ d ≠ '\n')) after := by
    intro d hd
    rcases ha with rfl | ha
    · cases hd
    · obtain rfl := Option.some.inj (hd.symm.trans ha)
      rfl
  have htake := takeWhile_append_of_stops hbody hs
  have hdrop := dropWhile_append_of_stops hbody hs
  unfold next
  rw [if_neg (by decide), if_neg (by simp), if_neg (by simp), if_pos rfl]
  dsimp only
  rw [htake, hdrop]
  rcases ha with rfl | ha
  · rfl
  · cases after with
    | nil => rfl
    | cons d after =>
      obtain rfl := Option.some.inj ha
      rfl

theorem next_symbol {c : Char} {kind : TokenKind} (h : kind.symbol? = some c) (after : List Char) :
    next c after = (⟨[c], .token kind c.toString⟩, after) := by
  obtain ⟨hblank, hslash, hquote, hdigit, hletter⟩ := of_symbol? h
  simp [next, hblank, hslash, hquote, hdigit, hletter, (TokenKind.ofSymbol?_eq_some_iff c kind).mpr h]

theorem next_line {body after : List Char} (h : '\n' ∉ body) (ha : after = [] ∨ after.head? = some '\n') :
    next '/' ('/' :: body ++ after) = (⟨'/' :: '/' :: body, .gap⟩, after) := by
  have hbody : ∀ d ∈ '/' :: body, decide (d ≠ '\n') = true := by
    intro d hd
    apply decide_eq_true
    rintro rfl
    rcases List.mem_cons.mp hd with hd | hd
    · cases hd
    · exact h hd
  have hs : StopsBefore (fun d => decide (d ≠ '\n')) after := by
    intro d hd
    rcases ha with rfl | ha
    · cases hd
    · obtain rfl := Option.some.inj (hd.symm.trans ha)
      rfl
  unfold next
  rw [if_neg (by decide), if_pos ⟨rfl, rfl⟩, takeWhile_append_of_stops hbody hs, dropWhile_append_of_stops hbody hs]

theorem next_block {body : List Char} (h : ¬ ['*', '/'] <:+: body ++ ['*']) (after : List Char) :
    next '/' ('*' :: (body ++ ['*', '/']) ++ after) = (⟨'/' :: '*' :: (body ++ ['*', '/']), .gap⟩, after) := by
  unfold next
  rw [if_neg (by decide), if_neg (by simp), if_pos ⟨rfl, rfl⟩, List.cons_append, List.tail_cons,
    commentBody_append h]

theorem next_unclosed {body : List Char} (h : ¬ ['*', '/'] <:+: body) :
    next '/' ('*' :: body) = (⟨'/' :: '*' :: body, .fault .unclosedComment "/*"⟩, []) := by
  unfold next
  rw [if_neg (by decide), if_neg (by simp), if_pos ⟨rfl, rfl⟩, List.tail_cons, commentBody_of_not_infix h]

theorem next_of_gap {c : Char} {rest after : List Char} (h : IsGap after (c :: rest)) :
    next c (rest ++ after) = (⟨c :: rest, .gap⟩, after) := by
  cases h with
  | blank hb => simp [next, hb]
  | line hbody ha => exact next_line hbody ha
  | block hbody => exact next_block hbody after

theorem next_of_spells {kind : TokenKind} {lexeme : String} {c : Char} {rest after : List Char}
    (h : kind.Spells lexeme (c :: rest) after) :
    next c (rest ++ after) = (⟨c :: rest, .token kind lexeme⟩, after) := by
  cases kind with
  | identifier =>
    obtain ⟨hw, rfl, hl⟩ := h
    have hv : lowered (String.ofList (c :: rest)) ≠ "vs" := fun hv => hl (by rw [hv]; decide)
    have hr : ¬ isReserved (String.ofList (c :: rest)) = true := fun hr => hl (List.contains_iff_mem.mp hr)
    rw [next_word hw, Shape.ofWord, if_neg hv, if_neg hr]
  | reserved =>
    obtain ⟨hw, rfl, hl, hv⟩ := h
    have hr : isReserved (String.ofList (c :: rest)) = true := List.contains_iff_mem.mpr hl
    rw [next_word hw, Shape.ofWord, if_neg hv, if_pos hr]
  | versus =>
    obtain ⟨hw, rfl, hv⟩ := h
    rw [next_word hw, Shape.ofWord, if_pos hv]
  | number =>
    obtain ⟨hn, rfl⟩ := h
    exact next_number hn
  | string =>
    obtain ⟨body, he, hb, rfl⟩ := h
    obtain ⟨rfl, rfl⟩ := List.cons.inj he
    exact next_string hb after
  | _ =>
    obtain ⟨d, he, hs, rfl⟩ := h
    obtain ⟨rfl, rfl⟩ := List.cons.inj he
    exact next_symbol hs after

theorem next_of_marks {cause : Cause} {report : String} {c : Char} {rest after : List Char}
    (h : cause.Marks report (c :: rest) after) :
    next c (rest ++ after) = (⟨c :: rest, .fault cause report⟩, after) := by
  cases cause with
  | unterminatedString =>
    obtain ⟨body, he, hb, ha, rfl⟩ := h
    obtain ⟨rfl, rfl⟩ := List.cons.inj he
    exact next_unterminated hb ha
  | unclosedComment =>
    obtain ⟨body, he, hb, rfl, rfl⟩ := h
    obtain ⟨rfl, rfl⟩ := List.cons.inj he
    rw [List.append_nil]
    exact next_unclosed hb
  | invalidCharacter d =>
    obtain ⟨he, hblank, hletter, hdigit, hquote, hsymbol, hslash, rfl⟩ := h
    obtain ⟨rfl, rfl⟩ := List.cons.inj he
    have hline : ¬ (c = '/' ∧ after.head? = some '/') := fun hc => (hslash hc.1).1 hc.2
    have hblock : ¬ (c = '/' ∧ after.head? = some '*') := fun hc => (hslash hc.1).2 hc.2
    simp [next, hblank, hletter, hdigit, hquote, hsymbol, hline, hblock]
  | _ => exact h.elim

theorem next_of_fits {piece : Piece} {c : Char} {rest after : List Char} (h : piece.Fits after)
    (ht : piece.text = c :: rest) : next c (rest ++ after) = (piece, after) := by
  cases h with
  | gap hg =>
    obtain rfl := ht
    exact next_of_gap hg
  | token hs =>
    obtain rfl := ht
    exact next_of_spells hs
  | fault hm =>
    obtain rfl := ht
    exact next_of_marks hm

end Piece

def Fitting : List Piece → Prop
  | [] => True
  | piece :: rest => piece.text ≠ [] ∧ piece.Fits (textOf rest) ∧ Fitting rest

theorem pieces_of_fitting {ps : List Piece} (h : Fitting ps) : pieces (textOf ps) = ps := by
  induction ps with
  | nil => rw [textOf_nil, pieces]
  | cons piece rest ih =>
    obtain ⟨hne, hfits, hrest⟩ := h
    obtain ⟨c, tail, ht⟩ := List.exists_cons_of_ne_nil hne
    rw [textOf_cons, ht, List.cons_append, pieces, Piece.next_of_fits hfits ht, ih hrest]

theorem fitting_pieces (text : List Char) : Fitting (pieces text) := by
  fun_induction pieces text with
  | case1 => trivial
  | case2 c rest ih =>
    refine ⟨Piece.next_text_ne_nil c rest, ?_, ih⟩
    rw [textOf_pieces]
    exact Piece.next_fits c rest

end Knockout
