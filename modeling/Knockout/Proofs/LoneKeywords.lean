import Knockout.Proofs.KeywordCasing

namespace Knockout

theorem letters_of_mem_reservedWords {word : String} (h : word ∈ reservedWords) :
    word.toList ≠ [] ∧ ∀ c ∈ word.toList, c.isAlpha = true ∧ c ≠ 'k' := by
  have hall : reservedWords.all (fun word => word.toList ≠ [] ∧ word.toList.all fun c => c.isAlpha && c ≠ 'k') := by
    decide
  simpa using List.all_eq_true.mp hall word h

theorem isAlpha_of_lowerAscii {c : Char} (h : ∀ d ∈ lowerAscii c, d.isAlpha = true ∧ d ≠ 'k') : c.isAlpha = true := by
  unfold lowerAscii at h
  split at h
  case isTrue => exact absurd rfl (h 'k' List.mem_cons_self).2
  case isFalse =>
  split at h
  case isTrue =>
    have hdot := (h '\u0307' (List.mem_cons_of_mem _ List.mem_cons_self)).1
    exact absurd hdot (by decide)
  case isFalse =>
    have hlower := (isAlpha_iff c.toLower).mp (h c.toLower List.mem_cons_self).1
    rw [toNat_toLower] at hlower
    apply (isAlpha_iff c).mpr
    split at hlower <;> omega

theorem isWord_of_isReserved {word : String} (h : isReserved word = true) : IsWord word.toList [] := by
  obtain ⟨hne, hletters⟩ := letters_of_mem_reservedWords (List.contains_iff_mem.mp h)
  rw [lowered, String.toList_ofList] at hne hletters
  have halpha : ∀ c ∈ word.toList, c.isAlpha = true := by
    intro c hc
    apply isAlpha_of_lowerAscii
    exact fun d hd => hletters d (List.mem_flatMap_of_mem hc hd)
  cases hword : word.toList with
  | nil => simp [hword] at hne
  | cons c rest =>
    rw [hword] at halpha
    obtain ⟨hc, hrest⟩ := List.forall_mem_cons.mp halpha
    refine ⟨c, rest, rfl, isLetter_of_isAlpha hc, ?_, ?_⟩
    · intro d hd
      rw [isWordPart, isLetter_of_isAlpha (hrest d hd), Bool.true_or]
    · intro d hd
      cases hd

theorem isKeyword_ofWord {word : String} (h : isReserved word = true) :
    ∃ kind lexeme, Shape.ofWord word = .token kind lexeme ∧ kind.IsKeyword := by
  by_cases hv : lowered word = "vs"
  · exact ⟨.versus, word, if_pos hv, .inr rfl⟩
  · refine ⟨.reserved, lowered word, ?_, .inl rfl⟩
    rw [Shape.ofWord, if_neg hv, if_pos h]

theorem isReserved_of_spells {kind : TokenKind} {lexeme : String} {text after : List Char} (hk : kind.IsKeyword)
    (h : kind.Spells lexeme text after) : isReserved (String.ofList text) = true := by
  apply List.contains_iff_mem.mpr
  rcases hk with rfl | rfl
  · obtain ⟨-, rfl, hm, -⟩ := h
    exact hm
  · obtain ⟨-, rfl, hv⟩ := h
    rw [hv]
    decide

theorem pieces_of_isWord {text : List Char} (h : IsWord text []) :
    pieces text = [⟨text, .ofWord (String.ofList text)⟩] := by
  have hne : text ≠ [] := by
    obtain ⟨c, rest, rfl, -⟩ := h
    exact List.cons_ne_nil c rest
  have hpieces := @pieces_of_fitting [⟨text, .ofWord (String.ofList text)⟩] ⟨hne, ofWord_fits h, trivial⟩
  rwa [textOf_cons, textOf_nil, List.append_nil] at hpieces

theorem eq_nil_of_byteLength_eq_zero {text : List Char} (h : byteLength text = 0) : text = [] := by
  by_contra hne
  exact absurd h (byteLength_pos hne).ne'

theorem Span.Holds.eq_toList {source : String} {span : Span} {text after : List Char} (h : span.Holds source text after)
    (hs : span = ⟨0, source.utf8ByteSize⟩) : text = source.toList := by
  obtain ⟨before, ht, hstart, hstop⟩ := h
  have hsize := congrArg byteLength ht
  rw [byteLength_toList] at hsize
  simp only [hs, byteLength_append] at hstart hstop hsize
  have hbefore : before = [] := eq_nil_of_byteLength_eq_zero (by omega)
  have hafter : after = [] := eq_nil_of_byteLength_eq_zero (by omega)
  rw [ht, hbefore, hafter, List.nil_append, List.append_nil]

theorem isReserved_iff_scan (word : String) : isReserved word = true ↔
    ∃ t, scan word = ⟨[t], []⟩ ∧ t.kind.IsKeyword ∧ t.position.span = ⟨0, word.utf8ByteSize⟩ := by
  constructor
  · intro h
    have hpieces := pieces_of_isWord (isWord_of_isReserved h)
    rw [String.ofList_toList] at hpieces
    obtain ⟨kind, lexeme, hshape, hk⟩ := isKeyword_ofWord h
    refine ⟨⟨kind, lexeme, Point.origin.position word.toList⟩, ?_, hk, ?_⟩
    · simp [scan, hpieces, located, Piece.token?, Piece.diagnostic?, hshape]
    · rw [← byteLength_toList]
      simp [Point.position, Point.offset_after, Point.origin]
  · rintro ⟨t, hscan, hk, hspan⟩
    have ht : t ∈ (scan word).tokens := by rw [hscan]; exact List.mem_cons_self
    obtain ⟨text, after, hholds, hspells⟩ := (scan_accounts word).tokens_spelled t ht
    have hreserved := isReserved_of_spells hk hspells
    rwa [hholds.eq_toList hspan, String.ofList_toList] at hreserved

end Knockout
