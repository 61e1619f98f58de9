import Mathlib.Data.UInt
import Knockout.Proofs.SourceCoverage

namespace Knockout

def lineAfter (text : List Char) : Nat := 1 + text.count '\n'

def columnAfter (text : List Char) : Nat := 1 + (text.reverse.takeWhile (· ≠ '\n')).length

theorem lineAfter_append (a b : List Char) : lineAfter (a ++ b) = lineAfter a + b.count '\n' := by
  rw [lineAfter, lineAfter, List.count_append, Nat.add_assoc]

theorem columnAfter_append (a : List Char) {b : List Char} (h : '\n' ∉ b) :
    columnAfter (a ++ b) = columnAfter a + b.length := by
  have hline : ∀ c ∈ b.reverse, decide (c ≠ '\n') = true := by
    intro c hc
    apply decide_eq_true
    rintro rfl
    exact h (List.mem_reverse.mp hc)
  rw [columnAfter, List.reverse_append, List.takeWhile_append_of_pos hline, List.length_append, List.length_reverse,
    columnAfter]
  omega

theorem columnAfter_lineEnd (a : List Char) : columnAfter (a ++ ['\n']) = 1 := by
  simp [columnAfter]

theorem lineAfter_le (text : List Char) : lineAfter text ≤ 1 + text.length :=
  Nat.add_le_add_left List.count_le_length 1

theorem columnAfter_le (text : List Char) : columnAfter text ≤ 1 + text.length := by
  have hle := (List.takeWhile_prefix (· ≠ '\n') (l := text.reverse)).length_le
  rw [List.length_reverse] at hle
  exact Nat.add_le_add_left hle 1

theorem Point.after_origin (text : List Char) :
    origin.after text = ⟨.ofNat (lineAfter text), .ofNat (columnAfter text), byteLength text⟩ := by
  induction text using List.reverseRecOn with
  | nil => rfl
  | append_singleton text c ih =>
    have hbytes : byteLength text + c.utf8Size = byteLength (text ++ [c]) := by
      rw [byteLength_append, byteLength_cons, byteLength_nil, Nat.add_zero]
    rw [after_append, ih]
    change step _ c = _
    by_cases hc : c = '\n'
    · subst hc
      rw [step, if_pos rfl, hbytes, columnAfter_lineEnd, lineAfter_append, List.count_singleton_self, UInt32.ofNat_add]
      rfl
    · have hm : '\n' ∉ [c] := by simpa using Ne.symm hc
      rw [step, if_neg hc, hbytes, columnAfter_append _ hm, lineAfter_append, List.count_eq_zero.mpr hm, Nat.add_zero,
        UInt32.ofNat_add]
      rfl

namespace Position

structure Ends (position : Position) (text : List Char) : Prop where
  line : position.line.toNat = lineAfter text
  column : position.column.toNat = columnAfter text
  offset : position.span.start = byteLength text

def Locates (position : Position) (source : String) : Prop :=
  ∃ before c after, source.toList = before ++ c :: after ∧ position.Ends before

def Precedes (a b : Position) : Prop := a.line < b.line ∨ a.line = b.line ∧ a.column < b.column

variable {a b : Position} {source : String} {before text : List Char}

theorem Ends.precedes (ha : a.Ends before) (hb : b.Ends (before ++ text)) (ht : text ≠ []) : a.Precedes b := by
  have hline := hb.line
  rw [lineAfter_append, ← ha.line] at hline
  by_cases hm : '\n' ∈ text
  · have := List.count_pos_iff.mpr hm
    exact .inl (UInt32.lt_iff_toNat_lt.mpr (by omega))
  · have hcolumn := hb.column
    have := List.length_pos_iff.mpr ht
    rw [List.count_eq_zero.mpr hm] at hline
    rw [columnAfter_append _ hm, ← ha.column] at hcolumn
    exact .inr ⟨UInt32.toNat_inj.mp hline.symm, UInt32.lt_iff_toNat_lt.mpr (by omega)⟩

theorem Locates.precedes (ha : a.Locates source) (hb : b.Locates source) (h : a.span.start < b.span.start) :
    a.Precedes b := by
  obtain ⟨before, c, after, hsource, ha⟩ := ha
  obtain ⟨before', c', after', hsource', hb⟩ := hb
  rw [ha.offset, hb.offset] at h
  rcases List.append_eq_append_iff.mp (hsource.symm.trans hsource') with ⟨text, rfl, -⟩ | ⟨text, rfl, -⟩
  · apply ha.precedes hb
    rintro rfl
    rw [List.append_nil] at h
    exact Nat.lt_irrefl _ h
  · rw [byteLength_append] at h
    omega

end Position

theorem locates_of_mem {source : String} (hl : source.length < 4294967296) {position : Position} {piece : Piece}
    (h : (position, piece) ∈ located .origin (pieces source.toList)) : position.Locates source := by
  obtain ⟨before, after, hp, rfl⟩ := mem_located h
  have hmem : piece ∈ pieces source.toList := by simp [hp]
  obtain ⟨c, rest, hc⟩ := List.exists_cons_of_ne_nil (pieces_text_ne_nil hmem)
  have hsource : source.toList = textOf before ++ c :: (rest ++ textOf after) := by
    rw [← textOf_pieces source.toList, hp, textOf_append, textOf_cons, hc, List.cons_append]
  have hlength := congrArg List.length hsource
  rw [String.length_toList, List.length_append, List.length_cons] at hlength
  have hline := lineAfter_le (textOf before)
  have hcolumn := columnAfter_le (textOf before)
  refine ⟨textOf before, c, rest ++ textOf after, hsource, ?_⟩
  rw [Point.after_origin]
  constructor
  · exact UInt32.toNat_ofNat_of_lt' (show _ < 4294967296 by omega)
  · exact UInt32.toNat_ofNat_of_lt' (show _ < 4294967296 by omega)
  · rfl

/-- Each token and diagnostic begins at the character that its line, column and offset tell. -/
structure Scan.Positioned (s : Scan) (source : String) : Prop where
  tokens : ∀ t ∈ s.tokens, t.position.Locates source
  diagnostics : ∀ d ∈ s.diagnostics, d.position.Locates source
  ordered : s.tokens.Pairwise fun t u => t.position.Precedes u.position

theorem tokens_proper (source : String) :
    ∀ t ∈ (scan source).tokens, t.position.span.start < t.position.span.stop := by
  intro t ht
  have hspan : t.position.span ∈ (scan source).spans := List.mem_append_left _ (List.mem_map_of_mem ht)
  exact (span_proper hspan).1

theorem tokens_start (source : String) :
    (scan source).tokens.Pairwise fun t u => t.position.span.start < u.position.span.start := by
  refine (tokens_ordered source).imp_of_mem ?_
  intro t u ht _ hstop
  exact (tokens_proper source t ht).trans_le hstop

theorem tokens_locate {source : String} (hl : source.length < 4294967296) :
    ∀ t ∈ (scan source).tokens, t.position.Locates source := by
  intro t ht
  obtain ⟨piece, he, -⟩ := mem_tokens_iff.mp ht
  exact locates_of_mem hl he

theorem tokens_precede {source : String} (hl : source.length < 4294967296) :
    (scan source).tokens.Pairwise fun t u => t.position.Precedes u.position := by
  refine (tokens_start source).imp_of_mem ?_
  intro t u ht hu hlt
  exact (tokens_locate hl t ht).precedes (tokens_locate hl u hu) hlt

theorem scan_positioned (source : String) (hl : source.length < 4294967296) : (scan source).Positioned source where
  tokens := tokens_locate hl
  diagnostics := by
    intro d hd
    obtain ⟨piece, he, -⟩ := mem_diagnostics_iff.mp hd
    exact locates_of_mem hl he
  ordered := tokens_precede hl

theorem scan_positioned_of_three_lines :
    "a\n/* ñ\n */ \"é\" b \"".length < 4294967296 ∧
      (scan "a\n/* ñ\n */ \"é\" b \"").Positioned "a\n/* ñ\n */ \"é\" b \"" :=
  ⟨by decide, scan_positioned _ (by decide)⟩

example : (scan "a\n/* ñ\n */ \"é\" b \"").tokens.map (fun t => (t.position.line, t.position.column)) =
    [(1, 1), (3, 5), (3, 9)] := by decide +kernel

end Knockout
