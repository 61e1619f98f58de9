import Mathlib.Data.List.Pairwise
import Mathlib.Data.String.Basic
import Knockout.Proofs.PieceShapes

namespace Knockout

def byteLength (text : List Char) : Nat := (String.ofList text).utf8ByteSize

@[simp]
theorem byteLength_nil : byteLength [] = 0 := rfl

@[simp]
theorem byteLength_cons (c : Char) (text : List Char) : byteLength (c :: text) = c.utf8Size + byteLength text := by
  simp [byteLength, String.ofList_cons]

@[simp]
theorem byteLength_append (a b : List Char) : byteLength (a ++ b) = byteLength a + byteLength b := by
  simp [byteLength, String.ofList_append]

theorem byteLength_toList (source : String) : byteLength source.toList = source.utf8ByteSize := by
  simp [byteLength]

theorem byteLength_pos {text : List Char} (h : text ≠ []) : 0 < byteLength text := by
  cases text with
  | nil => exact absurd rfl h
  | cons c text =>
    have := c.utf8Size_pos
    rw [byteLength_cons]
    omega

theorem Point.offset_after (p : Point) (text : List Char) : (p.after text).offset = p.offset + byteLength text := by
  induction text generalizing p with
  | nil => rfl
  | cons c text ih =>
    have hs : (p.step c).offset = p.offset + c.utf8Size := by
      unfold Point.step
      split <;> rfl
    change ((p.step c).after text).offset = _
    rw [ih, hs, byteLength_cons, Nat.add_assoc]

theorem Point.after_append (p : Point) (a b : List Char) : p.after (a ++ b) = (p.after a).after b :=
  List.foldl_append

theorem mem_located {p : Point} {ps : List Piece} {position : Position} {piece : Piece}
    (h : (position, piece) ∈ located p ps) :
    ∃ before after, ps = before ++ piece :: after ∧ position = (p.after (textOf before)).position piece.text := by
  induction ps generalizing p with
  | nil => cases h
  | cons first rest ih =>
    rcases List.mem_cons.mp h with he | h
    · obtain ⟨rfl, rfl⟩ := Prod.mk.inj he
      exact ⟨[], rest, rfl, rfl⟩
    · obtain ⟨before, after, rfl, rfl⟩ := ih h
      refine ⟨first :: before, after, rfl, ?_⟩
      rw [textOf_cons, Point.after_append]

theorem located_pieces (p : Point) (ps : List Piece) : (located p ps).map Prod.snd = ps := by
  induction ps generalizing p with
  | nil => rfl
  | cons piece rest ih => rw [located, List.map_cons, ih]

theorem located_pairwise (p : Point) (ps : List Piece) :
    (located p ps).Pairwise fun a b => a.1.span.stop ≤ b.1.span.start := by
  induction ps generalizing p with
  | nil => exact .nil
  | cons first rest ih =>
    refine List.pairwise_cons.mpr ⟨?_, ih _⟩
    rintro ⟨position, piece⟩ h
    obtain ⟨before, after, -, rfl⟩ := mem_located h
    change (p.after first.text).offset ≤ ((p.after first.text).after (textOf before)).offset
    rw [Point.offset_after _ (textOf before)]
    omega

def Span.Holds (span : Span) (source : String) (text after : List Char) : Prop :=
  ∃ before, source.toList = before ++ text ++ after ∧ span.start = byteLength before ∧
    span.stop = byteLength (before ++ text)

def Span.slice (span : Span) (source : String) : String :=
  String.Pos.Raw.extract source ⟨span.start⟩ ⟨span.stop⟩

theorem Span.Holds.slice_eq {span : Span} {source : String} {text after : List Char}
    (h : span.Holds source text after) : span.slice source = String.ofList text := by
  obtain ⟨before, ht, hs, he⟩ := h
  have hsource : source = String.ofList (before ++ text ++ after) := by rw [← ht, String.ofList_toList]
  rw [Span.slice, hs, he, byteLength_append, hsource, byteLength, byteLength, String.utf8ByteSize_ofList,
    String.utf8ByteSize_ofList]
  exact String.extract_of_valid before text after

def Span.Contains (span : Span) (byte : Nat) : Prop := span.start ≤ byte ∧ byte < span.stop

def Span.Disjoint (a b : Span) : Prop := a.stop ≤ b.start ∨ b.stop ≤ a.start

namespace Scan

def spans (s : Scan) : List Span :=
  s.tokens.map (fun t => t.position.span) ++ s.diagnostics.map fun d => d.position.span

def Covers (s : Scan) (byte : Nat) : Prop := ∃ span ∈ s.spans, span.Contains byte

structure Uncovered (s : Scan) (source : String) (stretch : Span) : Prop where
  proper : stretch.start < stretch.stop ∧ stretch.stop ≤ source.utf8ByteSize
  free : ∀ byte, stretch.Contains byte → ¬ s.Covers byte
  left : stretch.start = 0 ∨ s.Covers (stretch.start - 1)
  right : stretch.stop = source.utf8ByteSize ∨ s.Covers stretch.stop

end Scan

def CoveredFrom : Nat → List Piece → Nat → Prop
  | _, [], _ => False
  | offset, piece :: rest, byte =>
    (piece.shape ≠ .gap ∧ offset ≤ byte ∧ byte < offset + byteLength piece.text) ∨
      CoveredFrom (offset + byteLength piece.text) rest byte

theorem CoveredFrom.bounds {offset byte : Nat} {ps : List Piece} (h : CoveredFrom offset ps byte) :
    offset ≤ byte ∧ byte < offset + byteLength (textOf ps) := by
  induction ps generalizing offset with
  | nil => cases h
  | cons piece rest ih =>
    rw [textOf_cons, byteLength_append]
    rcases h with ⟨-, hl, hr⟩ | h
    · omega
    · have := ih h
      omega

theorem coveredFrom_iff (p : Point) (ps : List Piece) (byte : Nat) :
    CoveredFrom p.offset ps byte ↔ ∃ e ∈ located p ps, e.2.shape ≠ .gap ∧ e.1.span.Contains byte := by
  induction ps generalizing p with
  | nil => simp [CoveredFrom, located]
  | cons piece rest ih =>
    have ih := ih (p.after piece.text)
    rw [Point.offset_after] at ih
    simp only [CoveredFrom, ih, located, List.mem_cons, or_and_right, exists_or, exists_eq_left, Span.Contains,
      Point.position, Point.offset_after]

theorem mem_tokens_iff {source : String} {t : Token} :
    t ∈ (scan source).tokens ↔
      ∃ piece, (t.position, piece) ∈ located .origin (pieces source.toList) ∧ piece.shape = .token t.kind t.lexeme := by
  refine List.mem_filterMap.trans ⟨?_, ?_⟩
  · rintro ⟨⟨position, piece⟩, he, hs⟩
    unfold Piece.token? at hs
    split at hs
    case h_1 kind lexeme hk => obtain rfl := Option.some.inj hs; exact ⟨piece, he, hk⟩
    case h_2 => cases hs
  · rintro ⟨piece, he, hs⟩
    exact ⟨_, he, by simp [Piece.token?, hs]⟩

theorem mem_diagnostics_iff {source : String} {d : Diagnostic} :
    d ∈ (scan source).diagnostics ↔
      ∃ piece, (d.position, piece) ∈ located .origin (pieces source.toList) ∧ piece.shape = .fault d.cause d.text := by
  refine List.mem_filterMap.trans ⟨?_, ?_⟩
  · rintro ⟨⟨position, piece⟩, he, hs⟩
    unfold Piece.diagnostic? at hs
    split at hs
    case h_1 cause text hk => obtain rfl := Option.some.inj hs; exact ⟨piece, he, hk⟩
    case h_2 => cases hs
  · rintro ⟨piece, he, hs⟩
    exact ⟨_, he, by simp [Piece.diagnostic?, hs]⟩

theorem mem_spans_iff {source : String} {span : Span} :
    span ∈ (scan source).spans ↔
      ∃ e ∈ located .origin (pieces source.toList), e.2.shape ≠ .gap ∧ e.1.span = span := by
  simp only [Scan.spans, List.mem_append, List.mem_map, mem_tokens_iff, mem_diagnostics_iff]
  constructor
  · rintro (⟨t, ⟨piece, he, hs⟩, rfl⟩ | ⟨d, ⟨piece, he, hs⟩, rfl⟩)
    · exact ⟨_, he, by simp [hs], rfl⟩
    · exact ⟨_, he, by simp [hs], rfl⟩
  · rintro ⟨⟨position, piece⟩, he, hg, rfl⟩
    cases hs : piece.shape with
    | gap => exact absurd hs hg
    | token kind lexeme => exact .inl ⟨⟨kind, lexeme, position⟩, ⟨piece, he, hs⟩, rfl⟩
    | fault cause text => exact .inr ⟨⟨cause, text, position⟩, ⟨piece, he, hs⟩, rfl⟩

theorem covers_iff (source : String) (byte : Nat) :
    (scan source).Covers byte ↔ CoveredFrom 0 (pieces source.toList) byte := by
  rw [show (0 : Nat) = Point.origin.offset from rfl, coveredFrom_iff]
  constructor
  · rintro ⟨span, hm, hc⟩
    obtain ⟨e, he, hg, rfl⟩ := mem_spans_iff.mp hm
    exact ⟨e, he, hg, hc⟩
  · rintro ⟨e, he, hg, hc⟩
    exact ⟨e.1.span, mem_spans_iff.mpr ⟨e, he, hg, rfl⟩, hc⟩

theorem textOf_eq_nil {ps : List Piece} (hne : ∀ p ∈ ps, p.text ≠ []) (h : byteLength (textOf ps) = 0) : ps = [] := by
  cases ps with
  | nil => rfl
  | cons first rest =>
    have := byteLength_pos (hne first List.mem_cons_self)
    rw [textOf_cons, byteLength_append] at h
    omega

structure LongestFree (offset : Nat) (ps : List Piece) (start stop : Nat) : Prop where
  lt : start < stop
  le : stop ≤ offset + byteLength (textOf ps)
  free {byte : Nat} : start ≤ byte → byte < stop → ¬ CoveredFrom offset ps byte
  left : start = offset ∨ offset < start ∧ CoveredFrom offset ps (start - 1)
  right : stop = offset + byteLength (textOf ps) ∨ CoveredFrom offset ps stop

def MadeOfGaps (offset : Nat) (ps : List Piece) (start stop : Nat) : Prop :=
  ∃ before gaps after, ps = before ++ gaps ++ after ∧ (∀ p ∈ gaps, p.shape = .gap) ∧
    start = offset + byteLength (textOf before) ∧ stop = start + byteLength (textOf gaps)

section

variable {first : Piece} {rest : List Piece} {offset start start' stop : Nat}

theorem LongestFree.tail (h : LongestFree offset (first :: rest) start stop) (hs : start ≤ start') (hlt : start' < stop)
    (hleft : start' = offset + byteLength first.text ∨ offset + byteLength first.text < start' ∧
      CoveredFrom (offset + byteLength first.text) rest (start' - 1)) :
    LongestFree (offset + byteLength first.text) rest start' stop := by
  obtain ⟨-, hle, hfree, -, hright⟩ := h
  rw [textOf_cons, byteLength_append] at hle hright
  refine ⟨hlt, by omega, fun hl hr hc => hfree (by omega) hr (.inr hc), hleft, ?_⟩
  rcases hright with h | ⟨-, -, h⟩ | h
  · left
    omega
  · omega
  · exact .inr h

theorem MadeOfGaps.cons (h : MadeOfGaps (offset + byteLength first.text) rest start stop) :
    MadeOfGaps offset (first :: rest) start stop := by
  obtain ⟨before, gaps, after, rfl, hg, hs, ht⟩ := h
  refine ⟨first :: before, gaps, after, rfl, hg, ?_, ht⟩
  rw [textOf_cons, byteLength_append]
  omega

theorem MadeOfGaps.cons_gap (hgap : first.shape = .gap) (hne : ∀ p ∈ rest, p.text ≠ [])
    (h : MadeOfGaps (offset + byteLength first.text) rest (offset + byteLength first.text) stop) :
    MadeOfGaps offset (first :: rest) offset stop := by
  obtain ⟨before, gaps, after, rfl, hg, hs, ht⟩ := h
  obtain rfl : before = [] := textOf_eq_nil (fun p hp => hne p (by simp [hp])) (by omega)
  refine ⟨[], first :: gaps, after, rfl, ?_, by simp, ?_⟩
  · simpa [hgap] using hg
  · rw [textOf_cons, byteLength_append]
    omega

end

theorem LongestFree.madeOfGaps {ps : List Piece} (hne : ∀ p ∈ ps, p.text ≠ []) {offset start stop : Nat}
    (h : LongestFree offset ps start stop) : MadeOfGaps offset ps start stop := by
  induction ps generalizing offset start with
  | nil =>
    obtain ⟨hlt, hle, -, hleft, -⟩ := h
    rw [textOf_nil, byteLength_nil] at hle
    rcases hleft with h | ⟨-, h⟩
    · omega
    · cases h
  | cons first rest ih =>
    have hpos := byteLength_pos (hne first List.mem_cons_self)
    have hne := fun p hp => hne p (List.mem_cons_of_mem first hp)
    have hlt := h.lt
    by_cases hgap : first.shape = .gap
    · rcases h.left with rfl | ⟨hl, ⟨hn, -⟩ | hc⟩
      · have hend : start + byteLength first.text ≤ stop := by
          rcases h.right with h | ⟨hn, -⟩ | h
          · rw [h, textOf_cons, byteLength_append]
            omega
          · exact absurd hgap hn
          · exact h.bounds.1
        rcases Nat.eq_or_lt_of_le hend with he | hlt'
        · exact ⟨[], [first], rest, rfl, by simpa using hgap, by simp, by simp [← he]⟩
        · exact .cons_gap hgap hne (ih hne (h.tail (by omega) hlt' (.inl rfl)))
      · exact absurd hgap hn
      · have := hc.bounds.1
        exact (ih hne (h.tail (Nat.le_refl start) hlt (.inr ⟨by omega, hc⟩))).cons
    · have hs : offset + byteLength first.text ≤ start := by
        by_contra hn
        have hl : offset ≤ start := by rcases h.left with h | h <;> omega
        exact h.free (Nat.le_refl start) hlt (.inl ⟨hgap, hl, by omega⟩)
      rcases h.left with h' | ⟨hl, ⟨-, -, h'⟩ | hc⟩
      · omega
      · exact (ih hne (h.tail (Nat.le_refl start) hlt (.inl (by omega)))).cons
      · have := hc.bounds.1
        exact (ih hne (h.tail (Nat.le_refl start) hlt (.inr ⟨by omega, hc⟩))).cons

theorem Scan.Uncovered.longestFree {source : String} {stretch : Span} (h : (scan source).Uncovered source stretch) :
    LongestFree 0 (pieces source.toList) stretch.start stretch.stop := by
  have hsize : byteLength (textOf (pieces source.toList)) = source.utf8ByteSize := by
    rw [textOf_pieces, byteLength_toList]
  obtain ⟨⟨hlt, hle⟩, hfree, hleft, hright⟩ := h
  refine ⟨hlt, by omega, fun hl hr hc => hfree _ ⟨hl, hr⟩ ((covers_iff source _).mpr hc), ?_, ?_⟩
  · rcases hleft with hl | hl
    · exact .inl hl
    · by_cases h0 : stretch.start = 0
      · exact .inl h0
      · exact .inr ⟨by omega, (covers_iff source _).mp hl⟩
  · rw [hsize, Nat.zero_add]
    exact hright.imp_right (covers_iff source _).mp

/-- Blanks, line comments up to a line end or the end of the source, and closed block comments. -/
inductive Skipped (after : List Char) : List Char → Prop
  | nil : Skipped after []
  | append {gap rest : List Char} : IsGap (rest ++ after) gap → Skipped after rest → Skipped after (gap ++ rest)

theorem skipped_of_gaps {text : List Char} {before gaps after : List Piece}
    (h : pieces text = before ++ gaps ++ after) (hg : ∀ p ∈ gaps, p.shape = .gap) :
    Skipped (textOf after) (textOf gaps) := by
  induction gaps generalizing before with
  | nil => exact .nil
  | cons gap gaps ih =>
    have hgap : gap.shape = .gap := hg gap List.mem_cons_self
    have hp : pieces text = before ++ gap :: (gaps ++ after) := by simpa using h
    have hf := (pieces_fit hp).isGap hgap
    rw [textOf_append] at hf
    refine .append hf (@ih (before ++ [gap]) (by simpa using h) fun p hp => ?_)
    exact hg p (List.mem_cons_of_mem gap hp)

theorem holds_of_pieces {source : String} {before gaps after : List Piece}
    (h : pieces source.toList = before ++ gaps ++ after) {span : Span}
    (hs : span.start = byteLength (textOf before)) (ht : span.stop = span.start + byteLength (textOf gaps)) :
    span.Holds source (textOf gaps) (textOf after) := by
  refine ⟨textOf before, ?_, hs, ?_⟩
  · rw [← textOf_append, ← textOf_append, ← h, textOf_pieces]
  · rw [byteLength_append, ht, hs]

theorem holds_of_mem {source : String} {position : Position} {piece : Piece}
    (h : (position, piece) ∈ located .origin (pieces source.toList)) :
    ∃ after, position.span.Holds source piece.text after ∧ piece.Fits after := by
  obtain ⟨before, after, hp, rfl⟩ := mem_located h
  refine ⟨textOf after, ?_, pieces_fit hp⟩
  have hgaps : pieces source.toList = before ++ [piece] ++ after := by simpa using hp
  rw [show piece.text = textOf [piece] by simp]
  refine holds_of_pieces hgaps ?_ ?_
  · simp [Point.position, Point.offset_after, Point.origin]
  · simp [Point.position, Point.offset_after]

theorem span_proper {source : String} {span : Span} (h : span ∈ (scan source).spans) :
    span.start < span.stop ∧ span.stop ≤ source.utf8ByteSize := by
  obtain ⟨⟨position, piece⟩, he, -, rfl⟩ := mem_spans_iff.mp h
  obtain ⟨before, after, hp, -⟩ := mem_located he
  have hmem : piece ∈ pieces source.toList := by simp [hp]
  have hpos := byteLength_pos (pieces_text_ne_nil hmem)
  obtain ⟨after, ⟨before, ht, hs, hstop⟩, -⟩ := holds_of_mem he
  have hb := congrArg byteLength ht
  rw [byteLength_toList] at hb
  simp only [byteLength_append] at hb hstop
  dsimp only
  omega

structure Scan.Accounts (s : Scan) (source : String) : Prop where
  proper : ∀ span ∈ s.spans, span.start < span.stop ∧ span.stop ≤ source.utf8ByteSize
  disjoint : s.spans.Pairwise Span.Disjoint
  tokens_ordered : s.tokens.Pairwise fun a b => a.position.span.stop ≤ b.position.span.start
  diagnostics_ordered : s.diagnostics.Pairwise fun a b => a.position.span.stop ≤ b.position.span.start
  tokens_spelled : ∀ t ∈ s.tokens, ∃ text after,
    t.position.span.Holds source text after ∧ t.kind.Spells t.lexeme text after
  diagnostics_marked : ∀ d ∈ s.diagnostics, ∃ text after,
    d.position.span.Holds source text after ∧ d.cause.Marks d.text text after
  skipped : ∀ stretch, s.Uncovered source stretch → ∃ text after,
    stretch.Holds source text after ∧ Skipped after text

section

variable {source : String} {R : Position → Position → Prop}

theorem pairwise_tokens (h : (located .origin (pieces source.toList)).Pairwise fun a b => R a.1 b.1) :
    (scan source).tokens.Pairwise fun t u => R t.position u.position := by
  refine h.filterMap _ ?_
  intro a b hab t ht u hu
  unfold Piece.token? at ht hu
  split at ht <;> cases ht
  split at hu <;> cases hu
  exact hab

theorem pairwise_diagnostics (h : (located .origin (pieces source.toList)).Pairwise fun a b => R a.1 b.1) :
    (scan source).diagnostics.Pairwise fun d e => R d.position e.position := by
  refine h.filterMap _ ?_
  intro a b hab d hd e he
  unfold Piece.diagnostic? at hd he
  split at hd <;> cases hd
  split at he <;> cases he
  exact hab

end

theorem tokens_ordered (source : String) :
    (scan source).tokens.Pairwise fun a b => a.position.span.stop ≤ b.position.span.start :=
  pairwise_tokens (R := fun a b => a.span.stop ≤ b.span.start) (located_pairwise .origin (pieces source.toList))

theorem diagnostics_ordered (source : String) :
    (scan source).diagnostics.Pairwise fun a b => a.position.span.stop ≤ b.position.span.start :=
  pairwise_diagnostics (R := fun a b => a.span.stop ≤ b.span.start) (located_pairwise .origin (pieces source.toList))

theorem located_disjoint {source : String} {e f : Position × Piece}
    (he : e ∈ located .origin (pieces source.toList)) (hf : f ∈ located .origin (pieces source.toList)) (hne : e ≠ f) :
    e.1.span.Disjoint f.1.span := by
  have hl : (located .origin (pieces source.toList)).Pairwise fun a b => Span.Disjoint a.1.span b.1.span :=
    (located_pairwise .origin _).imp .inl
  have : Std.Symm fun a b : Position × Piece => Span.Disjoint a.1.span b.1.span := ⟨fun _ _ => Or.symm⟩
  exact hl.forall he hf hne

theorem spans_disjoint (source : String) : (scan source).spans.Pairwise Span.Disjoint := by
  refine List.pairwise_append.mpr ⟨?_, ?_, ?_⟩
  · exact List.pairwise_map.mpr ((tokens_ordered source).imp .inl)
  · exact List.pairwise_map.mpr ((diagnostics_ordered source).imp .inl)
  · intro a ha b hb
    obtain ⟨t, ht, rfl⟩ := List.mem_map.mp ha
    obtain ⟨d, hd, rfl⟩ := List.mem_map.mp hb
    obtain ⟨p, hp, hps⟩ := mem_tokens_iff.mp ht
    obtain ⟨q, hq, hqs⟩ := mem_diagnostics_iff.mp hd
    refine located_disjoint hp hq fun he => ?_
    rw [(Prod.mk.inj he).2, hqs] at hps
    cases hps

theorem scan_accounts (source : String) : (scan source).Accounts source where
  proper span h := span_proper h
  disjoint := spans_disjoint source
  tokens_ordered := tokens_ordered source
  diagnostics_ordered := diagnostics_ordered source
  tokens_spelled t ht := by
    obtain ⟨piece, he, hs⟩ := mem_tokens_iff.mp ht
    obtain ⟨after, hh, hf⟩ := holds_of_mem he
    exact ⟨piece.text, after, hh, hf.spells hs⟩
  diagnostics_marked d hd := by
    obtain ⟨piece, he, hs⟩ := mem_diagnostics_iff.mp hd
    obtain ⟨after, hh, hf⟩ := holds_of_mem he
    exact ⟨piece.text, after, hh, hf.marks hs⟩
  skipped stretch h := by
    obtain ⟨before, gaps, after, hp, hg, hs, ht⟩ := h.longestFree.madeOfGaps fun p hp => pieces_text_ne_nil hp
    exact ⟨textOf gaps, textOf after, holds_of_pieces hp (by omega) ht, skipped_of_gaps hp hg⟩

end Knockout
