import Knockout.Proofs.PieceReading
import Knockout.Proofs.SourcePositions

namespace Knockout

theorem StopsBefore.append_lineEnd {class? : Char → Bool} {after : List Char} (h : StopsBefore class? after)
    (hl : class? '\n' = false) (more : List Char) : StopsBefore class? (after ++ '\n' :: more) := by
  cases after with
  | nil =>
    rintro c ⟨⟩
    exact hl
  | cons d after => exact h

theorem atLineEnd_append {after : List Char} (h : after = [] ∨ after.head? = some '\n') (more : List Char) :
    after ++ '\n' :: more = [] ∨ (after ++ '\n' :: more).head? = some '\n' := by
  right
  rcases h with rfl | h
  · rfl
  · rw [List.head?_append, h]
    rfl

theorem Piece.Fits.append_lineEnd {piece : Piece} {after : List Char} (h : piece.Fits after)
    (hopen : ∀ report, piece.shape ≠ .fault .unclosedComment report) (more : List Char) :
    piece.Fits (after ++ '\n' :: more) := by
  cases h with
  | gap hg =>
    apply Piece.Fits.gap
    cases hg with
    | blank hb => exact .blank hb
    | line hbody ha => exact .line hbody (atLineEnd_append ha more)
    | block hbody => exact .block hbody
  | token ht =>
    apply Piece.Fits.token
    apply ht.before
    · intro hs
      exact hs.append_lineEnd (by decide) more
    · intro hs
      exact hs.append_lineEnd (by decide) more
  | @fault text cause report hm =>
    apply Piece.Fits.fault
    cases cause with
    | unclosedComment => exact absurd rfl (hopen report)
    | unterminatedString =>
      obtain ⟨body, rfl, hbody, ha, rfl⟩ := hm
      exact ⟨body, rfl, hbody, atLineEnd_append ha more, rfl⟩
    | invalidCharacter c =>
      obtain ⟨rfl, hblank, hletter, hdigit, hquote, hsymbol, hslash, rfl⟩ := hm
      refine ⟨rfl, hblank, hletter, hdigit, hquote, hsymbol, fun hc => ?_, rfl⟩
      cases after with
      | nil => exact ⟨by simp, by simp⟩
      | cons d after => exact hslash hc
    | _ => exact hm.elim

def lineEnd : Piece := ⟨['\n'], .gap⟩

theorem fitting_append_lineEnd {ps qs : List Piece} (hp : Fitting ps) (hq : Fitting qs)
    (hopen : ∀ piece ∈ ps, ∀ report, piece.shape ≠ .fault .unclosedComment report) :
    Fitting (ps ++ lineEnd :: qs) := by
  induction ps with
  | nil => exact ⟨by simp [lineEnd], .gap (.blank (by decide)), hq⟩
  | cons piece rest ih =>
    obtain ⟨hne, hfits, hrest⟩ := hp
    obtain ⟨hfirst, hopen⟩ := List.forall_mem_cons.mp hopen
    refine ⟨hne, ?_, ih hrest hopen⟩
    change piece.Fits (textOf (rest ++ lineEnd :: qs))
    rw [textOf_append]
    exact hfits.append_lineEnd hfirst (textOf qs)

theorem pieces_append_lineEnd {first : List Char} (second : List Char)
    (hopen : ∀ piece ∈ pieces first, ∀ report, piece.shape ≠ .fault .unclosedComment report) :
    pieces (first ++ '\n' :: second) = pieces first ++ lineEnd :: pieces second := by
  have htext : first ++ '\n' :: second = textOf (pieces first ++ lineEnd :: pieces second) := by
    rw [textOf_append, textOf_cons, textOf_pieces, textOf_pieces]
    rfl
  rw [htext]
  exact pieces_of_fitting (fitting_append_lineEnd (fitting_pieces first) (fitting_pieces second) hopen)

section Below

variable (lines bytes : Nat)

def Position.below (position : Position) : Position :=
  ⟨position.line + .ofNat lines, position.column, ⟨position.span.start + bytes, position.span.stop + bytes⟩⟩

def Token.below (t : Token) : Token := { t with position := t.position.below lines bytes }

def Diagnostic.below (d : Diagnostic) : Diagnostic := { d with position := d.position.below lines bytes }

def Point.below (p : Point) : Point := ⟨p.line + .ofNat lines, p.column, p.offset + bytes⟩

theorem Point.step_below (p : Point) (c : Char) : (p.below lines bytes).step c = (p.step c).below lines bytes := by
  unfold step
  split
  · simp [below, add_right_comm]
  · simp [below, Nat.add_right_comm]

theorem Point.after_below (p : Point) (text : List Char) :
    (p.below lines bytes).after text = (p.after text).below lines bytes := by
  induction text generalizing p with
  | nil => rfl
  | cons c text ih =>
    change ((p.below lines bytes).step c).after text = ((p.step c).after text).below lines bytes
    rw [step_below, ih]

theorem Point.position_below (p : Point) (text : List Char) :
    (p.below lines bytes).position text = (p.position text).below lines bytes := by
  rw [position, after_below]
  rfl

theorem located_below (p : Point) (ps : List Piece) :
    located (p.below lines bytes) ps = (located p ps).map fun e => (e.1.below lines bytes, e.2) := by
  induction ps generalizing p with
  | nil => rfl
  | cons piece rest ih => rw [located, Point.position_below, Point.after_below, ih, located, List.map_cons]

theorem Piece.token?_below (position : Position) (piece : Piece) :
    piece.token? (position.below lines bytes) = (piece.token? position).map (Token.below lines bytes) := by
  cases hs : piece.shape <;> simp [token?, hs, Token.below]

theorem Piece.diagnostic?_below (position : Position) (piece : Piece) :
    piece.diagnostic? (position.below lines bytes) =
      (piece.diagnostic? position).map (Diagnostic.below lines bytes) := by
  cases hs : piece.shape <;> simp [diagnostic?, hs, Diagnostic.below]

end Below

theorem located_append (p : Point) (ps qs : List Piece) :
    located p (ps ++ qs) = located p ps ++ located (p.after (textOf ps)) qs := by
  induction ps generalizing p with
  | nil => rfl
  | cons piece rest ih => rw [List.cons_append, located, ih, located, textOf_cons, Point.after_append, List.cons_append]

theorem Point.after_line (text : List Char) :
    (origin.after text).step '\n' = origin.below (text.count '\n' + 1) (byteLength text + 1) := by
  have hline : UInt32.ofNat (1 + text.count '\n') + 1 = 1 + .ofNat (text.count '\n' + 1) := by
    rw [UInt32.ofNat_add, UInt32.ofNat_add, add_assoc]
    rfl
  rw [after_origin, lineAfter, step, if_pos rfl, hline, below, origin, Nat.zero_add]
  rfl

theorem located_append_lineEnd (first second : List Char)
    (hopen : ∀ piece ∈ pieces first, ∀ report, piece.shape ≠ .fault .unclosedComment report) :
    located .origin (pieces (first ++ '\n' :: second)) = located .origin (pieces first) ++
      (Point.position (Point.origin.after first) ['\n'], lineEnd) ::
        (located .origin (pieces second)).map
          fun e => (e.1.below (first.count '\n' + 1) (byteLength first + 1), e.2) := by
  rw [pieces_append_lineEnd second hopen, located_append, textOf_pieces, located, ← located_below, ← Point.after_line]
  rfl

theorem scan_lines {first : String} (second : String) (h : ∀ d ∈ (scan first).diagnostics, d.kind ≠ .unclosedComment) :
    scan (first ++ "\n" ++ second) =
      ⟨(scan first).tokens ++
          (scan second).tokens.map (Token.below (first.toList.count '\n' + 1) (first.utf8ByteSize + 1)),
        (scan first).diagnostics ++
          (scan second).diagnostics.map (Diagnostic.below (first.toList.count '\n' + 1) (first.utf8ByteSize + 1))⟩ := by
  have hopen : ∀ piece ∈ pieces first.toList, ∀ report, piece.shape ≠ .fault .unclosedComment report := by
    intro piece hp report hs
    rw [← located_pieces .origin (pieces first.toList)] at hp
    obtain ⟨⟨position, piece⟩, he, rfl⟩ := List.mem_map.mp hp
    exact h ⟨.unclosedComment, report, position⟩ (mem_diagnostics_iff.mpr ⟨piece, he, hs⟩) rfl
  have htext : (first ++ "\n" ++ second).toList = first.toList ++ '\n' :: second.toList := by simp
  have htoken (position : Position) : lineEnd.token? position = none := rfl
  have hdiagnostic (position : Position) : lineEnd.diagnostic? position = none := rfl
  rw [← byteLength_toList]
  simp only [scan, htext, located_append_lineEnd _ _ hopen, List.filterMap_append, List.filterMap_cons, htoken,
    hdiagnostic, List.filterMap_map, List.map_filterMap, Function.comp_def, Piece.token?_below,
    Piece.diagnostic?_below]

def Scan.positions (s : Scan) : List Position := s.tokens.map (·.position) ++ s.diagnostics.map (·.position)

theorem locates_of_mem_positions {source : String} (hl : source.length < 4294967296) {position : Position}
    (h : position ∈ (scan source).positions) : position.Locates source := by
  rcases List.mem_append.mp h with h | h
  · obtain ⟨t, ht, rfl⟩ := List.mem_map.mp h
    exact (scan_positioned source hl).tokens t ht
  · obtain ⟨d, hd, rfl⟩ := List.mem_map.mp h
    exact (scan_positioned source hl).diagnostics d hd

theorem Position.Locates.line_le {position : Position} {source : String} (h : position.Locates source) :
    position.line.toNat ≤ source.length := by
  obtain ⟨before, c, after, hsource, hends⟩ := h
  have hlength := congrArg List.length hsource
  rw [String.length_toList, List.length_append, List.length_cons] at hlength
  have hline := lineAfter_le before
  rw [hends.line]
  omega

theorem Position.below_line_toNat {position : Position} {lines : Nat} (bytes : Nat)
    (h : position.line.toNat + lines < 4294967296) :
    (position.below lines bytes).line.toNat = position.line.toNat + lines := by
  rw [below, UInt32.toNat_add, UInt32.toNat_ofNat', Nat.add_mod_mod]
  exact Nat.mod_eq_of_lt h

/--
A text that leaves no comment open is read on its own, whatever follows its last line; what follows is read as if it
began a text, only further down.
-/
theorem scan_append_line (first second : String) (h : ∀ d ∈ (scan first).diagnostics, d.kind ≠ .unclosedComment) :
    scan (first ++ "\n" ++ second) =
      ⟨(scan first).tokens ++
          (scan second).tokens.map (Token.below (first.toList.count '\n' + 1) (first.utf8ByteSize + 1)),
        (scan first).diagnostics ++
          (scan second).diagnostics.map (Diagnostic.below (first.toList.count '\n' + 1) (first.utf8ByteSize + 1))⟩ ∧
    ((first ++ "\n" ++ second).length < 4294967296 → ∀ position ∈ (scan second).positions,
      (position.below (first.toList.count '\n' + 1) (first.utf8ByteSize + 1)).line.toNat =
        position.line.toNat + (first.toList.count '\n' + 1)) := by
  refine ⟨scan_lines second h, fun hl position hp => ?_⟩
  have hlength : (first ++ "\n" ++ second).length = first.length + (second.length + 1) := by
    rw [String.length_append, String.length_append]
    exact Nat.add_right_comm first.length 1 second.length
  have hcount := List.count_le_length (a := '\n') (l := first.toList)
  rw [String.length_toList] at hcount
  have hline := (locates_of_mem_positions (by omega) hp).line_le
  apply Position.below_line_toNat
  omega

theorem scan_append_line_of_slashes :
    (∀ d ∈ (scan "ñ\n\"x /").diagnostics, d.kind ≠ .unclosedComment) ∧
    "ñ\n\"x /\n/ vs".length < 4294967296 ∧
    scan "ñ\n\"x /\n/ vs" =
      ⟨(scan "ñ\n\"x /").tokens ++ (scan "/ vs").tokens.map (Token.below 2 8),
        (scan "ñ\n\"x /").diagnostics ++ (scan "/ vs").diagnostics.map (Diagnostic.below 2 8)⟩ ∧
    ∀ position ∈ (scan "/ vs").positions, (position.below 2 8).line.toNat = position.line.toNat + 2 := by
  have hopen : ∀ d ∈ (scan "ñ\n\"x /").diagnostics, d.kind ≠ .unclosedComment := by decide +kernel
  obtain ⟨hscan, hexact⟩ := scan_append_line "ñ\n\"x /" "/ vs" hopen
  exact ⟨hopen, by decide, hscan, hexact (by decide)⟩

end Knockout
