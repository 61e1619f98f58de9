import Knockout.Proofs.MirroredAssembly
import Knockout.Proofs.PieceReading
import Knockout.Proofs.SourceCoverage
import Knockout.Source

namespace Knockout

def Token.reading (t : Token) : TokenKind × String := (t.kind, t.lexeme)

def Piece.reading? (piece : Piece) : Option (TokenKind × String) :=
  match piece.shape with
  | .token kind lexeme => some (kind, lexeme)
  | _ => none

def respaced (source : String) : String :=
  " ".intercalate ((scan source).tokens.map fun t => t.position.span.slice source)

def Tournament.SameButLines (a b : Tournament) : Prop := a.Mirrors (fun _ _ => True) b

def Assembly.SameButPlaces (a b : Assembly) : Prop :=
  a.tournament.SameButLines b.tournament ∧
    List.Forall₂ (fun d e => d.cause = e.cause ∧ d.text = e.text) a.diagnostics b.diagnostics

theorem mirroring_readings : Mirroring (fun t u => t.reading = u.reading) fun _ _ => True where
  kind h := congrArg Prod.fst h
  lexeme h _ := congrArg Prod.snd h
  line _ := trivial

theorem forall₂_of_map_eq {α β : Type} {f : α → β} {a b : List α} (h : a.map f = b.map f) :
    List.Forall₂ (fun x y => f x = f y) a b := by
  rwa [← List.forall₂_eq_eq_eq, List.forall₂_map_left_iff, List.forall₂_map_right_iff] at h

theorem Diagnostic.Mirrors.said_alike {last last' : Position} {d e : Diagnostic}
    (h : Diagnostic.Mirrors (fun t u => t.reading = u.reading) last last' d e) :
    d.cause = e.cause ∧ d.text = e.text := by
  cases h with
  | atEnd cause => exact ⟨rfl, rfl⟩
  | atToken cause ht => exact ⟨rfl, congrArg Prod.snd ht⟩
  | unexpected context ht =>
    have hl := congrArg Prod.snd ht
    exact ⟨congrArg (Cause.unexpected · context) hl, hl⟩
  | invalid key ht =>
    have hl := congrArg Prod.snd ht
    exact ⟨congrArg (Cause.invalidValue · key) hl, hl⟩

theorem assemble_sameButPlaces (options : Options) {tokens tokens' : List Token}
    (h : tokens.map Token.reading = tokens'.map Token.reading) :
    (assemble options tokens).SameButPlaces (assemble options tokens') := by
  obtain ⟨htournament, hdiagnostics⟩ := assemble_mirrors mirroring_readings (forall₂_of_map_eq h) options
  exact ⟨htournament, hdiagnostics.imp fun _ _ => Diagnostic.Mirrors.said_alike⟩

section Slices

theorem map_token? {α : Type} (f : Token → α) (position : Position) (piece : Piece) :
    (piece.token? position).map f = piece.reading?.map fun r => f ⟨r.1, r.2, position⟩ := by
  cases hs : piece.shape <;> simp [Piece.token?, Piece.reading?, hs]

theorem readings_scan (source : String) :
    (scan source).tokens.map Token.reading = (pieces source.toList).filterMap Piece.reading? := by
  have he (e : Position × Piece) : (e.2.token? e.1).map Token.reading = e.2.reading? := by
    rw [map_token?]
    exact Option.map_id'
  simp only [scan, List.map_filterMap, he]
  conv_rhs => rw [← located_pieces .origin (pieces source.toList), List.filterMap_map]
  rfl

def tokenPieces (source : String) : List Piece :=
  (pieces source.toList).filter fun piece => piece.reading?.isSome

theorem slices_scan (source : String) :
    (scan source).tokens.map (fun t => t.position.span.slice source) =
      (tokenPieces source).map fun piece => String.ofList piece.text := by
  have he : ∀ e ∈ located .origin (pieces source.toList),
      (e.2.token? e.1).map (fun t => t.position.span.slice source) =
        if e.2.reading?.isSome then some (String.ofList e.2.text) else none := by
    rintro ⟨position, piece⟩ he
    obtain ⟨after, hh, -⟩ := holds_of_mem he
    rw [map_token?, ← hh.slice_eq]
    cases piece.reading? <;> rfl
  simp only [scan, tokenPieces, List.map_filterMap]
  rw [List.filterMap_congr he, ← List.filterMap_eq_map, List.filterMap_filter]
  conv_rhs => rw [← located_pieces .origin (pieces source.toList), List.filterMap_map]
  rfl

end Slices

section Spacing

variable {ps : List Piece}

def spaced (ps : List Piece) : List Piece := ps.intersperse ⟨[' '], .gap⟩

theorem spaced_cons_cons (p q : Piece) (rest : List Piece) :
    spaced (p :: q :: rest) = p :: ⟨[' '], .gap⟩ :: spaced (q :: rest) :=
  List.intersperse_cons_cons

theorem textOf_spaced (ps : List Piece) : textOf (spaced ps) = [' '].intercalate (ps.map Piece.text) := by
  induction ps with
  | nil => rfl
  | cons p rest ih =>
    cases rest with
    | nil => rfl
    | cons q rest =>
      rw [spaced_cons_cons, textOf_cons, textOf_cons, ih]
      simp [List.intercalate]

theorem mem_spaced {piece : Piece} (h : piece ∈ spaced ps) : piece.shape = .gap ∨ piece ∈ ps := by
  induction ps with
  | nil => cases h
  | cons p rest ih =>
    cases rest with
    | nil => exact .inr h
    | cons q rest =>
      rw [spaced_cons_cons] at h
      rcases List.mem_cons.mp h with rfl | h
      · exact .inr List.mem_cons_self
      rcases List.mem_cons.mp h with rfl | h
      · exact .inl rfl
      · exact (ih h).imp_right (List.mem_cons_of_mem p)

theorem readings_spaced (ps : List Piece) : (spaced ps).filterMap Piece.reading? = ps.filterMap Piece.reading? := by
  induction ps with
  | nil => rfl
  | cons p rest ih =>
    cases rest with
    | nil => rfl
    | cons q rest =>
      rw [spaced_cons_cons, List.filterMap_cons, List.filterMap_cons_none rfl, ih, ← List.filterMap_cons]

theorem Piece.Fits.before_space {piece : Piece} {after after' : List Char} (h : piece.Fits after)
    (hs : piece.reading?.isSome) (ha : ∀ c ∈ after'.head?, c = ' ') : piece.Fits after' := by
  cases h with
  | gap => cases hs
  | token ht =>
    refine .token (ht.before (fun _ d hd => ?_) fun _ d hd => ?_)
    · rw [ha d hd]
      decide
    · rw [ha d hd]
      decide
  | fault => cases hs

theorem fitting_spaced (h : ∀ p ∈ ps, p.text ≠ [] ∧ p.reading?.isSome ∧ ∃ after, p.Fits after) :
    Fitting (spaced ps) := by
  induction ps with
  | nil => trivial
  | cons p rest ih =>
    obtain ⟨⟨hne, hs, after, hfits⟩, hrest⟩ := List.forall_mem_cons.mp h
    cases rest with
    | nil =>
      refine ⟨hne, hfits.before_space hs ?_, trivial⟩
      rintro c ⟨⟩
    | cons q rest =>
      rw [spaced_cons_cons]
      refine ⟨hne, hfits.before_space hs ?_, by simp, .gap (.blank (by decide)), ih hrest⟩
      rintro c ⟨⟩
      rfl

end Spacing

theorem pieces_respaced (source : String) : pieces (respaced source).toList = spaced (tokenPieces source) := by
  have htext : (respaced source).toList = textOf (spaced (tokenPieces source)) := by
    rw [respaced, slices_scan, String.toList_intercalate, textOf_spaced, List.map_map]
    congr 1
    simp
  rw [htext]
  refine pieces_of_fitting (fitting_spaced fun piece hp => ?_)
  obtain ⟨hp, hs⟩ := List.mem_filter.mp hp
  obtain ⟨before, after, he⟩ := List.append_of_mem hp
  exact ⟨pieces_text_ne_nil hp, hs, textOf after, pieces_fit he⟩

theorem readings_respaced (source : String) :
    (scan (respaced source)).tokens.map Token.reading = (scan source).tokens.map Token.reading := by
  rw [readings_scan, readings_scan, pieces_respaced, readings_spaced, tokenPieces, List.filterMap_filter]
  congr 1
  funext piece
  cases piece.reading? <;> rfl

theorem diagnostics_respaced (source : String) : (scan (respaced source)).diagnostics = [] := by
  refine List.eq_nil_iff_forall_not_mem.mpr fun d hd => ?_
  obtain ⟨piece, he, hs⟩ := mem_diagnostics_iff.mp hd
  obtain ⟨before, after, hp, -⟩ := mem_located he
  have hmem : piece ∈ spaced (tokenPieces source) := by
    rw [← pieces_respaced, hp]
    exact List.mem_append_right _ List.mem_cons_self
  rcases mem_spaced hmem with hg | hm
  · rw [hg] at hs
    cases hs
  · have hr := (List.mem_filter.mp hm).2
    simp [Piece.reading?, hs] at hr

theorem read_ignores_layout :
    (∀ options tokens tokens', tokens.map Token.reading = tokens'.map Token.reading →
      (assemble options tokens).SameButPlaces (assemble options tokens')) ∧
    ∀ source : String,
      (scan (respaced source)).tokens.map Token.reading = (scan source).tokens.map Token.reading ∧
      (scan (respaced source)).diagnostics = [] ∧
      ∀ options, (Source.read options source).tournament.SameButLines
        (Source.read options (respaced source)).tournament := by
  refine ⟨fun options _ _ h => assemble_sameButPlaces options h, fun source => ?_⟩
  refine ⟨readings_respaced source, diagnostics_respaced source, fun options => ?_⟩
  exact (assemble_sameButPlaces options (readings_respaced source).symm).1

theorem read_ignores_layout_of_three_lines :
    let line : List Token := [⟨.reserved, "equipos", ⟨1, 1, ⟨0, 7⟩⟩⟩, ⟨.openBrace, "\x7b", ⟨1, 8, ⟨7, 8⟩⟩⟩,
      ⟨.closeBrace, "\x7d", ⟨1, 9, ⟨8, 9⟩⟩⟩]
    let source := "equipos\n\x7b\n\x7d // ninguno"
    line.map Token.reading = (scan source).tokens.map Token.reading ∧
      (assemble {} line).SameButPlaces (assemble {} (scan source).tokens) ∧
      (scan (respaced source)).tokens.map Token.reading = (scan source).tokens.map Token.reading ∧
      (scan (respaced source)).diagnostics = [] ∧
      (Source.read {} source).tournament.SameButLines (Source.read {} (respaced source)).tournament := by
  intro line source
  have hsame : line.map Token.reading = (scan source).tokens.map Token.reading := by decide +kernel
  obtain ⟨hreadings, hdiagnostics, htournament⟩ := read_ignores_layout.2 source
  exact ⟨hsame, read_ignores_layout.1 {} line _ hsame, hreadings, hdiagnostics, htournament {}⟩

example : respaced "Final/* 1 */:[" = "Final : [" := by decide +kernel

end Knockout
