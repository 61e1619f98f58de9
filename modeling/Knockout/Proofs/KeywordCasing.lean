import Knockout.Proofs.LetterCasing
import Knockout.Proofs.MirroredAssembly
import Knockout.Proofs.SourceCoverage
import Knockout.Source

namespace Knockout

inductive Recases (free : Nat → Prop) : Nat → List Char → List Char → Prop
  | nil (offset : Nat) : Recases free offset [] []
  | keep {offset : Nat} {c : Char} {text text' : List Char} :
    Recases free (offset + c.utf8Size) text text' → Recases free offset (c :: text) (c :: text')
  | change {offset : Nat} {c d : Char} {text text' : List Char} : free offset → c.toLower = d.toLower →
    Recases free (offset + c.utf8Size) text text' → Recases free offset (c :: text) (d :: text')

def TokenKind.IsKeyword (kind : TokenKind) : Prop := kind = .reserved ∨ kind = .versus

/-- The sources differ in the casing of letters in reserved words and in words between two names only. -/
def KeywordsRecased (source source' : String) : Prop :=
  Recases (fun offset => ∃ t ∈ (scan source).tokens, t.kind.IsKeyword ∧ t.position.span.Contains offset) 0
    source.toList source'.toList

def Token.recased (source' : String) (t : Token) : Token :=
  if t.kind = .versus then { t with lexeme := t.position.span.slice source' } else t

inductive Diagnostic.Recased (source' : String) (tokens : List Token) : Diagnostic → Diagnostic → Prop
  | same (d : Diagnostic) : Recased source' tokens d d
  | text {t : Token} (cause : Cause) : t ∈ tokens → t.kind = .versus →
    Recased source' tokens (.ofToken t cause) (.ofToken (t.recased source') cause)
  | unexpected {t : Token} (context : Context) : t ∈ tokens → t.kind = .versus →
    Recased source' tokens (.ofToken t (.unexpected t.lexeme context))
      (.ofToken (t.recased source') (.unexpected (t.recased source').lexeme context))
  | invalid {t : Token} (key : String) : t ∈ tokens → t.kind = .versus →
    Recased source' tokens (.ofToken t (.invalidValue t.lexeme key))
      (.ofToken (t.recased source') (.invalidValue (t.recased source').lexeme key))

inductive Piece.Recased : Piece → Piece → Prop
  | same (piece : Piece) : Recased piece piece
  | reserved {text text' : List Char} (lexeme : String) : Alike text text' →
    Recased ⟨text, .token .reserved lexeme⟩ ⟨text', .token .reserved lexeme⟩
  | versus {text text' : List Char} (lexeme : String) : Alike text text' →
    Recased ⟨text, .token .versus lexeme⟩ ⟨text', .token .versus (String.ofList text')⟩

namespace Recases

variable {free : Nat → Prop} {offset : Nat} {text text' : List Char}

theorem alike (h : Recases free offset text text') : Alike text text' := by
  induction h with
  | nil => exact .nil
  | keep _ ih => exact .cons rfl ih
  | change _ hcd _ ih => exact .cons hcd ih

theorem eq_of_fixed (h : Recases free offset text text')
    (hf : ∀ byte, offset ≤ byte → byte < offset + byteLength text → ¬ free byte) : text' = text := by
  induction h with
  | nil => rfl
  | @keep offset c text text' _ ih =>
    rw [ih fun byte hl hr => hf byte (by omega) (by rw [byteLength_cons]; omega)]
  | @change offset c d text text' hfree =>
    have hpos := c.utf8Size_pos
    exact absurd hfree (hf offset (Nat.le_refl offset) (by rw [byteLength_cons]; omega))

theorem split {a b : List Char} (h : Recases free offset (a ++ b) text') : ∃ a' b', text' = a' ++ b' ∧
    Recases free offset a a' ∧ Recases free (offset + byteLength a) b b' := by
  induction a generalizing offset text' with
  | nil => exact ⟨[], text', rfl, .nil offset, h⟩
  | cons c a ih =>
    rw [byteLength_cons, ← Nat.add_assoc]
    cases h with
    | keep h =>
      obtain ⟨a', b', rfl, ha, hb⟩ := ih h
      exact ⟨c :: a', b', rfl, .keep ha, hb⟩
    | @change _ _ d _ _ hfree hcd h =>
      obtain ⟨a', b', rfl, ha, hb⟩ := ih h
      exact ⟨d :: a', b', rfl, .change hfree hcd ha, hb⟩

end Recases

section Pieces

variable {ps ps' : List Piece}

def Piece.IsKeyword (piece : Piece) : Prop := ∃ kind lexeme, piece.shape = .token kind lexeme ∧ kind.IsKeyword

theorem Piece.recased_of_alike {piece : Piece} (hk : piece.IsKeyword) {text' : List Char} (h : Alike piece.text text') :
    ∃ piece' : Piece, piece.Recased piece' ∧ piece'.text = text' := by
  obtain ⟨text, shape⟩ := piece
  obtain ⟨kind, lexeme, rfl, rfl | rfl⟩ := hk
  · exact ⟨_, .reserved lexeme h, rfl⟩
  · exact ⟨_, .versus lexeme h, rfl⟩

theorem recased_pieces {free : Nat → Prop} {p : Point} {text' : List Char} (h : Recases free p.offset (textOf ps) text')
    (hfree : ∀ e ∈ located p ps, ∀ byte, e.1.span.Contains byte → free byte → e.2.IsKeyword) :
    ∃ ps', List.Forall₂ Piece.Recased ps ps' ∧ textOf ps' = text' := by
  induction ps generalizing p text' with
  | nil =>
    cases h
    exact ⟨[], .nil, rfl⟩
  | cons piece rest ih =>
    obtain ⟨hpiece, hrest⟩ := List.forall_mem_cons.mp hfree
    obtain ⟨a, b, rfl, ha, hb⟩ := h.split
    rw [← Point.offset_after] at hb
    obtain ⟨ps', hps, rfl⟩ := ih hb hrest
    obtain ⟨piece', hp, rfl⟩ : ∃ piece' : Piece, piece.Recased piece' ∧ piece'.text = a := by
      by_cases hk : piece.IsKeyword
      · exact Piece.recased_of_alike hk ha.alike
      · refine ⟨piece, .same piece, (ha.eq_of_fixed fun byte hl hr hf => hk ?_).symm⟩
        refine hpiece byte ⟨hl, ?_⟩ hf
        rw [Point.position, Point.offset_after]
        exact hr
    exact ⟨piece' :: ps', .cons hp hps, rfl⟩

theorem isKeyword_of_free {source : String} {e : Position × Piece}
    (he : e ∈ located .origin (pieces source.toList)) {byte : Nat} (hb : e.1.span.Contains byte)
    (hf : ∃ t ∈ (scan source).tokens, t.kind.IsKeyword ∧ t.position.span.Contains byte) : e.2.IsKeyword := by
  obtain ⟨t, ht, hw, hc⟩ := hf
  obtain ⟨piece, hp, hs⟩ := mem_tokens_iff.mp ht
  by_cases hne : e = (t.position, piece)
  · obtain rfl := hne
    exact ⟨t.kind, t.lexeme, hs, hw⟩
  · obtain ⟨hl, hr⟩ := hb
    obtain ⟨hl', hr'⟩ := hc
    have hd : e.1.span.stop ≤ t.position.span.start ∨ t.position.span.stop ≤ e.1.span.start :=
      located_disjoint he hp hne
    omega

theorem Piece.Recased.alike {p p' : Piece} (h : p.Recased p') : Alike p.text p'.text := by
  cases h with
  | same => exact .refl _
  | reserved lexeme h => exact h
  | versus lexeme h => exact h

theorem textOf_alike (h : List.Forall₂ Piece.Recased ps ps') : Alike (textOf ps) (textOf ps') := by
  induction h with
  | nil => exact .nil
  | cons hp _ ih => exact List.rel_append hp.alike ih

theorem Piece.Recased.fits {p p' : Piece} {after after' : List Char} (h : p.Recased p') (ha : Alike after after')
    (hf : p.Fits after) : p'.Fits after' := by
  cases h with
  | same => exact ha.fits hf
  | reserved lexeme ht =>
    obtain ⟨hw, hl, hr⟩ := hf.spells rfl
    exact .token ⟨ht.isWord ha hw, hl.trans ht.lowered_eq, hr⟩
  | versus lexeme ht =>
    obtain ⟨hw, hlexeme, hl⟩ := hf.spells rfl
    rw [hlexeme, ht.lowered_eq] at hl
    exact .token ⟨ht.isWord ha hw, rfl, hl⟩

theorem fitting_recased (h : List.Forall₂ Piece.Recased ps ps') (hf : Fitting ps) : Fitting ps' := by
  induction h with
  | nil => trivial
  | @cons p p' rest rest' hp hrest ih =>
    obtain ⟨hne, hfits, hf⟩ := hf
    exact ⟨fun hn => hne (hp.alike.eq_nil_iff.mpr hn), hp.fits (textOf_alike hrest) hfits, ih hf⟩

theorem located_recased (h : List.Forall₂ Piece.Recased ps ps') (p : Point) :
    List.Forall₂ (fun e f => e.1 = f.1 ∧ e.2.Recased f.2) (located p ps) (located p ps') := by
  induction h generalizing p with
  | nil => exact .nil
  | cons hp _ ih =>
    have ha := hp.alike.point_after p
    rw [located, located, Point.position, Point.position, ha]
    exact .cons ⟨rfl, hp⟩ (ih _)

end Pieces

namespace Token

variable (source' : String) (t : Token)

theorem recased_kind : (t.recased source').kind = t.kind := by
  unfold recased
  split <;> rfl

theorem recased_position : (t.recased source').position = t.position := by
  unfold recased
  split <;> rfl

theorem recased_of_ne_versus {t : Token} (h : t.kind ≠ .versus) : t.recased source' = t := if_neg h

end Token

section Sources

variable {source source' : String}

theorem located_keywordsRecased (h : KeywordsRecased source source') :
    List.Forall₂ (fun e f => e.1 = f.1 ∧ e.2.Recased f.2) (located .origin (pieces source.toList))
      (located .origin (pieces source'.toList)) := by
  rw [KeywordsRecased, ← textOf_pieces source.toList] at h
  obtain ⟨ps', hps, ht⟩ := recased_pieces (p := .origin) h fun e he byte => isKeyword_of_free he
  have hp : pieces source'.toList = ps' := by
    rw [← ht, pieces_of_fitting (fitting_recased hps (fitting_pieces source.toList))]
  rw [hp]
  exact located_recased hps .origin

theorem diagnostics_recased (h : KeywordsRecased source source') :
    (scan source').diagnostics = (scan source).diagnostics := by
  have hd := located_keywordsRecased h
  refine Eq.symm ?_
  rw [← List.forall₂_eq_eq_eq]
  refine List.rel_filterMap (fun e f hef => ?_) hd
  obtain ⟨position, piece⟩ := e
  obtain ⟨position', piece'⟩ := f
  obtain ⟨rfl, hp⟩ := hef
  cases hp with
  | same => exact Reader.rel_of_eq rfl
  | reserved => exact .none
  | versus => exact .none

theorem lexeme_of_versus {t : Token} (ht : t ∈ (scan source).tokens) (hk : t.kind = .versus) :
    t.lexeme = t.position.span.slice source := by
  obtain ⟨text, after, hh, hs⟩ := (scan_accounts source).tokens_spelled t ht
  rw [hk] at hs
  rw [hh.slice_eq, hs.2.1]

theorem tokens_alike (h : KeywordsRecased source source') :
    List.Forall₂ (fun t u : Token => t.kind = u.kind ∧ t.position = u.position ∧
      (t.kind ≠ .versus → t.lexeme = u.lexeme)) (scan source).tokens (scan source').tokens := by
  refine List.rel_filterMap (fun e f hef => ?_) (located_keywordsRecased h)
  obtain ⟨position, piece⟩ := e
  obtain ⟨position', piece'⟩ := f
  obtain ⟨rfl, hp⟩ := hef
  cases hp with
  | same =>
    dsimp only
    cases piece.token? position with
    | none => exact .none
    | some t => exact .some ⟨rfl, rfl, fun _ => rfl⟩
  | reserved lexeme => exact .some ⟨rfl, rfl, fun _ => rfl⟩
  | versus lexeme => exact .some ⟨rfl, rfl, fun hn => absurd rfl hn⟩

theorem tokens_recased (h : KeywordsRecased source source') :
    (scan source').tokens = (scan source).tokens.map (Token.recased source') := by
  have hslices : ∀ u ∈ (scan source').tokens, u.kind = .versus → u.lexeme = u.position.span.slice source' :=
    fun u hu => lexeme_of_versus hu
  have hboth := ((List.forall₂_and_left _ _).mpr ⟨hslices, (tokens_alike h).flip⟩).flip
  refine Eq.symm ?_
  rw [← List.forall₂_eq_eq_eq, List.forall₂_map_left_iff]
  refine hboth.imp ?_
  rintro ⟨kind, lexeme, position⟩ ⟨kind', lexeme', position'⟩ ⟨hslice, hkind, hposition, hlexeme⟩
  obtain rfl : kind = kind' := hkind
  obtain rfl : position = position' := hposition
  by_cases hv : kind = .versus
  · obtain rfl : lexeme' = position.span.slice source' := hslice hv
    exact if_pos hv
  · obtain rfl : lexeme = lexeme' := hlexeme hv
    exact Token.recased_of_ne_versus source' hv

end Sources

theorem lastPosition_recased (source' : String) (tokens : List Token) :
    Steps.lastPosition (tokens.map (Token.recased source')) = Steps.lastPosition tokens := by
  unfold Steps.lastPosition
  rw [List.getLast?_map]
  cases tokens.getLast? with
  | none => rfl
  | some t => rw [Option.map_some]; dsimp only; rw [Token.recased_position]

theorem mirroring_recased (source' : String) (tokens : List Token) :
    Mirroring (fun t u => t ∈ tokens ∧ u = t.recased source') Eq where
  kind := by
    rintro t u ⟨-, rfl⟩
    rw [Token.recased_kind]
  lexeme := by
    rintro t u ⟨-, rfl⟩ hk
    rw [Token.recased_of_ne_versus source' hk]
  line := by
    rintro t u ⟨-, rfl⟩
    rw [Token.recased_position]

theorem Diagnostic.Mirrors.recased {source' : String} {tokens : List Token} {last : Position} {d e : Diagnostic}
    (h : Diagnostic.Mirrors (fun t u => t ∈ tokens ∧ u = t.recased source') last last d e) :
    Diagnostic.Recased source' tokens d e := by
  cases h with
  | atEnd cause => exact .same _
  | @atToken t u cause ht =>
    obtain ⟨hm, rfl⟩ := ht
    by_cases hv : t.kind = .versus
    · exact .text cause hm hv
    · rw [Token.recased_of_ne_versus source' hv]
      exact .same _
  | @unexpected t u context ht =>
    obtain ⟨hm, rfl⟩ := ht
    by_cases hv : t.kind = .versus
    · exact .unexpected context hm hv
    · rw [Token.recased_of_ne_versus source' hv]
      exact .same _
  | @invalid t u key ht =>
    obtain ⟨hm, rfl⟩ := ht
    by_cases hv : t.kind = .versus
    · exact .invalid key hm hv
    · rw [Token.recased_of_ne_versus source' hv]
      exact .same _

section Equal

theorem Team.Mirrors.eq {a b : Team} (h : a.Mirrors Eq b) : a = b := by
  obtain ⟨name, players, line⟩ := a
  obtain ⟨rfl, rfl, rfl⟩ := h
  rfl

theorem Fixture.Mirrors.eq {a b : Fixture} (h : a.Mirrors Eq b) : a = b := by
  obtain ⟨home, away, result, scorers, line⟩ := a
  obtain ⟨rfl, rfl, rfl, rfl, rfl⟩ := h
  rfl

theorem eq_of_forall₂ {α : Type} {R : α → α → Prop} (hR : ∀ x y, R x y → x = y) {a b : List α}
    (h : List.Forall₂ R a b) : a = b := by
  rw [← List.forall₂_eq_eq_eq]
  exact h.imp hR

theorem KeyMap.Mirrors.eq {α : Type} {V : α → α → Prop} (hV : ∀ x y, V x y → x = y) {m n : KeyMap α}
    (h : m.Mirrors V n) : m = n := by
  obtain ⟨entries, ordered⟩ := m
  obtain ⟨entries', ordered'⟩ := n
  obtain rfl : entries = entries' := eq_of_forall₂ (fun e f hef => Prod.ext hef.1 (hV _ _ hef.2)) h
  rfl

theorem Tournament.Mirrors.eq {a b : Tournament} (h : a.Mirrors Eq b) : a = b := by
  obtain ⟨info, teams, bracket⟩ := a
  obtain ⟨info', teams', bracket'⟩ := b
  obtain rfl : info = info' := h.info
  obtain rfl : teams = teams' := eq_of_forall₂ (fun _ _ => Team.Mirrors.eq) h.teams
  obtain rfl : bracket = bracket' :=
    KeyMap.Mirrors.eq (fun _ _ => eq_of_forall₂ fun _ _ => Fixture.Mirrors.eq) h.bracket
  rfl

end Equal

theorem read_of_keywordsRecased {source source' : String} (h : KeywordsRecased source source') (options : Options) :
    (scan source').tokens = (scan source).tokens.map (Token.recased source') ∧
    (scan source').diagnostics = (scan source).diagnostics ∧
    (Source.read options source').tournament = (Source.read options source).tournament ∧
    List.Forall₂ (Diagnostic.Recased source' (scan source).tokens) (Source.read options source).syntactic
      (Source.read options source').syntactic := by
  have htokens := tokens_recased h
  have hsame : List.Forall₂ (fun t u => t ∈ (scan source).tokens ∧ u = t.recased source') (scan source).tokens
      (scan source').tokens := by
    rw [htokens, List.forall₂_map_right_iff, List.forall₂_same]
    exact fun t ht => ⟨ht, rfl⟩
  obtain ⟨htournament, hreports⟩ := assemble_mirrors (mirroring_recased source' _) hsame options
  rw [show Steps.lastPosition (scan source').tokens = Steps.lastPosition (scan source).tokens by
    rw [htokens, lastPosition_recased]] at hreports
  exact ⟨htokens, diagnostics_recased h, htournament.eq.symm, hreports.imp fun _ _ => Diagnostic.Mirrors.recased⟩

theorem read_of_keywordsRecased_final :
    KeywordsRecased "final vs" "Final Vs" ∧
      (scan "Final Vs").tokens = (scan "final vs").tokens.map (Token.recased "Final Vs") ∧
      (scan "Final Vs").diagnostics = (scan "final vs").diagnostics ∧
      (Source.read {} "Final Vs").tournament = (Source.read {} "final vs").tournament ∧
      List.Forall₂ (Diagnostic.Recased "Final Vs" (scan "final vs").tokens) (Source.read {} "final vs").syntactic
        (Source.read {} "Final Vs").syntactic := by
  have hfinal : (⟨.reserved, "final", ⟨1, 1, ⟨0, 5⟩⟩⟩ : Token) ∈ (scan "final vs").tokens := by decide +kernel
  have hversus : (⟨.versus, "vs", ⟨1, 7, ⟨6, 8⟩⟩⟩ : Token) ∈ (scan "final vs").tokens := by decide +kernel
  have h : KeywordsRecased "final vs" "Final Vs" := by
    apply Recases.change ⟨_, hfinal, .inl rfl, by decide, by decide⟩ (by decide)
    apply Recases.keep (Recases.keep (Recases.keep (Recases.keep (Recases.keep _))))
    exact Recases.change ⟨_, hversus, .inr rfl, by decide, by decide⟩ (by decide) (.keep (.nil _))
  exact ⟨h, read_of_keywordsRecased h {}⟩

end Knockout
