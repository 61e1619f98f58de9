import Mathlib.Data.List.Forall2
import Knockout.Proofs.PieceReading

namespace Knockout

theorem toNat_toLower (c : Char) :
    c.toLower.toNat = if 65 ≤ c.toNat ∧ c.toNat ≤ 90 then c.toNat + 32 else c.toNat := by
  have hu : 65 ≤ c.toNat ∧ c.toNat ≤ 90 ↔ c.val ≥ 'A'.val ∧ c.val ≤ 'Z'.val := by
    simp [UInt32.le_iff_toNat_le, ← Char.toNat_val]
  unfold Char.toLower
  split
  case isTrue h =>
    have hlt : c.val.toNat ≤ 90 := (hu.mpr h).2
    have h32 : (32 : UInt32).toNat = 32 := rfl
    rw [if_pos (hu.mpr h)]
    change (c.val + 32).toNat = c.val.toNat + 32
    rw [UInt32.toNat_add, h32]
    apply Nat.mod_eq_of_lt
    omega
  case isFalse h => rw [if_neg fun hc => h (hu.mp hc)]

section Letters

variable {c d : Char}

theorem eq_or_isAlpha (h : c.toLower = d.toLower) : c = d ∨ c.isAlpha = true ∧ d.isAlpha = true := by
  have hn := congrArg Char.toNat h
  rw [toNat_toLower, toNat_toLower] at hn
  rw [isAlpha_iff, isAlpha_iff]
  by_cases hcd : c.toNat = d.toNat
  · exact .inl (Char.toNat_inj.mp hcd)
  · right
    split at hn <;> split at hn <;> omega

theorem isLetter_of_isAlpha (h : c.isAlpha = true) : isLetter c = true := by
  rw [isLetter, h]
  rfl

theorem utf8Size_of_isAlpha (h : c.isAlpha = true) : c.utf8Size = 1 := by
  have := (isAlpha_iff c).mp h
  rw [Char.utf8Size, if_pos]
  rw [UInt32.le_iff_toNat_le, Char.toNat_val]
  change c.toNat ≤ 127
  omega

theorem lowerAscii_of_isAlpha (h : c.isAlpha = true) : lowerAscii c = [c.toLower] := by
  rw [lowerAscii, if_neg, if_neg]
  · rintro rfl
    exact absurd h (by decide)
  · rintro rfl
    exact absurd h (by decide)

theorem isLetter_eq (h : c.toLower = d.toLower) : isLetter c = isLetter d := by
  rcases eq_or_isAlpha h with rfl | ⟨hc, hd⟩
  · rfl
  · rw [isLetter_of_isAlpha hc, isLetter_of_isAlpha hd]

theorem isDigit_eq (h : c.toLower = d.toLower) : c.isDigit = d.isDigit := by
  rcases eq_or_isAlpha h with rfl | ⟨hc, hd⟩
  · rfl
  · rw [isDigit_of_isLetter (isLetter_of_isAlpha hc), isDigit_of_isLetter (isLetter_of_isAlpha hd)]

theorem isWordPart_eq (h : c.toLower = d.toLower) : isWordPart c = isWordPart d := by
  rw [isWordPart, isWordPart, isLetter_eq h, isDigit_eq h]

theorem lowerAscii_eq (h : c.toLower = d.toLower) : lowerAscii c = lowerAscii d := by
  rcases eq_or_isAlpha h with rfl | ⟨hc, hd⟩
  · rfl
  · rw [lowerAscii_of_isAlpha hc, lowerAscii_of_isAlpha hd, h]

theorem eq_iff_of_not_isAlpha {e : Char} (he : e.isAlpha = false) (h : c.toLower = d.toLower) : c = e ↔ d = e := by
  rcases eq_or_isAlpha h with rfl | ⟨hc, hd⟩
  · rfl
  · constructor
    · rintro rfl
      rw [hc] at he
      cases he
    · rintro rfl
      rw [hd] at he
      cases he

theorem step_eq (p : Point) (h : c.toLower = d.toLower) : p.step c = p.step d := by
  rcases eq_or_isAlpha h with rfl | ⟨hc, hd⟩
  · rfl
  · simp only [Point.step, eq_iff_of_not_isAlpha (e := '\n') (by decide) h, utf8Size_of_isAlpha hc,
      utf8Size_of_isAlpha hd]

end Letters

def Alike (text text' : List Char) : Prop := List.Forall₂ (fun c d => c.toLower = d.toLower) text text'

namespace Alike

variable {text text' after after' : List Char}

theorem refl (text : List Char) : Alike text text := List.forall₂_same.mpr fun _ _ => rfl

theorem eq_nil_iff (h : Alike text text') : text = [] ↔ text' = [] := by
  cases h <;> simp

theorem head?_eq_iff (h : Alike text text') {e : Char} (he : e.isAlpha = false) :
    text.head? = some e ↔ text'.head? = some e := by
  cases h with
  | nil => rfl
  | cons hcd _ => simpa using eq_iff_of_not_isAlpha he hcd

theorem at_lineEnd (h : Alike text text') (hl : text = [] ∨ text.head? = some '\n') :
    text' = [] ∨ text'.head? = some '\n' :=
  hl.imp h.eq_nil_iff.mp (h.head?_eq_iff (by decide)).mp

theorem stopsBefore (h : Alike text text') {class? : Char → Bool}
    (hclass : ∀ {c d : Char}, c.toLower = d.toLower → class? c = class? d) (hs : StopsBefore class? text) :
    StopsBefore class? text' := by
  cases h with
  | nil => exact hs
  | @cons c d text text' hcd _ =>
    rintro e ⟨⟩
    rw [← hclass hcd]
    exact hs c rfl

theorem isWord (h : Alike text text') (ha : Alike after after') (hw : IsWord text after) : IsWord text' after' := by
  obtain ⟨c, rest, rfl, hc, hrest, hs⟩ := hw
  obtain ⟨d, rest', hcd, hrest', rfl⟩ := List.forall₂_cons_left_iff.mp h
  refine ⟨d, rest', rfl, ?_, ?_, ha.stopsBefore isWordPart_eq hs⟩
  · rw [← isLetter_eq hcd]
    exact hc
  · clear h hs
    induction hrest' with
    | nil => exact hrest
    | cons hab _ ih =>
      obtain ⟨ha, hrest⟩ := List.forall_mem_cons.mp hrest
      rw [isWordPart_eq hab] at ha
      exact List.forall_mem_cons.mpr ⟨ha, ih hrest⟩

theorem lowered_eq (h : Alike text text') : lowered (String.ofList text) = lowered (String.ofList text') := by
  have hl : text.flatMap lowerAscii = text'.flatMap lowerAscii := by
    induction h with
    | nil => rfl
    | cons hcd _ ih => rw [List.flatMap_cons, List.flatMap_cons, ih, lowerAscii_eq hcd]
  rw [lowered, lowered, String.toList_ofList, String.toList_ofList, hl]

theorem point_after (h : Alike text text') (p : Point) : p.after text = p.after text' := by
  induction h generalizing p with
  | nil => rfl
  | @cons c d text text' hcd _ ih =>
    change (p.step c).after text = (p.step d).after text'
    rw [step_eq p hcd, ih]

theorem isGap (h : Alike after after') (hg : IsGap after text) : IsGap after' text := by
  cases hg with
  | blank hb => exact .blank hb
  | line hbody hend => exact .line hbody (h.at_lineEnd hend)
  | block hbody => exact .block hbody

theorem marks (h : Alike after after') {cause : Cause} {report : String} (hm : cause.Marks report text after) :
    cause.Marks report text after' := by
  cases cause with
  | unterminatedString =>
    obtain ⟨body, ht, hbody, hend, hr⟩ := hm
    exact ⟨body, ht, hbody, h.at_lineEnd hend, hr⟩
  | unclosedComment =>
    obtain ⟨body, ht, hbody, hend, hr⟩ := hm
    exact ⟨body, ht, hbody, h.eq_nil_iff.mp hend, hr⟩
  | invalidCharacter c =>
    obtain ⟨ht, hblank, hletter, hdigit, hquote, hsymbol, hslash, hr⟩ := hm
    refine ⟨ht, hblank, hletter, hdigit, hquote, hsymbol, fun hc => ?_, hr⟩
    rw [ne_eq, ne_eq, ← h.head?_eq_iff (by decide), ← h.head?_eq_iff (by decide)]
    exact hslash hc
  | _ => exact hm.elim

theorem fits (h : Alike after after') {piece : Piece} (hf : piece.Fits after) : piece.Fits after' := by
  cases hf with
  | gap hg => exact .gap (h.isGap hg)
  | token hs => exact .token (hs.before (h.stopsBefore isWordPart_eq) (h.stopsBefore isDigit_eq))
  | fault hm => exact .fault (h.marks hm)

end Alike

end Knockout
