import Mathlib.Data.List.Basic

namespace Knockout

structure Ranks {α : Type} (le : α → α → Bool) : Prop where
  trans (a b c : α) : le a b = true → le b c = true → le a c = true
  total (a b : α) : (le a b || le b a) = true

def Tied {α : Type} (le : α → α → Bool) (a b : α) : Bool := le a b && le b a

namespace Ranks

variable {α : Type} {le : α → α → Bool} (h : Ranks le)

include h

theorem refl (a : α) : le a a = true := by
  simpa using h.total a a

theorem tied_self (a : α) : Tied le a a = true := by
  rw [Tied, h.refl a, Bool.and_self]

theorem le_of_tied (x a b : α) (ha : Tied le x a = true) (hb : Tied le x b = true) : le a b = true := by
  rw [Tied, Bool.and_eq_true] at ha hb
  exact h.trans a x b ha.2 hb.1

theorem filter_mergeSort {kept : α → Bool} (hk : ∀ a b, kept a = true → kept b = true → le a b = true) (l : List α) :
    (l.mergeSort le).filter kept = l.filter kept := by
  have htied : (l.filter kept).Pairwise fun a b => le a b = true := by
    apply List.pairwise_of_forall_mem_list
    intro a ha b hb
    exact hk a b (List.mem_filter.mp ha).2 (List.mem_filter.mp hb).2
  have hsub := (List.sublist_mergeSort h.trans h.total htied List.filter_sublist).filter kept
  simp only [List.filter_filter, Bool.and_self] at hsub
  apply Eq.symm
  apply hsub.eq_of_length
  exact ((List.mergeSort_perm l le).filter _).length_eq.symm

theorem pairwise_mergeSort {R : α → α → Prop} {l : List α} (hl : l.Pairwise R) :
    (l.mergeSort le).Pairwise fun a b => le a b = true ∧ (le b a = true → R a b) := by
  apply List.pairwise_iff_forall_sublist.mpr
  intro a b hab
  have hle := List.pairwise_iff_forall_sublist.mp (List.pairwise_mergeSort h.trans h.total l) hab
  refine ⟨hle, fun hba => ?_⟩
  have htied : Tied le a b = true := by rw [Tied, hle, hba, Bool.and_self]
  have hsub := hab.filter (Tied le a)
  rw [h.filter_mergeSort (h.le_of_tied a), List.filter_cons_of_pos (h.tied_self a), List.filter_cons_of_pos htied]
    at hsub
  exact List.pairwise_iff_forall_sublist.mp hl (hsub.trans List.filter_sublist)

theorem mem_of_filter {l l' : List α} (htied : ∀ x, l.filter (Tied le x) = l'.filter (Tied le x)) {a : α}
    (ha : a ∈ l) : a ∈ l' := by
  have hkept := List.mem_filter.mpr ⟨ha, h.tied_self a⟩
  rw [htied a] at hkept
  exact (List.mem_filter.mp hkept).1

theorem eq_of_filter {l l' : List α} (hl : l.Pairwise fun a b => le a b = true)
    (hl' : l'.Pairwise fun a b => le a b = true)
    (htied : ∀ x, l.filter (Tied le x) = l'.filter (Tied le x)) : l = l' := by
  induction l generalizing l' with
  | nil =>
    cases l' with
    | nil => rfl
    | cons b l' => cases h.mem_of_filter (fun x => (htied x).symm) List.mem_cons_self
  | cons a l ih =>
    cases l' with
    | nil => cases h.mem_of_filter htied List.mem_cons_self
    | cons b l' =>
      have hab : le a b = true := by
        rcases List.mem_cons.mp (h.mem_of_filter (fun x => (htied x).symm) List.mem_cons_self) with rfl | hb
        · exact h.refl b
        · exact List.rel_of_pairwise_cons hl hb
      have hba : le b a = true := by
        rcases List.mem_cons.mp (h.mem_of_filter htied List.mem_cons_self) with rfl | ha
        · exact h.refl a
        · exact List.rel_of_pairwise_cons hl' ha
      have hfirst := htied a
      rw [List.filter_cons_of_pos (h.tied_self a), List.filter_cons_of_pos (by rw [Tied, hab, hba, Bool.and_self])]
        at hfirst
      obtain ⟨rfl, -⟩ := List.cons.inj hfirst
      congr 1
      apply ih hl.tail hl'.tail
      intro x
      have hx := htied x
      rw [List.filter_cons, List.filter_cons] at hx
      split at hx
      · exact (List.cons.inj hx).2
      · exact hx

end Ranks

end Knockout
