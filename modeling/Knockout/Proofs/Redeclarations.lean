import Knockout.Assembly
import Knockout.Proofs.KeyLookups

namespace Knockout

namespace KeyMap

variable {α : Type}

theorem getLast?_filter_eq_lookup {l : List (String × α)} (h : l.Pairwise fun a b => a.1 < b.1) (key : String) :
    ((l.filter fun e => e.1 = key).getLast?).map Prod.snd = l.lookup key := by
  induction l with
  | nil => rfl
  | cons first l ih =>
    obtain ⟨k, value⟩ := first
    have hr := List.pairwise_cons.mp h
    by_cases hk : k = key
    · subst hk
      have hn : (l.filter fun e => e.1 = k) = [] := by
        refine List.filter_eq_nil_iff.mpr fun e he hek => ?_
        exact String.ne_of_lt (hr.1 e he) (of_decide_eq_true hek).symm
      rw [List.filter_cons_of_pos (by simp), hn]
      simp
    · rw [List.filter_cons_of_neg (by simpa using hk), ih hr.2, List.lookup_cons,
        beq_eq_false_iff_ne.mpr (Ne.symm hk)]

theorem find?_union (m n : KeyMap α) (key : String) : (m.union n).find? key = (n.find? key).or (m.find? key) := by
  rw [union, find?_foldl_insert, getLast?_filter_eq_lookup n.ordered]
  rfl

theorem union_empty (m : KeyMap α) : m.union empty = m := rfl

theorem empty_union (m : KeyMap α) : empty.union m = m := by
  apply ext_find?
  intro key
  rw [find?_union, find?_empty, Option.or_none]

theorem union_assoc (a b c : KeyMap α) : (a.union b).union c = a.union (b.union c) := by
  apply ext_find?
  intro key
  simp only [find?_union, Option.or_assoc]

end KeyMap

namespace Redeclaration

variable {α : Type} {join : α → α → α}

def settle (policy : Redeclaration) (join : α → α → α) (first second : Option α) : Option α :=
  match policy with
  | lastWins => second.or first
  | keepFirst => first.or second
  | merge => Option.merge join first second

theorem settle_some_some (policy : Redeclaration) (first second : α) :
    policy.settle join (some first) (some second) = some (policy.combine join first second) := by
  cases policy <;> rfl

theorem none_settle (policy : Redeclaration) (declared : Option α) :
    policy.settle join none declared = declared := by
  cases policy <;> cases declared <;> rfl

theorem settle_none (policy : Redeclaration) (declared : Option α) :
    policy.settle join declared none = declared := by
  cases policy <;> cases declared <;> rfl

theorem settle_assoc (hj : ∀ a b c, join (join a b) c = join a (join b c)) (policy : Redeclaration)
    (a b c : Option α) :
    policy.settle join (policy.settle join a b) c = policy.settle join a (policy.settle join b c) := by
  cases policy with
  | lastWins => simp only [settle, Option.or_assoc]
  | keepFirst => simp only [settle, Option.or_assoc]
  | merge => cases a <;> cases b <;> cases c <;> simp [settle, Option.merge, hj]

def settleAll (policy : Redeclaration) (join : α → α → α) (declared : List α) : Option α :=
  declared.foldl (fun found x => policy.settle join found (some x)) none

theorem foldl_settle (hj : ∀ a b c, join (join a b) c = join a (join b c)) (policy : Redeclaration)
    (found : Option α) (declared : List α) :
    declared.foldl (fun found x => policy.settle join found (some x)) found =
      policy.settle join found (policy.settleAll join declared) := by
  induction declared generalizing found with
  | nil => exact (policy.settle_none found).symm
  | cons x declared ih =>
    rw [settleAll, List.foldl_cons, List.foldl_cons, ih, ih, none_settle, policy.settle_assoc hj]

theorem settleAll_append (hj : ∀ a b c, join (join a b) c = join a (join b c)) (policy : Redeclaration)
    (a b : List α) :
    policy.settleAll join (a ++ b) = policy.settle join (policy.settleAll join a) (policy.settleAll join b) := by
  rw [← policy.foldl_settle hj, settleAll, List.foldl_append]
  rfl

theorem settleAll_eq_none_iff (policy : Redeclaration) (declared : List α) :
    policy.settleAll join declared = none ↔ declared = [] := by
  constructor
  · intro h
    rcases List.eq_nil_or_concat declared with rfl | ⟨front, last, rfl⟩
    · rfl
    · rw [settleAll, List.concat_eq_append, List.foldl_append] at h
      generalize front.foldl (fun found x => policy.settle join found (some x)) none = found at h
      cases policy <;> cases found <;> cases h
  · rintro rfl
    rfl

end Redeclaration

namespace Steps

open Redeclaration

theorem joinInfos_eq (policy : Redeclaration) (entries : List (KeyMap String)) :
    joinInfos policy entries = (policy.settleAll .union entries).getD .empty := by
  cases entries with
  | nil => rfl
  | cons first more =>
    rw [joinInfos, settleAll, List.foldl_cons, none_settle]
    induction more generalizing first with
    | nil => rfl
    | cons second more ih => rw [List.foldl_cons, List.foldl_cons, settle_some_some, ih]

theorem find?_foldl_insertWith (policy : Redeclaration) (declared : List (String × List Fixture))
    (m : KeyMap (List Fixture)) (phase : String) :
    (declared.foldl (fun m e => m.insertWith (policy.combine (· ++ ·)) e.1 e.2) m).find? phase =
      ((declared.filter fun e => e.1 = phase).map Prod.snd).foldl
        (fun found games => policy.settle (· ++ ·) found (some games)) (m.find? phase) := by
  induction declared generalizing m with
  | nil => rfl
  | cons e declared ih =>
    rw [List.foldl_cons, ih, KeyMap.find?_insertWith]
    by_cases h : e.1 = phase
    · subst h
      rw [List.filter_cons_of_pos (by simp), List.map_cons, List.foldl_cons, if_pos rfl]
      congr 1
      cases m.find? e.1 with
      | none => rw [none_settle]; rfl
      | some old => rw [settle_some_some]; rfl
    · rw [List.filter_cons_of_neg (by simpa using h), if_neg (Ne.symm h)]

theorem find?_joinPhases (policy : Redeclaration) (declared : List (String × List Fixture)) (phase : String) :
    (joinPhases policy declared).find? phase =
      policy.settleAll (· ++ ·) ((declared.filter fun e => e.1 = phase).map Prod.snd) := by
  rw [joinPhases, find?_foldl_insertWith]
  rfl

theorem find?_joinPhases_append (policy : Redeclaration) (a b : List (String × List Fixture)) (phase : String) :
    (joinPhases policy (a ++ b)).find? phase =
      policy.settle (· ++ ·) ((joinPhases policy a).find? phase) ((joinPhases policy b).find? phase) := by
  rw [find?_joinPhases, find?_joinPhases, find?_joinPhases, List.filter_append, List.map_append]
  exact policy.settleAll_append List.append_assoc _ _

theorem joinInfos_append (policy : Redeclaration) (a b : List (KeyMap String)) :
    joinInfos policy (a ++ b) =
      match policy with
      | .lastWins => if !b.isEmpty then joinInfos policy b else joinInfos policy a
      | .keepFirst => if !a.isEmpty then joinInfos policy a else joinInfos policy b
      | .merge => (joinInfos policy a).union (joinInfos policy b) := by
  simp only [joinInfos_eq, policy.settleAll_append KeyMap.union_assoc]
  have ha : a.isEmpty = (policy.settleAll .union a).isNone := by
    rw [Bool.eq_iff_iff, List.isEmpty_iff, Option.isNone_iff_eq_none, settleAll_eq_none_iff]
  have hb : b.isEmpty = (policy.settleAll .union b).isNone := by
    rw [Bool.eq_iff_iff, List.isEmpty_iff, Option.isNone_iff_eq_none, settleAll_eq_none_iff]
  rw [ha, hb]
  generalize policy.settleAll .union a = first, policy.settleAll .union b = second
  cases policy with
  | lastWins => cases second <;> rfl
  | keepFirst => cases first <;> rfl
  | merge =>
    cases first with
    | none => rw [none_settle]; exact (KeyMap.empty_union _).symm
    | some x =>
      cases second with
      | none => exact (KeyMap.union_empty x).symm
      | some y => rfl

end Steps

end Knockout
