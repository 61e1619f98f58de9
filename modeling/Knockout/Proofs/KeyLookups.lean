import Knockout.KeyMap

namespace Knockout.KeyMap

variable {α : Type}

theorem find?_empty (key : String) : (empty : KeyMap α).find? key = none := rfl

theorem find?_insert (m : KeyMap α) (key k : String) (value : α) :
    (m.insert key value).find? k = if k = key then some value else m.find? k := by
  rw [insert, find?_insertWith]
  split
  · subst k
    cases m.find? key <;> rfl
  · rfl

theorem find?_foldl_insert (m : KeyMap α) (l : List (String × α)) (key : String) :
    (l.foldl (fun m e => m.insert e.1 e.2) m).find? key =
      ((l.filter fun e => e.1 = key).getLast?.map Prod.snd).or (m.find? key) := by
  induction l generalizing m with
  | nil => rfl
  | cons e l ih =>
    rw [List.foldl_cons, ih, find?_insert]
    by_cases h : e.1 = key
    · simp only [h, ↓reduceIte, decide_true, List.filter_cons_of_pos, List.getLast?_cons, Option.map_some,
        Option.some_or]
      cases (l.filter fun e => e.1 = key).getLast? <;> rfl
    · simp [h, Ne.symm h]

theorem find?_ofList (l : List (String × α)) (key : String) :
    (ofList l).find? key = (l.filter fun e => e.1 = key).getLast?.map Prod.snd := by
  rw [ofList, find?_foldl_insert, find?_empty, Option.or_none]

theorem lookup_tail_eq_none {k : String} {v : α} {l : List (String × α)}
    (h : ((k, v) :: l).Pairwise fun a b => a.1 < b.1) : l.lookup k = none :=
  lookup_eq_none_of_lt (List.pairwise_cons.mp h).1

theorem lookup_eq_none_of_lt_head {k k' : String} {v : α} {l : List (String × α)} (hlt : k < k')
    (h : ((k', v) :: l).Pairwise fun a b => a.1 < b.1) : ((k', v) :: l).lookup k = none := by
  apply lookup_eq_none_of_lt
  intro e he
  rcases List.mem_cons.mp he with rfl | he
  · exact hlt
  · exact String.lt_trans hlt ((List.pairwise_cons.mp h).1 e he)

theorem head_not_lt {k k' : String} {v v' : α} {l l' : List (String × α)}
    (h : ((k', v') :: l').Pairwise fun a b => a.1 < b.1)
    (hl : ((k, v) :: l).lookup k = ((k', v') :: l').lookup k) : ¬ k < k' := by
  intro hlt
  rw [lookup_eq_none_of_lt_head hlt h] at hl
  simp at hl

theorem entries_ext {l l' : List (String × α)} (hl : l.Pairwise fun a b => a.1 < b.1)
    (hl' : l'.Pairwise fun a b => a.1 < b.1) (h : ∀ key, l.lookup key = l'.lookup key) : l = l' := by
  induction l generalizing l' with
  | nil =>
    cases l' with
    | nil => rfl
    | cons e' l' =>
      obtain ⟨k', v'⟩ := e'
      have := h k'
      simp at this
  | cons e l ih =>
    obtain ⟨k, v⟩ := e
    cases l' with
    | nil =>
      have := h k
      simp at this
    | cons e' l' =>
      obtain ⟨k', v'⟩ := e'
      obtain rfl : k = k' :=
        Std.le_antisymm (String.not_lt.mp (head_not_lt hl (h k').symm)) (String.not_lt.mp (head_not_lt hl' (h k)))
      obtain rfl : v = v' := by simpa using h k
      rw [ih (List.pairwise_cons.mp hl).2 (List.pairwise_cons.mp hl').2]
      intro key
      by_cases hkey : key = k
      · rw [hkey, lookup_tail_eq_none hl, lookup_tail_eq_none hl']
      · have hb : (key == k) = false := beq_eq_false_iff_ne.mpr hkey
        simpa [List.lookup_cons, hb] using h key

theorem ext_find? {m n : KeyMap α} (h : ∀ key, m.find? key = n.find? key) : m = n := by
  obtain ⟨l, hl⟩ := m
  obtain ⟨l', hl'⟩ := n
  obtain rfl := entries_ext hl hl' h
  rfl

theorem lookup_eq_some_iff {l : List (String × α)} (h : l.Pairwise fun a b => a.1 < b.1) {key : String} {value : α} :
    l.lookup key = some value ↔ (key, value) ∈ l := by
  induction l with
  | nil => simp
  | cons first l ih =>
    obtain ⟨k, old⟩ := first
    obtain ⟨hfirst, hl⟩ := List.pairwise_cons.mp h
    rw [List.lookup_cons, List.mem_cons]
    by_cases hk : key = k
    · subst hk
      have hnot : (key, value) ∉ l := fun hmem => String.lt_irrefl key (hfirst (key, value) hmem)
      simp [hnot, eq_comm]
    · simp only [beq_eq_false_iff_ne.mpr hk, ih hl, Prod.mk.injEq, hk, false_and, false_or]

theorem mem_entries_iff {m : KeyMap α} {key : String} {value : α} :
    (key, value) ∈ m.entries ↔ m.find? key = some value :=
  (lookup_eq_some_iff m.ordered).symm

theorem mem_of_mem_ofList {l : List (String × α)} {e : String × α} (h : e ∈ (ofList l).entries) :
    e ∈ l := by
  obtain ⟨key, value⟩ := e
  rw [mem_entries_iff, find?_ofList] at h
  obtain ⟨⟨key', value'⟩, hlast, rfl⟩ := Option.map_eq_some_iff.mp h
  obtain ⟨hm, hk⟩ := List.mem_filter.mp (List.mem_of_getLast? hlast)
  rwa [← of_decide_eq_true hk]

theorem mem_keys_ofList {l : List (String × α)} {key : String} :
    key ∈ (ofList l).entries.map Prod.fst ↔ key ∈ l.map Prod.fst := by
  constructor
  · intro h
    obtain ⟨e, he, rfl⟩ := List.mem_map.mp h
    exact List.mem_map_of_mem (mem_of_mem_ofList he)
  · intro h
    obtain ⟨e, he, rfl⟩ := List.mem_map.mp h
    cases hlast : (l.filter fun e' => e'.1 = e.1).getLast? with
    | none => exact absurd (List.getLast?_eq_none_iff.mp hlast) (List.ne_nil_of_mem (List.mem_filter.mpr ⟨he, by simp⟩))
    | some e' =>
      have hmem : (e.1, e'.2) ∈ (ofList l).entries := by
        rw [mem_entries_iff, find?_ofList, hlast, Option.map_some]
      exact List.mem_map.mpr ⟨_, hmem, rfl⟩

end Knockout.KeyMap
