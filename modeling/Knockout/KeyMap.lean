namespace Knockout

/-- A map from texts, kept as a list in ascending order of its keys (by code points). -/
structure KeyMap (α : Type) where
  entries : List (String × α)
  ordered : entries.Pairwise fun a b => a.1 < b.1
deriving DecidableEq

namespace KeyMap

variable {α β : Type}

def empty : KeyMap α := ⟨[], .nil⟩

instance : Inhabited (KeyMap α) := ⟨empty⟩

def size (m : KeyMap α) : Nat := m.entries.length

def isEmpty (m : KeyMap α) : Bool := m.entries.isEmpty

def find? (m : KeyMap α) (key : String) : Option α := m.entries.lookup key

def contains (m : KeyMap α) (key : String) : Bool := (m.find? key).isSome

def insertEntry (combine : α → α → α) (key : String) (value : α) : List (String × α) → List (String × α)
  | [] => [(key, value)]
  | (k, old) :: rest =>
    if key < k then (key, value) :: (k, old) :: rest
    else if key = k then (key, combine old value) :: rest
    else (k, old) :: insertEntry combine key value rest

theorem mem_insertEntry {combine : α → α → α} {key : String} {value : α} {l : List (String × α)}
    {e : String × α} (h : e ∈ insertEntry combine key value l) : e.1 = key ∨ e ∈ l := by
  induction l with
  | nil => simp_all [insertEntry]
  | cons head rest ih =>
    obtain ⟨k, old⟩ := head
    simp only [insertEntry] at h
    split at h
    · grind
    · split at h <;> grind

theorem insertEntry_ordered (combine : α → α → α) (key : String) (value : α) {l : List (String × α)}
    (h : l.Pairwise fun a b => a.1 < b.1) :
    (insertEntry combine key value l).Pairwise fun a b => a.1 < b.1 := by
  induction l with
  | nil => simp [insertEntry]
  | cons head rest ih =>
    obtain ⟨k, old⟩ := head
    have hr := List.pairwise_cons.mp h
    simp only [insertEntry]
    split
    case isTrue hlt =>
      exact List.pairwise_cons.mpr ⟨fun e he => by
        rcases List.mem_cons.mp he with rfl | he
        · exact hlt
        · exact String.lt_trans hlt (hr.1 e he), h⟩
    case isFalse hlt =>
      split
      case isTrue he => subst he; exact List.pairwise_cons.mpr ⟨hr.1, hr.2⟩
      case isFalse hne =>
        refine List.pairwise_cons.mpr ⟨fun e he => ?_, ih hr.2⟩
        rcases mem_insertEntry he with hk | he
        · rw [hk]; exact Std.lt_of_le_of_ne (String.not_lt.mp hlt) (Ne.symm hne)
        · exact hr.1 e he

def insertWith (combine : α → α → α) (m : KeyMap α) (key : String) (value : α) : KeyMap α :=
  ⟨insertEntry combine key value m.entries, insertEntry_ordered combine key value m.ordered⟩

def insert (m : KeyMap α) (key : String) (value : α) : KeyMap α :=
  m.insertWith (fun _ new => new) key value

def union (m n : KeyMap α) : KeyMap α :=
  n.entries.foldl (fun m e => m.insert e.1 e.2) m

def ofList (l : List (String × α)) : KeyMap α :=
  l.foldl (fun m e => m.insert e.1 e.2) empty

theorem lookup_eq_none_of_lt {key : String} {l : List (String × α)} (h : ∀ e ∈ l, key < e.1) :
    l.lookup key = none :=
  List.lookup_eq_none_iff.mpr fun e he => bne_iff_ne.mpr fun hk => String.lt_irrefl _ (hk ▸ h e he)

theorem lookup_insertEntry_self (combine : α → α → α) (key : String) (value : α) {l : List (String × α)}
    (h : l.Pairwise fun a b => a.1 < b.1) :
    (insertEntry combine key value l).lookup key = some ((l.lookup key).elim value (combine · value)) := by
  induction l with
  | nil => simp [insertEntry]
  | cons head rest ih =>
    obtain ⟨k, old⟩ := head
    have hr := List.pairwise_cons.mp h
    simp only [insertEntry]
    split
    case isTrue hlt =>
      have hn : ((k, old) :: rest).lookup key = none := lookup_eq_none_of_lt fun e he => by
        rcases List.mem_cons.mp he with rfl | he
        · exact hlt
        · exact String.lt_trans hlt (hr.1 e he)
      rw [hn]
      simp
    case isFalse hlt =>
      split
      case isTrue he => subst he; simp
      case isFalse hne =>
        have hb : (key == k) = false := beq_eq_false_iff_ne.mpr hne
        simp [List.lookup_cons, hb, ih hr.2]

theorem lookup_insertEntry_of_ne (combine : α → α → α) {key k : String} (value : α) (l : List (String × α))
    (h : k ≠ key) : (insertEntry combine key value l).lookup k = l.lookup k := by
  have hb : (k == key) = false := beq_eq_false_iff_ne.mpr h
  induction l with
  | nil => simp [insertEntry, List.lookup_cons, hb]
  | cons head rest ih =>
    obtain ⟨k', old⟩ := head
    simp only [insertEntry]
    split
    · simp [List.lookup_cons, hb]
    · split
      case isTrue he => subst he; simp [List.lookup_cons, hb]
      case isFalse => simp [List.lookup_cons, ih]

theorem find?_insertWith (combine : α → α → α) (m : KeyMap α) (key k : String) (value : α) :
    (m.insertWith combine key value).find? k =
      if k = key then some ((m.find? key).elim value (combine · value)) else m.find? k := by
  split
  case isTrue h => subst h; exact lookup_insertEntry_self combine k value m.ordered
  case isFalse h => exact lookup_insertEntry_of_ne combine value m.entries h

end KeyMap

end Knockout
