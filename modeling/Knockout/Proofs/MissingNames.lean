import Knockout.Proofs.DocumentReading
import Knockout.Proofs.Outlines
import Knockout.Proofs.PrunedDocument

namespace Knockout

def complaints (steps : List Step) : List Cause :=
  steps.filterMap fun
    | .report cause _ => some cause
    | .skip t context => some (.unexpected t.lexeme context)
    | _ => none

theorem complaints_append (a b : List Step) : complaints (a ++ b) = complaints a ++ complaints b :=
  List.filterMap_append

theorem Silent.complaints_eq_nil {steps : List Step} (h : Silent steps) : complaints steps = [] := by
  refine List.filterMap_eq_nil_iff.mpr fun step hs => ?_
  have hsilent := h step hs
  cases step with
  | skip | report => cases hsilent
  | take | ignore | declare => rfl

def spared (deleted : Token → Bool) (ts : List Token) : List Token := ts.filter fun t => !deleted t

section Spared

variable {deleted : Token → Bool} {t : Token} {ts names : List Token}

theorem spared_cons (h : deleted t = false) (ts : List Token) : spared deleted (t :: ts) = t :: spared deleted ts :=
  List.filter_cons_of_pos (by simp [h])

@[simp]
theorem spared_append (as bs : List Token) : spared deleted (as ++ bs) = spared deleted as ++ spared deleted bs :=
  List.filter_append ..

structure Deletes (deleted : Token → Bool) (ts names : List Token) : Prop where
  nodup : ts.Nodup
  only : ∀ t ∈ ts, deleted t = true → t ∈ names

namespace Deletes

theorem split {as bs m n : List Token} (h : Deletes deleted (as ++ bs) (m ++ n)) (hm : m.Sublist as)
    (hn : n.Sublist bs) : Deletes deleted as m ∧ Deletes deleted bs n := by
  obtain ⟨has, hbs, hdisjoint⟩ := List.nodup_append.mp h.nodup
  refine ⟨⟨has, fun t ht hd => ?_⟩, ⟨hbs, fun t ht hd => ?_⟩⟩
  · apply (List.mem_append.mp (h.only t (List.mem_append_left _ ht) hd)).resolve_right
    exact fun hmem => hdisjoint t ht t (hn.subset hmem) rfl
  · apply (List.mem_append.mp (h.only t (List.mem_append_right _ ht) hd)).resolve_left
    exact fun hmem => hdisjoint t (hm.subset hmem) t ht rfl

theorem untouched (h : Deletes deleted ts []) : ∀ t ∈ ts, deleted t = false := by
  intro t ht
  by_contra hd
  exact List.not_mem_nil (h.only t ht (by simpa using hd))

theorem spared_eq (h : Deletes deleted ts []) : spared deleted ts = ts :=
  List.filter_eq_self.mpr fun t ht => by simp [h.untouched t ht]

theorem kept (h : Deletes deleted (t :: ts) names) (hs : names.Sublist ts) :
    deleted t = false ∧ Deletes deleted ts names := by
  have hparts : Deletes deleted ([t] ++ ts) ([] ++ names) := h
  obtain ⟨ht, hts⟩ := hparts.split (List.nil_sublist _) hs
  exact ⟨ht.untouched t List.mem_cons_self, hts⟩

theorem named (h : Deletes deleted (t :: ts) (t :: names)) (hs : names.Sublist ts) : Deletes deleted ts names := by
  have hparts : Deletes deleted ([t] ++ ts) ([t] ++ names) := h
  exact (hparts.split (List.Sublist.refl _) hs).2

end Deletes

end Spared

def Delimited (rest : List Token) : Prop := ∀ t ∈ rest.head?, t.IsInert

namespace Delimited

variable {rest : List Token}

theorem cons {t : Token} (h : t.IsInert) (rest : List Token) : Delimited (t :: rest) := by
  rintro _ ⟨⟩
  exact h

theorem unopened (h : Delimited rest) : Grammar.Unopened rest := fun t ht => (h t ht).ne (by decide)

end Delimited

namespace Reader

variable {α β : Type} {tokens middle rest : List Token} {x : α} {y : β} {ds ds' : List Declaration} {m n : Nat}

/-- The reader makes `value` and the declarations `ds` of the head of `tokens`, misses `n` names and nothing else. -/
structure Misses (r : Reader α) (tokens : List Token) (value : α) (ds : List Declaration) (n : Nat)
    (rest : List Token) : Prop where
  value : (r.run tokens).value = value
  rest : (r.run tokens).rest = rest
  declared : declarations (r.run tokens).steps = ds
  missing : ∃ roles : List NameRole, roles.length = n ∧ complaints (r.run tokens).steps = roles.map .missingName

theorem Accepts.misses {r : Reader α} (h : r.Accepts tokens x ds rest) : r.Misses tokens x ds 0 rest := by
  obtain ⟨hv, hrest, hs, hd⟩ := h
  exact ⟨hv, hrest, hd, [], rfl, hs.complaints_eq_nil⟩

theorem Misses.bind {r : Reader α} {f : α → Reader β} (hr : r.Misses tokens x ds m middle)
    (hf : (f x).Misses middle y ds' n rest) : (r >>= f).Misses tokens y (ds ++ ds') (m + n) rest := by
  obtain ⟨rfl, rfl, rfl, roles, rfl, hc⟩ := hr
  obtain ⟨rfl, rfl, rfl, roles', rfl, hc'⟩ := hf
  refine ⟨rfl, rfl, declarations_append, roles ++ roles', List.length_append, ?_⟩
  rw [run_bind, complaints_append, hc, hc', List.map_append]

theorem Accepts.bind_misses {r : Reader α} {f : α → Reader β} (hr : r.Accepts tokens x [] middle)
    (hf : (f x).Misses middle y ds n rest) : (r >>= f).Misses tokens y ds n rest := by
  have h := hr.misses.bind hf
  rwa [Nat.zero_add] at h

theorem Misses.map {r : Reader α} (h : r.Misses tokens x ds n rest) (f : α → β) :
    (r >>= fun x => pure (f x)).Misses tokens (f x) ds n rest := by
  have hb := h.bind (f := fun x => pure (f x)) (accepts_pure.mpr ⟨rfl, rfl, rfl⟩).misses
  rwa [List.append_nil] at hb

theorem TakesOne.accepts {r : Reader α} {accepts : Token → Prop} {value : Token → α} (h : r.TakesOne accepts value)
    {t : Token} (ht : accepts t) (rest : List Token) : r.Accepts (t :: rest) (value t) [] rest :=
  (h ..).mpr ⟨t, rfl, ht, rfl, rfl⟩

theorem accepts_takeKind {kind : TokenKind} {t : Token} (h : t.kind = kind) (rest : List Token) :
    (takeKind kind).Accepts (t :: rest) (some t) [] rest := by
  simp [Accepts, takeKind, takeIf, h]

theorem accepts_takeKind_rejected {kind : TokenKind} (h : ∀ t ∈ tokens.head?, t.kind ≠ kind) :
    (takeKind kind).Accepts tokens none [] tokens := by
  rw [Accepts, takeKind, run_takeIf_rejected fun t ht => decide_eq_false (h t ht)]
  exact ⟨rfl, rfl, silent_nil, rfl⟩

section Items

variable {turn : Token → List Token → Turn α} {unfinished : Option Cause} {t : Token} {tail final : List Token}
  {xs : List α}

theorem misses_items_finish (h : turn t tail = .finish) : (items turn unfinished).Misses (t :: tail) [] [] 0 tail :=
  ((accepts_items_finish h).mpr ⟨rfl, rfl, rfl⟩).misses

theorem misses_items_pass (h : turn t tail = .pass) (hm : (items turn unfinished).Misses tail xs ds n final) :
    (items turn unfinished).Misses (t :: tail) xs ds n final := by
  obtain ⟨hv, hr, hd, hc⟩ := hm
  have hrun : (items turn unfinished).run (t :: tail) = ⟨((items turn unfinished).run tail).value,
      .take t :: ((items turn unfinished).run tail).steps, ((items turn unfinished).run tail).rest⟩ := by
    simp [items, itemsFrom, h]
  constructor
  · rw [hrun, hv]
  · rw [hrun, hr]
  · rw [hrun, declarations_take, hd]
  · rw [hrun]
    exact hc

theorem misses_items_enter {item : Reader α} (h : turn t tail = .enter item) (hi : item.Misses tail x ds m middle)
    (hm : (items turn unfinished).Misses middle xs ds' n final) :
    (items turn unfinished).Misses (t :: tail) (x :: xs) (ds ++ ds') (m + n) final := by
  have hrun : (items turn unfinished).run (t :: tail) = ⟨(item.run tail).value ::
      ((items turn unfinished).run (item.run tail).rest).value, .take t :: ((item.run tail).steps ++
        ((items turn unfinished).run (item.run tail).rest).steps),
      ((items turn unfinished).run (item.run tail).rest).rest⟩ := by
    simp [items, itemsFrom, h]
  obtain ⟨rfl, rfl, rfl, roles, rfl, hc⟩ := hi
  obtain ⟨rfl, rfl, rfl, roles', rfl, hc'⟩ := hm
  refine ⟨by rw [hrun], by rw [hrun], ?_, roles ++ roles', List.length_append, ?_⟩
  · rw [hrun, declarations_take, declarations_append]
  · rw [hrun, List.map_append, ← hc, ← hc', ← complaints_append]
    rfl

end Items

end Reader

namespace Grammar

open Reader Document

section Entries

variable {α β : Type} {deleted : Token → Bool} {turn : Token → List Token → Turn α} {closer : TokenKind}
  {entry : List Token → β → Prop} {names : β → List Token} {value : β → α} {declared : β → List Declaration}

structure Recovers (deleted : Token → Bool) (turn : Token → List Token → Turn α) (closer : TokenKind)
    (entry : List Token → β → Prop) (names : β → List Token) (value : β → α) (declared : β → List Declaration) :
    Prop where
  finish {t : Token} (rest : List Token) : t.kind = closer → turn t rest = .finish
  pass {t : Token} (rest : List Token) : t.kind = .comma → turn t rest = .pass
  begins {ts : List Token} {y : β} : entry ts y →
    ∃ t tail, ts = t :: tail ∧ t.kind = .reserved ∧ (names y).Sublist tail
  item {t : Token} {tail rest : List Token} {y : β} : entry (t :: tail) y → Lexical (t :: tail) →
    Deletes deleted tail (names y) → Delimited rest → ∃ item, turn t (spared deleted tail ++ rest) = .enter item ∧
      item.Misses (spared deleted tail ++ rest) (value y) (declared y) ((names y).countP deleted) rest

theorem Recovers.sublist (hr : Recovers deleted turn closer entry names value declared) (ts : List Token) (y : β)
    (h : entry ts y) : (names y).Sublist ts := by
  obtain ⟨t, tail, rfl, -, hs⟩ := hr.begins h
  exact hs.cons t

theorem Recovers.delimited (hr : Recovers deleted turn closer entry names value declared) {ts rest : List Token}
    {ys : List β} (h : Entries entry ts ys) (hd : Deletes deleted ts (ys.flatMap names)) (hrest : Delimited rest) :
    Delimited (spared deleted ts ++ rest) := by
  cases h with
  | nil => exact hrest
  | comma ht he =>
    rw [spared_cons (hd.kept (he.names_sublist hr.sublist)).1]
    exact .cons (.inl ht) _
  | @entry as bs y ys hy he =>
    obtain ⟨t, tail, rfl, hk, hs⟩ := hr.begins hy
    have hfirst := (hd.split (hr.sublist _ _ hy) (he.names_sublist hr.sublist)).1
    rw [List.cons_append, spared_cons (hfirst.kept hs).1]
    exact .cons (.inr (.inr (.inr hk))) _

theorem Recovers.items (hr : Recovers deleted turn closer entry names value declared) (unfinished : Option Cause)
    {r : Token} (hk : r.kind = closer) (hinert : r.IsInert) {ts : List Token} {ys : List β} (rest : List Token)
    (hl : Lexical ts) (h : Entries entry ts ys) (hd : Deletes deleted ts (ys.flatMap names)) :
    (Reader.items turn unfinished).Misses (spared deleted ts ++ r :: rest) (ys.map value) (ys.flatMap declared)
      ((ys.flatMap names).countP deleted) rest := by
  induction h with
  | nil => exact misses_items_finish (hr.finish rest hk)
  | comma ht he ih =>
    have hrest := hd.kept (he.names_sublist hr.sublist)
    rw [spared_cons hrest.1]
    exact misses_items_pass (hr.pass _ ht) (ih (lexical_cons.mp hl).2 hrest.2)
  | @entry as bs y ys hy he ih =>
    rw [lexical_append] at hl
    obtain ⟨hfirst, hmore⟩ := hd.split (hr.sublist _ _ hy) (he.names_sublist hr.sublist)
    obtain ⟨t, tail, rfl, -, hs⟩ := hr.begins hy
    obtain ⟨ht, htail⟩ := hfirst.kept hs
    have hdelimited := hr.delimited he hmore (.cons hinert rest)
    obtain ⟨item, hturn, hitem⟩ := hr.item hy hl.1 htail hdelimited
    have hnames : (y :: ys).flatMap names = names y ++ ys.flatMap names := List.flatMap_cons
    rw [spared_append, spared_cons ht, List.append_assoc, hnames, List.countP_append]
    exact misses_items_enter hturn hitem (ih hl.2 hmore)

end Entries

end Grammar

end Knockout
