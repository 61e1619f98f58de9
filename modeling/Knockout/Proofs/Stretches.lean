import Mathlib.Data.List.Forall2
import Mathlib.Data.List.Infix
import Knockout.Proofs.Turns

namespace Knockout

/-- Each value has a stretch of the tokens of its own, one stretch after another. -/
inductive Spread {α : Type} (part : List Token → α → Prop) : List Token → List α → Prop
  | nil : Spread part [] []
  | skip (t : Token) {tokens : List Token} {xs : List α} : Spread part tokens xs → Spread part (t :: tokens) xs
  | next {stretch tokens : List Token} {x : α} {xs : List α} : part stretch x → Spread part tokens xs →
    Spread part (stretch ++ tokens) (x :: xs)

def Portioned {α : Type} (part : List Token → α → Prop) (tokens : List Token) (xs : List α) : Prop :=
  ∃ lead stretches, tokens = lead ++ stretches.flatten ∧ List.Forall₂ part stretches xs

def namesIn (tokens : List Token) : List String := (tokens.filter Token.isName).map Token.lexeme

theorem namesIn_append (a b : List Token) : namesIn (a ++ b) = namesIn a ++ namesIn b := by
  rw [namesIn, List.filter_append, List.map_append]
  rfl

theorem namesIn_sublist {a b : List Token} (h : a.Sublist b) : (namesIn a).Sublist (namesIn b) :=
  (h.filter _).map _

namespace Spread

variable {α β : Type} {part : List Token → α → Prop} {tokens : List Token} {xs : List α}

theorem none (part : List Token → α → Prop) (tokens : List Token) : Spread part tokens [] := by
  induction tokens with
  | nil => exact .nil
  | cons t tokens ih => exact .skip t ih

theorem append {more : List Token} {ys : List α} (h : Spread part tokens xs) (h' : Spread part more ys) :
    Spread part (tokens ++ more) (xs ++ ys) := by
  induction h with
  | nil => exact h'
  | skip t _ ih => exact .skip t ih
  | next hx _ ih =>
    rw [List.append_assoc]
    exact .next hx ih

theorem after (before : List Token) (h : Spread part tokens xs) : Spread part (before ++ tokens) xs :=
  (Spread.none part before).append h

theorem before (h : Spread part tokens xs) (after : List Token) : Spread part (tokens ++ after) xs := by
  have := h.append (Spread.none part after)
  rwa [List.append_nil] at this

theorem single {x : α} (h : part tokens x) : Spread part tokens [x] := by
  have := Spread.next h .nil
  rwa [List.append_nil] at this

theorem sublist (h : Spread part tokens xs) {ys : List α} (hs : ys.Sublist xs) : Spread part tokens ys := by
  induction h generalizing ys with
  | nil =>
    rw [List.sublist_nil.mp hs]
    exact .nil
  | skip t _ ih => exact .skip t (ih hs)
  | @next stretch tokens x xs hx h ih =>
    rcases List.sublist_cons_iff.mp hs with hys | ⟨zs, rfl, hzs⟩
    · exact (ih hys).after stretch
    · exact .next hx (ih hzs)

theorem flatMap {part' : List Token → β → Prop} {f : α → List β} (h : Spread part tokens xs)
    (hf : ∀ stretch x, part stretch x → Spread part' stretch (f x)) : Spread part' tokens (xs.flatMap f) := by
  induction h with
  | nil => exact .nil
  | skip t _ ih => exact .skip t ih
  | next hx _ ih => exact (hf _ _ hx).append ih

theorem mono {part' : List Token → α → Prop} (h : Spread part tokens xs)
    (hpart : ∀ stretch x, part stretch x → part' stretch x) : Spread part' tokens xs := by
  induction h with
  | nil => exact .nil
  | skip t _ ih => exact .skip t ih
  | next hx _ ih => exact .next (hpart _ _ hx) ih

theorem filterMap {part' : List Token → β → Prop} {f : α → Option β} (h : Spread part tokens xs)
    (hf : ∀ stretch x, part stretch x → ∀ y ∈ f x, part' stretch y) : Spread part' tokens (xs.filterMap f) := by
  rw [List.filterMap_eq_flatMap_toList]
  refine h.flatMap fun stretch x hx => ?_
  cases hy : f x with
  | none => exact .none part' stretch
  | some y => exact .single (hf stretch x hx y hy)

theorem somes {os : List (Option α)} (h : Spread (fun stretch o => ∀ x ∈ o, part stretch x) tokens os) :
    Spread part tokens (os.filterMap id) :=
  h.filterMap fun _ _ ho => ho

theorem map {part' : List Token → β → Prop} {f : α → β} (h : Spread part tokens xs)
    (hf : ∀ stretch x, part stretch x → part' stretch (f x)) : Spread part' tokens (xs.map f) := by
  rw [← List.filterMap_eq_map]
  refine h.filterMap fun stretch x hx => ?_
  rintro _ ⟨⟩
  exact hf stretch x hx

theorem exists_stretch (h : Spread part tokens xs) {x : α} (hx : x ∈ xs) :
    ∃ stretch, stretch <:+: tokens ∧ part stretch x := by
  induction h with
  | nil => cases hx
  | skip t _ ih =>
    obtain ⟨stretch, hs, hp⟩ := ih hx
    exact ⟨stretch, List.infix_cons hs, hp⟩
  | @next stretch tokens y xs hy _ ih =>
    rcases List.mem_cons.mp hx with rfl | hx
    · exact ⟨stretch, List.infix_append [] stretch tokens, hy⟩
    · obtain ⟨stretch', hs, hp⟩ := ih hx
      exact ⟨stretch', hs.trans (List.suffix_append stretch tokens).isInfix, hp⟩

theorem names_sublist {f : α → List String} (h : Spread part tokens xs)
    (hf : ∀ stretch x, part stretch x → (f x).Sublist (namesIn stretch)) : (xs.flatMap f).Sublist (namesIn tokens) := by
  induction h with
  | nil => exact List.Sublist.refl []
  | skip t _ ih => exact ih.trans (namesIn_sublist (List.sublist_cons_self _ _))
  | next hx _ ih =>
    rw [List.flatMap_cons, namesIn_append]
    exact (hf _ _ hx).append ih

theorem portioned (h : Spread part tokens xs) (hpart : ∀ stretch more x, part stretch x → part (stretch ++ more) x) :
    Portioned part tokens xs := by
  induction h with
  | nil => exact ⟨[], [], rfl, .nil⟩
  | skip t _ ih =>
    obtain ⟨lead, stretches, rfl, hs⟩ := ih
    exact ⟨t :: lead, stretches, rfl, hs⟩
  | @next stretch tokens x xs hx _ ih =>
    obtain ⟨lead, stretches, rfl, hs⟩ := ih
    refine ⟨[], (stretch ++ lead) :: stretches, ?_, .cons (hpart stretch lead x hx) hs⟩
    rw [List.nil_append, List.flatten_cons, List.append_assoc]

end Spread

namespace Reader

variable {α β : Type} {P : List Token → α → Prop} {Q : List Token → β → Prop}

def Draws (P : List Token → α → Prop) (r : Reader α) : Prop :=
  ∀ tokens, P (consumed (r.run tokens).steps) (r.run tokens).value

theorem draws_pure {x : α} (h : P [] x) : Draws P (pure x) := fun _ => h

theorem draws_takeIf (accepts : Token → Bool) :
    Draws (fun stretch o => stretch = o.toList ∧ ∀ t ∈ o, accepts t = true) (takeIf accepts) := by
  intro tokens
  cases tokens with
  | nil => exact ⟨rfl, fun _ h => by cases h⟩
  | cons t rest =>
    by_cases ht : accepts t = true
    · simp [takeIf, ht]
    · simp [takeIf, ht]

theorem draws_any (r : Reader α) : Draws (fun _ _ => True) r := fun _ => trivial

theorem Draws.mono {P' : List Token → α → Prop} {r : Reader α} (h : Draws P r)
    (hP : ∀ stretch x, P stretch x → P' stretch x) : Draws P' r :=
  fun tokens => hP _ _ (h tokens)

theorem Draws.bind {r : Reader α} {f : α → Reader β} (hr : Draws P r)
    (hf : ∀ stretch x, P stretch x → Draws (fun more y => Q (stretch ++ more) y) (f x)) : Draws Q (r >>= f) := by
  intro tokens
  rw [run_bind, consumed_append]
  exact hf _ _ (hr tokens) _

theorem Draws.map {r : Reader α} {f : α → β} (hr : Draws P r) (hf : ∀ stretch x, P stretch x → Q stretch (f x)) :
    Draws Q (r >>= fun x => pure (f x)) := by
  refine hr.bind fun stretch x hx => draws_pure ?_
  rw [List.append_nil]
  exact hf stretch x hx

theorem draws_items {turn : Token → List Token → Turn α} {unfinished : Option Cause}
    (h : ∀ t rest item, turn t rest = .enter item → Draws (fun stretch x => P (t :: stretch) x) item) :
    Draws (Spread P) (items turn unfinished) := by
  intro tokens
  change Spread P (consumed (itemsFrom turn unfinished tokens).steps) (itemsFrom turn unfinished tokens).value
  fun_induction itemsFrom turn unfinished tokens with
  | case1 => exact .none P _
  | case2 => exact .none P _
  | case3 => exact .none P _
  | case4 t rest _ more ih => exact .skip t ih
  | case5 t rest item ht first more ih =>
    rw [consumed_take, consumed_append, ← List.cons_append]
    exact .next (h t rest item ht rest) ih
  | case6 t rest context _ more ih => exact .skip t ih

end Reader

end Knockout
