import Knockout.Proofs.AnchoredReports
import Knockout.Proofs.PrunedDocument
import Mathlib.Data.List.Forall2

namespace Knockout

section Indices

variable {α β : Type} {f : α → Option β}

theorem filter_range_succ (p : Nat → Bool) (n : Nat) : (List.range (n + 1)).filter p =
    (if p 0 then [0] else []) ++ ((List.range n).filter fun i => p (i + 1)).map (· + 1) := by
  have hmap : ((List.range n).map Nat.succ).filter p = ((List.range n).filter fun i => p (i + 1)).map (· + 1) :=
    List.filter_map
  rw [List.range_succ_eq_map, List.filter_cons, hmap]
  split <;> rfl

theorem filterMap_at_indices (f : α → Option β) (xs : List α) :
    List.Forall₂ (fun i y => ∃ x, xs[i]? = some x ∧ f x = some y)
      ((List.range xs.length).filter fun i => (xs[i]?.bind f).isSome) (xs.filterMap f) := by
  induction xs with
  | nil => exact .nil
  | cons x xs ih =>
    have hrest : List.Forall₂ (fun i y => ∃ z, (x :: xs)[i]? = some z ∧ f z = some y)
        (((List.range xs.length).filter fun i => (xs[i]?.bind f).isSome).map (· + 1)) (xs.filterMap f) :=
      List.forall₂_map_left_iff.mpr ih
    rw [List.length_cons, filter_range_succ]
    cases hx : f x with
    | none =>
      rw [if_neg (by simp [hx]), List.filterMap_cons_none hx]
      exact hrest
    | some y =>
      rw [if_pos (by simp [hx]), List.filterMap_cons_some hx]
      exact .cons ⟨x, rfl, hx⟩ hrest

end Indices

namespace Step

def unexpected? (continued : Bool) : Step → Option Diagnostic
  | skip t context => if continued then none else some (.ofToken t (.unexpected t.lexeme context))
  | _ => none

def skipLine (t : Token) (context : Context) : LogLine :=
  ⟨.trace, .document, s!"skipping '{t.lexeme}' in {context.name}"⟩

def skipLine? : Step → Option LogLine
  | skip t context => some (skipLine t context)
  | _ => none

end Step

/-- The steps that consume a token, each with whether the token before was skipped. -/
def trailed (skipping : Bool) (steps : List Step) : List (Bool × Step) :=
  (skipping :: (moves steps).map Step.isSkip).zip (moves steps)

theorem length_trailed (skipping : Bool) (steps : List Step) :
    (trailed skipping steps).length = (moves steps).length := by
  simp [trailed]

namespace Steps

theorem unexpected_diagnosticsFrom (strictness : Strictness) (last : Position) {m : Memory} {steps : List Step}
    (hr : ∀ cause found, .report cause found ∈ steps → cause.isStructural = true) :
    (diagnosticsFrom strictness last m steps).filter (fun d => d.kind = .unexpectedToken) =
      (trailed m.skipping steps).filterMap fun e => e.2.unexpected? e.1 := by
  induction steps generalizing m with
  | nil => rfl
  | cons step steps ih =>
    have hrest := fun m' : Memory => ih (m := m') fun cause found h => hr cause found (List.mem_cons_of_mem _ h)
    rw [diagnosticsFrom, List.filter_append, hrest]
    have hnone (h : ∀ d ∈ diagnostics strictness last m step, d.kind ≠ .unexpectedToken) :
        (diagnostics strictness last m step).filter (fun d => d.kind = .unexpectedToken) = [] := by
      apply List.filter_eq_nil_iff.mpr
      simpa using h
    have horderly (h : step.isOrderly = true) := hnone (kind_of_orderly h strictness last m)
    cases step with
    | take t => rfl
    | skip t context =>
      cases hs : m.skipping with
      | true => simp [diagnostics, hs, Memory.after, trailed, moves, Step.consumed?, Step.isSkip, Step.unexpected?]
      | false =>
        simp [diagnostics, hs, Memory.after, trailed, moves, Step.consumed?, Step.isSkip, Step.unexpected?,
          Diagnostic.kind, Diagnostic.ofToken, Cause.kind]
    | report cause found =>
      have hc := (Cause.category_of_isStructural (hr cause found List.mem_cons_self)).2.2
      rw [horderly (by simpa [Step.isOrderly] using hc)]
      rfl
    | ignore key =>
      rw [horderly rfl]
      rfl
    | declare d =>
      rw [horderly rfl]
      cases d <;> rfl

theorem skipLines (steps : List Step) : (steps.filterMap Step.logLine?).filter (fun line => line.level = .trace) =
    (moves steps).filterMap Step.skipLine? := by
  induction steps with
  | nil => rfl
  | cons step steps ih =>
    cases step with
    | take | report | ignore => exact ih
    | skip t context => exact congrArg (Step.skipLine t context :: ·) ih
    | declare d => cases d <;> exact ih

end Steps

theorem consumed_moves (steps : List Step) : (moves steps).map Step.consumed? = (consumed steps).map some := by
  induction steps with
  | nil => rfl
  | cons step steps ih =>
    cases step with
    | take t | skip t => exact congrArg (some t :: ·) ih
    | report | ignore | declare => exact ih

namespace Document

variable (tokens : List Token)

theorem length_moves_read : (moves (read tokens)).length = tokens.length := by
  have hmoves := congrArg List.length (consumed_moves (read tokens))
  rwa [List.length_map, List.length_map, consumed_read] at hmoves

def SkipsIn (context : Context) (i : Nat) (t : Token) : Prop :=
  tokens[i]? = some t ∧ (moves (read tokens))[i]? = some (.skip t context)

theorem skipsIn_of_move {i : Nat} {t : Token} {context : Context}
    (h : (moves (read tokens))[i]? = some (.skip t context)) : SkipsIn tokens context i t := by
  have hconsumed := congrArg (·[i]?) (consumed_moves (read tokens))
  simp only [consumed_read, List.getElem?_map, h, Option.map_some] at hconsumed
  obtain ⟨u, hu, he⟩ := Option.map_eq_some_iff.mp hconsumed.symm
  obtain rfl : u = t := Option.some.inj he
  exact ⟨hu, h⟩

theorem trailed_read (i : Nat) : (trailed false (read tokens))[i]? =
    ((moves (read tokens))[i]?).map fun step => (i != 0 && skips tokens (i - 1), step) := by
  unfold trailed skips
  generalize moves (read tokens) = ms
  rw [List.zip, List.getElem?_zipWith]
  cases i with
  | zero => cases ms <;> rfl
  | succ i =>
    rw [List.getElem?_cons_succ, List.getElem?_map, Nat.add_sub_cancel]
    cases hs : ms[i + 1]? with
    | none => cases ms[i]? <;> rfl
    | some step =>
      have hi : i < ms.length := Nat.lt_of_succ_lt (List.getElem?_eq_some_iff.mp hs).1
      rw [List.getElem?_eq_getElem hi]
      rfl

theorem trailed_unexpected (i : Nat) :
    ((trailed false (read tokens))[i]?.bind fun e => e.2.unexpected? e.1).isSome =
      (skips tokens i && (i = 0 || !skips tokens (i - 1))) := by
  have hhere : skips tokens i = ((moves (read tokens))[i]?).any Step.isSkip := rfl
  rw [trailed_read, hhere]
  cases (moves (read tokens))[i]? with
  | none => rfl
  | some step =>
    cases step with
    | skip t context =>
      by_cases h0 : i = 0
      · simp [h0, Step.unexpected?, Step.isSkip]
      · cases skips tokens (i - 1) <;> simp [h0, Step.unexpected?, Step.isSkip]
    | take | report | ignore | declare => rfl

def dropped : List Nat := (List.range tokens.length).filter (skips tokens)

theorem logged_skips : List.Forall₂
    (fun i line => ∃ t context, SkipsIn tokens context i t ∧ line = Step.skipLine t context)
    (dropped tokens) (((read tokens).filterMap Step.logLine?).filter fun line => line.level = .trace) := by
  have hlines := filterMap_at_indices Step.skipLine? (moves (read tokens))
  have hdropped : ((List.range (moves (read tokens)).length).filter fun i =>
      ((moves (read tokens))[i]?.bind Step.skipLine?).isSome) = dropped tokens := by
    rw [length_moves_read]
    refine List.filter_congr fun i _ => ?_
    unfold skips
    cases (moves (read tokens))[i]? with
    | none => rfl
    | some step => cases step <;> rfl
  rw [Steps.skipLines, ← hdropped]
  refine hlines.imp ?_
  rintro i line ⟨step, hstep, hline⟩
  cases step with
  | skip t context => exact ⟨t, context, skipsIn_of_move tokens hstep, (Option.some.inj hline).symm⟩
  | take | report | ignore | declare => cases hline

theorem runs_dropped : ((List.range (trailed false (read tokens)).length).filter fun i =>
    ((trailed false (read tokens))[i]?.bind fun e => e.2.unexpected? e.1).isSome) =
      (dropped tokens).filter fun i => i = 0 ∨ i - 1 ∉ dropped tokens := by
  rw [dropped, List.filter_filter, length_trailed, length_moves_read]
  refine List.filter_congr fun i hi => ?_
  have hbefore : i - 1 ∈ dropped tokens ↔ skips tokens (i - 1) = true := by
    simp only [dropped, List.mem_filter, List.mem_range] at hi ⊢
    exact and_iff_right (Nat.lt_of_le_of_lt (Nat.sub_le i 1) hi)
  rw [trailed_unexpected, ← dropped]
  simp [hbefore, Bool.and_comm]

theorem reported_runs (strictness : Strictness) (last : Position) :
    List.Forall₂ (fun i d => ∃ t context, SkipsIn tokens context i t ∧ d = .ofToken t (.unexpected t.lexeme context))
      ((dropped tokens).filter fun i => i = 0 ∨ i - 1 ∉ dropped tokens)
      ((Steps.diagnosticsFrom strictness last {} (read tokens)).filter fun d => d.kind = .unexpectedToken) := by
  have hreports := filterMap_at_indices (fun e => e.2.unexpected? e.1) (trailed false (read tokens))
  rw [Steps.unexpected_diagnosticsFrom strictness last fun _ _ h => (read_walk tokens).isStructural h, ← runs_dropped]
  refine hreports.imp ?_
  rintro i d ⟨⟨continued, step⟩, hstep, hd⟩
  rw [trailed_read] at hstep
  obtain ⟨step', hm, he⟩ := Option.map_eq_some_iff.mp hstep
  obtain ⟨-, rfl⟩ := Prod.mk.inj he
  cases step' with
  | skip t context =>
    obtain ⟨-, hd⟩ := Option.ite_none_left_eq_some.mp hd
    exact ⟨t, context, skipsIn_of_move tokens hm, (Option.some.inj hd).symm⟩
  | take | report | ignore | declare => cases hd

end Document

/--
A line of the log tells each token that is skipped. Of each run of skipped tokens the first one is reported, and nothing
else is reported to be unexpected.
-/
theorem reported_once_per_run (options : Options) (tokens : List Token) :
    let dropped := (List.range tokens.length).filter (Document.skips tokens)
    List.Forall₂ (fun i line => ∃ t context, Document.SkipsIn tokens context i t ∧ line = Step.skipLine t context)
        dropped (((Document.read tokens).filterMap Step.logLine?).filter fun line => line.level = .trace) ∧
      List.Forall₂
        (fun i d => ∃ t context, Document.SkipsIn tokens context i t ∧ d = .ofToken t (.unexpected t.lexeme context))
        (dropped.filter fun i => i = 0 ∨ i - 1 ∉ dropped)
        ((assemble options tokens).diagnostics.filter fun d => d.kind = .unexpectedToken) :=
  ⟨Document.logged_skips tokens, Document.reported_runs tokens options.strictness _⟩

end Knockout
