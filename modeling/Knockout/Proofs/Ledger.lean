import Knockout.Proofs.Redeclarations

namespace Knockout

namespace Steps

/-- What the reading keeps in one pass over the tokens: its place, the last token skipped, and what has been stored. -/
structure Ledger where
  place : Nat := 0
  lastSkip : Option Nat := none
  infoStored : Bool := false
  bracket : KeyMap (List Fixture) := .empty

namespace Ledger

def continuesRun (l : Ledger) : Bool := 0 < l.place && l.lastSkip = some (l.place - 1)

def after (policy : Redeclaration) (l : Ledger) : Step → Ledger
  | .take _ => { l with place := l.place + 1 }
  | .skip .. => { l with place := l.place + 1, lastSkip := some l.place }
  | .declare (.info ..) => { l with infoStored := true }
  | .declare (.phase keyword fixtures) =>
    { l with bracket := l.bracket.insertWith (policy.combine (· ++ ·)) keyword.lexeme fixtures }
  | _ => l

def diagnostics (strictness : Strictness) (last : Position) (l : Ledger) : Step → List Diagnostic
  | .take _ => []
  | .skip t context => if l.continuesRun then [] else [.ofToken t (.unexpected t.lexeme context)]
  | .report cause found => [found.elim ⟨cause, "end of input", last⟩ (Diagnostic.ofToken · cause)]
  | .ignore key => if strictness = .strict then [.ofToken key (.unknownAttribute key.lexeme)] else []
  | .declare (.info keyword _) =>
    if strictness = .strict ∧ l.infoStored then [.ofToken keyword .redeclaredInfo] else []
  | .declare (.phase keyword _) =>
    if strictness = .strict ∧ l.bracket.contains keyword.lexeme then
      [.ofToken keyword (.redeclaredPhase keyword.lexeme)]
    else []
  | .declare (.teams _) => []

def diagnosticsFrom (policy : Redeclaration) (strictness : Strictness) (last : Position) :
    Ledger → List Step → List Diagnostic
  | _, [] => []
  | l, step :: rest =>
    l.diagnostics strictness last step ++ diagnosticsFrom policy strictness last (l.after policy step) rest

theorem bracket_after (policy : Redeclaration) (steps : List Step) :
    (steps.foldl (after policy) {}).bracket = (tournament policy steps).bracket := by
  have hfold (l : Ledger) : (steps.foldl (after policy) l).bracket =
      (phases steps).foldl (fun m e => m.insertWith (policy.combine (· ++ ·)) e.1 e.2) l.bracket := by
    induction steps generalizing l with
    | nil => rfl
    | cons step steps ih =>
      rw [List.foldl_cons, ih]
      rcases step with _ | _ | _ | _ | (_ | _ | _) <;> rfl
  exact hfold {}

end Ledger

structure Memory.Recalls (m : Memory) (l : Ledger) : Prop where
  behind : ∀ i ∈ l.lastSkip, i < l.place
  skipping : m.skipping = l.continuesRun
  info : m.info = l.infoStored
  phases : ∀ phase, phase ∈ m.phases ↔ l.bracket.contains phase = true

variable {m : Memory} {l : Ledger}

theorem Memory.recalls_start : Memory.Recalls {} {} where
  behind := nofun
  skipping := rfl
  info := rfl
  phases _ := iff_of_false List.not_mem_nil Bool.false_ne_true

theorem contains_insertWith {α : Type} (combine : α → α → α) (b : KeyMap α) (key other : String) (value : α) :
    (b.insertWith combine key value).contains other = (decide (other = key) || b.contains other) := by
  rw [KeyMap.contains, KeyMap.contains, KeyMap.find?_insertWith]
  by_cases h : other = key
  · simp [h]
  · simp [h]

theorem Memory.Recalls.after (h : m.Recalls l) (policy : Redeclaration) (step : Step) :
    (m.after step).Recalls (l.after policy step) := by
  cases step with
  | take t =>
    refine ⟨fun i hi => Nat.lt_succ_of_lt (h.behind i hi), ?_, h.info, h.phases⟩
    change false = (Ledger.mk (l.place + 1) l.lastSkip l.infoStored l.bracket).continuesRun
    have hnot : l.lastSkip ≠ some l.place := fun hs => Nat.lt_irrefl _ (h.behind _ hs)
    simp [Ledger.continuesRun, hnot]
  | skip t context =>
    refine ⟨?_, ?_, h.info, h.phases⟩
    · rintro i ⟨⟩
      exact Nat.lt_succ_self _
    · simp [Memory.after, Ledger.after, Ledger.continuesRun]
  | report cause found => exact h
  | ignore key => exact h
  | declare d =>
    cases d with
    | info keyword entries => exact ⟨h.behind, h.skipping, rfl, h.phases⟩
    | teams teams => exact h
    | phase keyword fixtures =>
      refine ⟨h.behind, h.skipping, h.info, fun phase => ?_⟩
      change phase ∈ keyword.lexeme :: m.phases ↔ (l.bracket.insertWith _ keyword.lexeme fixtures).contains phase = true
      rw [contains_insertWith, List.mem_cons, h.phases, Bool.or_eq_true, decide_eq_true_iff]

theorem Memory.Recalls.diagnostics (h : m.Recalls l) (strictness : Strictness) (last : Position) (step : Step) :
    Steps.diagnostics strictness last m step = l.diagnostics strictness last step := by
  cases step with
  | take | ignore => rfl
  | skip t context => simp only [Steps.diagnostics, Ledger.diagnostics, h.skipping]
  | report cause found => cases found <;> rfl
  | declare d =>
    cases d with
    | info keyword entries => simp only [Steps.diagnostics, Ledger.diagnostics, h.info]
    | teams teams => rfl
    | phase keyword fixtures => simp only [Steps.diagnostics, Ledger.diagnostics, h.phases]

theorem Memory.Recalls.diagnosticsFrom (h : m.Recalls l) (policy : Redeclaration) (strictness : Strictness)
    (last : Position) (steps : List Step) :
    Steps.diagnosticsFrom strictness last m steps = Ledger.diagnosticsFrom policy strictness last l steps := by
  induction steps generalizing m l with
  | nil => rfl
  | cons step steps ih => rw [Steps.diagnosticsFrom, Ledger.diagnosticsFrom, h.diagnostics, ih (h.after policy step)]

/-- A phase is reported where the bracket stored so far contains it, and the bracket stored in the end is the result. -/
theorem assemble_of_ledger (options : Options) (tokens : List Token) :
    let steps := Document.read tokens
    (assemble options tokens).tournament.bracket = (steps.foldl (Ledger.after options.redeclaration) {}).bracket ∧
      (assemble options tokens).diagnostics = Ledger.diagnosticsFrom options.redeclaration options.strictness
        (lastPosition tokens) {} steps :=
  ⟨(Ledger.bracket_after _ _).symm, Memory.recalls_start.diagnosticsFrom _ _ _ _⟩

end Steps

end Knockout
