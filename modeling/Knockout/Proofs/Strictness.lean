import Knockout.Assembly
import Knockout.Proofs.PlainReading

namespace Knockout

namespace Document

open Reader

variable {α : Type}

theorem Closing.sound {m n : Nat} {r : Reader Unit} (h : Closing m n r) : r.Emits Step.IsSound := by
  induction h with
  | result => exact emits_pure ()
  | declare => exact emits_declare trivial
  | semicolon _ ih => exact (emits_takeIf (fun _ => trivial) _).bind fun _ => ih

theorem Part.sound {m n : Nat} {r : Reader α} (h : Part m n r) : r.Emits Step.IsSound := by
  induction h with
  | entry h => exact h.plain.mono fun _ h => h.1
  | after h _ ih => exact (h.emits.plain.mono fun _ h => h.1).bind ih
  | list fence context _ ih => exact emits_list (fun _ h => h.1) fence context ih
  | closed _ hlast ih => exact ih.bind fun x => (hlast x).sound

theorem sound_read (tokens : List Token) : ∀ step ∈ read tokens, step.IsSound := by
  have hend : ∀ cause ∈ (none : Option Cause), cause.kind ∉ DiagnosticKind.strictOnly := fun _ => nofun
  refine emits_items_of_plain (P := Step.IsSound) (fun _ h => h.1) hend ?_ ?_ tokens
  · exact fun t rest cause hc => absurd hc (documentTurn_ne_leave t rest _)
  · exact fun t rest block ht => (part_block? (documentTurn_eq_enter_iff.mp ht)).sound

end Document

namespace Steps

variable {last : Position} {m : Memory}

theorem diagnostics_lenient {step : Step} (h : step.IsSound) : diagnostics .lenient last m step =
    (diagnostics .strict last m step).filter fun d => d.kind ∉ DiagnosticKind.strictOnly := by
  cases step with
  | take t => rfl
  | skip t context =>
    simp only [diagnostics]
    split <;> rfl
  | report cause found =>
    have hkept (text : String) (position : Position) :
        ([⟨cause, text, position⟩] : List Diagnostic).filter (fun d => d.kind ∉ DiagnosticKind.strictOnly) =
          [⟨cause, text, position⟩] :=
      List.filter_cons_of_pos (decide_eq_true h)
    cases found with
    | none => exact (hkept _ _).symm
    | some t => exact (hkept _ _).symm
  | ignore key => rfl
  | declare d =>
    cases d with
    | info keyword entries =>
      simp only [diagnostics]
      split <;> split <;> first | rfl | simp_all
    | teams => rfl
    | phase keyword fixtures =>
      simp only [diagnostics]
      split <;> split <;> first | rfl | simp_all

theorem diagnosticsFrom_lenient {steps : List Step} (h : ∀ step ∈ steps, step.IsSound) :
    diagnosticsFrom .lenient last m steps =
      (diagnosticsFrom .strict last m steps).filter fun d => d.kind ∉ DiagnosticKind.strictOnly := by
  induction steps generalizing m with
  | nil => rfl
  | cons step rest ih =>
    rw [diagnosticsFrom, diagnosticsFrom, List.filter_append, diagnostics_lenient (h step List.mem_cons_self),
      ih fun s hs => h s (List.mem_cons_of_mem _ hs)]

end Steps

theorem assemble_lenient (policy : Redeclaration) (tokens : List Token) :
    (assemble ⟨policy, .lenient⟩ tokens).tournament = (assemble ⟨policy, .strict⟩ tokens).tournament ∧
      (assemble ⟨policy, .lenient⟩ tokens).diagnostics = ((assemble ⟨policy, .strict⟩ tokens).diagnostics.filter
        fun d => d.kind ∉ DiagnosticKind.strictOnly) ∧
      ∀ d ∈ (assemble ⟨policy, .lenient⟩ tokens).diagnostics, d.kind ∉ DiagnosticKind.strictOnly := by
  have hdiagnostics : (assemble ⟨policy, .lenient⟩ tokens).diagnostics =
      (assemble ⟨policy, .strict⟩ tokens).diagnostics.filter fun d => d.kind ∉ DiagnosticKind.strictOnly :=
    Steps.diagnosticsFrom_lenient (Document.sound_read tokens)
  refine ⟨rfl, hdiagnostics, ?_⟩
  rw [hdiagnostics]
  intro d hd
  exact of_decide_eq_true (List.mem_filter.mp hd).2

end Knockout
