import Knockout.Proofs.Emission

namespace Knockout

def DiagnosticKind.strictOnly : List DiagnosticKind := [unknownAttribute, redeclaredBlock]

namespace Step

def IsSound : Step → Prop
  | report cause _ => cause.kind ∉ DiagnosticKind.strictOnly
  | _ => True

def IsPlain (step : Step) : Prop := step.IsSound ∧ ∀ d, step ≠ .declare d

theorem isPlain_report {cause : Cause} {found : Option Token} (h : cause.kind ∉ DiagnosticKind.strictOnly) :
    (report cause found).IsPlain :=
  ⟨h, fun _ => nofun⟩

theorem IsLocal.isPlain {step : Step} (h : step.IsLocal) : step.IsPlain := by
  cases step with
  | report cause found =>
    apply isPlain_report
    cases cause <;> simp_all [IsLocal, Cause.isLocal, Cause.kind, DiagnosticKind.strictOnly]
  | declare d => exact h.elim
  | skip => exact h.elim
  | take => exact ⟨trivial, fun _ => nofun⟩
  | ignore => exact ⟨trivial, fun _ => nofun⟩

end Step

theorem Reader.Emits.plain {α : Type} {r : Reader α} (h : r.Emits Step.IsLocal) : r.Emits Step.IsPlain :=
  h.mono fun _ => Step.IsLocal.isPlain

namespace Document

open Reader

variable {α β : Type}

section Lists

variable {P : Step → Prop} (hP : ∀ step : Step, step.IsPlain → P step)

include hP

theorem emits_items_of_plain {turn : Token → List Token → Turn α} {unfinished : Option Cause}
    (hend : ∀ cause ∈ unfinished, cause.kind ∉ DiagnosticKind.strictOnly)
    (hleave : ∀ t rest cause, turn t rest = .leave (some cause) → cause.kind ∉ DiagnosticKind.strictOnly)
    (henter : ∀ t rest item, turn t rest = .enter item → item.Emits P) : (items turn unfinished).Emits P := by
  refine emits_items (fun t => hP _ ⟨trivial, fun _ => nofun⟩) (fun t _ => hP _ ⟨trivial, fun _ => nofun⟩) ?_ ?_ henter
  · exact fun cause hc => hP _ (Step.isPlain_report (hend cause hc))
  · exact fun t rest cause hc => hP _ (Step.isPlain_report (hleave t rest cause hc))

theorem emits_list (fence : Fence) (context : Context) {item : Token → Option (Reader α)}
    (h : ∀ t reader, item t = some reader → reader.Emits P) : (list fence context item).Emits P := by
  have hunclosed : (Cause.unclosedList fence context).kind ∉ DiagnosticKind.strictOnly := by
    simp [Cause.kind, DiagnosticKind.strictOnly]
  rw [list]
  refine emits_items_of_plain hP ?_ ?_ ?_
  · intro cause hc
    rwa [← Option.some.inj hc]
  · intro t rest cause hc
    rwa [Option.some.inj (listTurn_eq_leave_iff.mp hc).1]
  · exact fun t rest reader ht => h t reader (item_of_listTurn_eq_enter ht)

end Lists

theorem emits_fixtures (keyword : Token) (h : ∀ t, (fixture t).Emits Step.IsPlain) (fence : Option Fence) :
    (items (phaseTurn keyword fence) (fence.map (.unclosedPhase · keyword.lexeme))).Emits Step.IsPlain := by
  have hend (cause : Cause) (hc : cause ∈ fence.map (.unclosedPhase · keyword.lexeme)) :
      cause.kind ∉ DiagnosticKind.strictOnly := by
    obtain ⟨f, -, rfl⟩ := Option.map_eq_some_iff.mp hc
    simp [Cause.kind, DiagnosticKind.strictOnly]
  apply emits_items_of_plain (fun _ => id) hend
  · exact fun t rest cause hc => hend cause (cause_of_phaseTurn hc).symm
  · intro t rest item ht
    obtain ⟨-, rfl⟩ := phaseTurn_eq_enter_iff.mp ht
    exact h t

theorem emits_pairs (fence : Fence) (context : Context) {valueOf : Token → Reader (Option α)}
    (h : ∀ key, (valueOf key).Emits Step.IsPlain) : (pairs fence context valueOf).Emits Step.IsPlain := by
  apply (emits_list (fun _ => id) fence context _).map
  intro key reader hr
  obtain ⟨-, hr⟩ := Option.ite_none_right_eq_some.mp hr
  rw [← Option.some.inj hr]
  apply (emits_takeIf_isLocal _).plain.bind
  intro o
  split
  · exact h key
  · exact ((emits_report fun _ => rfl).bind fun _ => (emits_takeIf_isLocal _).map _).plain

theorem Entry.plain {key : Option Token} {m n : Nat} {r : Reader α} (h : Entry key m n r) : r.Emits Step.IsPlain := by
  induction h with
  | brief h => exact h.emits.plain
  | after h _ ih => exact h.emits.plain.bind ih
  | map f _ ih => exact ih.map f
  | spare _ _ ih => exact ih
  | value => exact (emits_value _ _ _).plain
  | ignored => exact ((emits_ignore trivial).bind fun _ => (emits_value _ _ _).map _).plain
  | bracketed _ _ ih ih' =>
    apply (brief_takeKind (n := 0) (by decide)).emits.plain.bind
    intro o
    split
    · exact ih
    · exact ih'
  | list fence context _ ih => exact emits_list (fun _ => id) fence context ih
  | pairs fence context _ ih => exact emits_pairs fence context ih
  | fixtures keyword _ ih => exact (brief_phaseFence (n := 0) keyword).emits.plain.bind (emits_fixtures keyword ih)

end Document

end Knockout
