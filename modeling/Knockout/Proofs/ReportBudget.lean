import Knockout.Assembly
import Knockout.Proofs.Routines

namespace Knockout

def Step.mayReport : Step → Bool
  | take _ | declare (.teams _) => false
  | _ => true

namespace Steps

variable (strictness : Strictness) (last : Position)

theorem length_diagnostics_le (m : Memory) (step : Step) :
    (diagnostics strictness last m step).length ≤ step.mayReport.toNat := by
  cases step with
  | take t => exact Nat.le_refl 0
  | skip t context =>
    simp only [diagnostics]
    split
    · exact Nat.zero_le _
    · exact Nat.le_refl 1
  | report cause found => cases found <;> exact Nat.le_refl 1
  | ignore key =>
    simp only [diagnostics]
    split
    · exact Nat.le_refl 1
    · exact Nat.zero_le _
  | declare d =>
    cases d with
    | info | phase =>
      simp only [diagnostics]
      split
      · exact Nat.le_refl 1
      · exact Nat.zero_le _
    | teams => exact Nat.le_refl 0

def reportable (steps : List Step) : Nat := steps.countP Step.mayReport

@[simp]
theorem reportable_nil : reportable [] = 0 := rfl

theorem reportable_cons (step : Step) (steps : List Step) :
    reportable (step :: steps) = step.mayReport.toNat + reportable steps := by
  cases h : step.mayReport <;> simp [reportable, h, Nat.add_comm]

@[simp]
theorem reportable_take (t : Token) (steps : List Step) : reportable (.take t :: steps) = reportable steps :=
  List.countP_cons_of_neg Bool.false_ne_true

@[simp]
theorem reportable_skip (t : Token) (context : Context) (steps : List Step) :
    reportable (.skip t context :: steps) = reportable steps + 1 := List.countP_cons_of_pos rfl

@[simp]
theorem reportable_append (a b : List Step) : reportable (a ++ b) = reportable a + reportable b := List.countP_append

theorem reportable_reports (cause : Option Cause) (found : Option Token) :
    reportable (cause.toList.map (.report · found)) = cause.toList.length := by
  cases cause <;> rfl

theorem length_diagnosticsFrom_le (m : Memory) (steps : List Step) :
    (diagnosticsFrom strictness last m steps).length ≤ reportable steps := by
  induction steps generalizing m with
  | nil => exact Nat.le_refl 0
  | cons step steps ih =>
    have hstep := length_diagnostics_le strictness last m step
    have hrest := ih (m.after step)
    rw [diagnosticsFrom, List.length_append, reportable_cons]
    omega

end Steps

namespace Reader

variable {α β : Type} {start k : Nat} {left : α → Nat}

/--
Of `start` reports that are paid for beforehand, and three more for each token that is consumed, those that the reader
makes are taken, and at least `left x` remain when it reads `x`.
-/
def Affords (start : Nat) (left : α → Nat) (r : Reader α) : Prop := ∀ tokens,
  Steps.reportable (r.run tokens).steps + left (r.run tokens).value ≤
    start + 3 * (consumed (r.run tokens).steps).length

theorem Affords.mono {r : Reader α} (h : r.Affords start left) {start' : Nat} (hle : start ≤ start') :
    r.Affords start' left := by
  intro tokens
  have := h tokens
  omega

theorem Affords.frame {r : Reader α} (h : r.Affords start left) (k : Nat) :
    r.Affords (start + k) fun x => left x + k := by
  intro tokens
  have := h tokens
  dsimp only
  omega

theorem Affords.bind {r : Reader α} {next : α → Reader β} {left' : β → Nat} (h : r.Affords start left)
    (hn : ∀ x, (next x).Affords (left x) left') : (r >>= next).Affords start left' := by
  intro tokens
  have hfirst := h tokens
  have hsecond := hn (r.run tokens).value (r.run tokens).rest
  simp only [run_bind, Steps.reportable_append, consumed_append, List.length_append]
  omega

theorem affords_pure {x : α} (h : left x ≤ start) : (pure x : Reader α).Affords start left := by
  intro tokens
  simpa using h

theorem Affords.map {r : Reader α} (h : r.Affords start fun _ => k) (f : α → β) :
    (r >>= fun x => pure (f x)).Affords start fun _ => k :=
  h.bind fun _ => affords_pure (Nat.le_refl k)

theorem affords_report (cause : Cause) : (report cause).Affords (k + 1) fun _ => k := by
  intro tokens
  exact Nat.le_of_eq (Nat.add_comm 1 k)

theorem affords_reportAt (t : Token) (cause : Cause) : (reportAt t cause).Affords (k + 1) fun _ => k := by
  intro tokens
  exact Nat.le_of_eq (Nat.add_comm 1 k)

theorem affords_ignore (key : Token) : (ignore key).Affords (k + 1) fun _ => k := by
  intro tokens
  exact Nat.le_of_eq (Nat.add_comm 1 k)

theorem affords_declare (d : Declaration) : (declare d).Affords (k + 1) fun _ => k := by
  intro tokens
  have := (Step.declare d).mayReport.toNat_le
  simp only [declare, Steps.reportable_cons, Steps.reportable_nil]
  omega

theorem affords_takeIf (accepts : Token → Bool) : (takeIf accepts).Affords k fun o => k + 3 * o.toList.length := by
  intro tokens
  cases tokens with
  | nil => simp [takeIf]
  | cons t rest =>
    by_cases h : accepts t = true
    · simp [takeIf, h]
    · simp [takeIf, h]

theorem affords_takeIf_bind {accepts : Token → Bool} {next : Option Token → Reader α}
    (hsome : ∀ t, (next (some t)).Affords (k + 3) left) (hnone : (next none).Affords k left) :
    (takeIf accepts >>= next).Affords k left := by
  apply (affords_takeIf accepts).bind
  intro o
  cases o with
  | none => exact hnone
  | some t => exact hsome t

theorem affords_optional (accepts : Token → Bool) : (takeIf accepts).Affords k fun _ => k := by
  intro tokens
  have := affords_takeIf (k := k) accepts tokens
  dsimp only at this ⊢
  omega

theorem affords_items {turn : Token → List Token → Turn α} {unfinished : Option Cause}
    (hend : unfinished.toList.length ≤ start)
    (hleave : ∀ t rest cause, turn t rest = .leave cause → cause.toList.length ≤ start)
    (henter : ∀ t rest item, turn t rest = .enter item → item.Affords 3 fun _ => 0) :
    (items turn unfinished).Affords start fun _ => 0 := by
  intro tokens
  change Steps.reportable (itemsFrom turn unfinished tokens).steps + 0 ≤
    start + 3 * (consumed (itemsFrom turn unfinished tokens).steps).length
  fun_induction itemsFrom turn unfinished tokens with
  | case1 =>
    rw [Steps.reportable_reports]
    omega
  | case2 => exact Nat.zero_le _
  | case3 t rest cause ht =>
    have := hleave t rest cause ht
    rw [Steps.reportable_reports]
    omega
  | case4 t rest _ more ih =>
    rw [Steps.reportable_take, consumed_take, List.length_cons]
    simp only [more]
    omega
  | case5 t rest item ht first more ih =>
    have hitem := henter t rest item ht rest
    rw [Steps.reportable_take, Steps.reportable_append, consumed_take, List.length_cons, consumed_append,
      List.length_append]
    simp only [more, first] at ih ⊢
    omega
  | case6 t rest context _ more ih =>
    rw [Steps.reportable_skip, consumed_skip, List.length_cons]
    simp only [more]
    omega

end Reader

namespace Document

open Reader

variable {α : Type} {k : Nat}

theorem affords_value (fence : Fence) (accepts : Token → Bool) (key : Token) :
    (value fence accepts key).Affords (k + 1) fun _ => k := by
  apply affords_takeIf_bind
  · exact fun _ => affords_pure (by omega)
  · apply affords_takeIf_bind
    · intro t
      exact ((affords_reportAt t _).map _).mono (by omega)
    · exact (affords_report _).map _

theorem affords_list (fence : Fence) (context : Context) {item : Token → Option (Reader α)}
    (h : ∀ t reader, item t = some reader → reader.Affords 3 fun _ => 0) :
    (list fence context item).Affords (k + 1) fun _ => k := by
  have hlist : (list fence context item).Affords 1 fun _ => 0 := by
    rw [list]
    apply affords_items
    · exact Nat.le_refl 1
    · intro t rest cause hc
      rw [(listTurn_eq_leave_iff.mp hc).1]
      exact Nat.le_refl 1
    · exact fun t rest reader ht => h t reader (item_of_listTurn_eq_enter ht)
  simpa only [Nat.add_comm, Nat.add_zero] using hlist.frame k

theorem affords_pairs (fence : Fence) (context : Context) {valueOf : Token → Reader (Option α)}
    (h : ∀ key, (valueOf key).Affords 6 fun _ => 0) : (pairs fence context valueOf).Affords (k + 1) fun _ => k := by
  apply (affords_list fence context _).map
  intro key reader hr
  obtain ⟨-, hr⟩ := Option.ite_none_right_eq_some.mp hr
  rw [← Option.some.inj hr]
  apply affords_takeIf_bind
  · exact fun _ => h key
  · apply (affords_report _).bind
    intro _
    apply affords_takeIf_bind
    · exact fun _ => affords_pure (by omega)
    · exact affords_pure (by omega)

theorem affords_phaseFence (keyword : Token) :
    (phaseFence keyword).Affords (k + 1) fun fence => k + fence.toList.length := by
  apply affords_takeIf_bind
  · exact fun _ => affords_pure (by simp)
  · apply affords_takeIf_bind
    · exact fun _ => affords_pure (by simp)
    · apply (affords_report _).bind
      exact fun _ => affords_pure (by simp)

theorem affords_fixtures (keyword : Token) (h : ∀ t, (fixture t).Affords 3 fun _ => 0) :
    (phaseFence keyword >>= fun fence =>
      items (phaseTurn keyword fence) (fence.map (.unclosedPhase · keyword.lexeme))).Affords (k + 1) fun _ => k := by
  apply (affords_phaseFence keyword).bind
  intro fence
  have hgames : (items (phaseTurn keyword fence) (fence.map (.unclosedPhase · keyword.lexeme))).Affords
      fence.toList.length fun _ => 0 := by
    apply affords_items
    · cases fence <;> simp
    · intro t rest cause hc
      rw [cause_of_phaseTurn hc]
      cases fence <;> simp
    · intro t rest item ht
      obtain ⟨-, rfl⟩ := phaseTurn_eq_enter_iff.mp ht
      exact h t
  simpa only [Nat.add_comm, Nat.add_zero] using hgames.frame k

variable {m n : Nat} {r : Reader α}

theorem Brief.affords (h : Brief m n r) : r.Affords m fun _ => n := by
  induction h with
  | result x h => exact affords_pure h
  | take => exact affords_optional _
  | report => exact affords_report _
  | bind _ _ ih ih' => exact ih.bind ih'

theorem Entry.affords {key : Option Token} (h : Entry key m n r) : r.Affords m fun _ => n := by
  induction h with
  | brief h => exact h.affords
  | after h _ ih => exact h.affords.bind ih
  | map f _ ih => exact ih.map f
  | spare _ hle ih => exact ih.mono hle
  | value => exact affords_value _ _ _
  | ignored => exact (affords_ignore _).bind fun _ => (affords_value _ _ _).map _
  | bracketed _ _ ih ih' => exact affords_takeIf_bind (fun _ => ih) ih'
  | list fence context _ ih => exact affords_list fence context ih
  | pairs fence context _ ih => exact affords_pairs fence context ih
  | fixtures keyword _ ih => exact affords_fixtures keyword ih

theorem Closing.affords {r : Reader Unit} (h : Closing m n r) : r.Affords m fun _ => n := by
  induction h with
  | result h => exact affords_pure h
  | declare d => exact affords_declare d
  | semicolon _ ih => exact (affords_optional _).bind fun _ => ih

theorem Part.affords (h : Part m n r) : r.Affords m fun _ => n := by
  induction h with
  | entry h => exact h.affords
  | after h _ ih => exact h.affords.bind ih
  | list fence context _ ih => exact affords_list fence context ih
  | closed _ hlast ih => exact ih.bind fun x => (hlast x).affords

theorem affords_read : (items documentTurn none).Affords 0 fun _ => 0 := by
  apply affords_items
  · exact Nat.le_refl 0
  · exact fun t rest cause hc => absurd hc (documentTurn_ne_leave t rest cause)
  · intro t rest block ht
    exact (part_block? (documentTurn_eq_enter_iff.mp ht)).affords

end Document

/-- However broken the input is, no more than three reports are made for each of its tokens. -/
theorem length_diagnostics_assemble_le (options : Options) (tokens : List Token) :
    (assemble options tokens).diagnostics.length ≤ 3 * tokens.length := by
  have hmade := Steps.length_diagnosticsFrom_le options.strictness (Steps.lastPosition tokens) {} (Document.read tokens)
  have hpaid : Steps.reportable (Document.read tokens) + 0 ≤ 0 + 3 * (consumed (Document.read tokens)).length :=
    Document.affords_read tokens
  rw [Document.consumed_read] at hpaid
  change (Steps.diagnosticsFrom _ _ _ _).length ≤ _
  omega

end Knockout
