import Knockout.Proofs.Routines

namespace Knockout

namespace Step

def IsLocal : Step → Prop
  | take _ | ignore _ => True
  | report cause _ => cause.isLocal = true
  | _ => False

end Step

namespace Reader

variable {α β : Type} {P Q : Step → Prop}

def Emits (P : Step → Prop) (r : Reader α) : Prop := ∀ tokens, ∀ step ∈ (r.run tokens).steps, P step

theorem Emits.mono {r : Reader α} (h : r.Emits P) (hPQ : ∀ step, P step → Q step) : r.Emits Q :=
  fun tokens step hs => hPQ step (h tokens step hs)

theorem emits_pure (x : α) : (pure x : Reader α).Emits P := fun _ _ h => by cases h

theorem emits_of_single {r : Reader α} {made : List Token → Step} (hr : ∀ tokens, (r.run tokens).steps = [made tokens])
    (h : ∀ tokens, P (made tokens)) : r.Emits P := by
  intro tokens step hs
  rw [hr] at hs
  obtain rfl := List.mem_singleton.mp hs
  exact h tokens

theorem emits_report {cause : Cause} (h : ∀ found, P (.report cause found)) : (report cause).Emits P :=
  emits_of_single (fun _ => rfl) fun _ => h _

theorem emits_reportAt {t : Token} {cause : Cause} (h : P (.report cause (some t))) : (reportAt t cause).Emits P :=
  emits_of_single (fun _ => rfl) fun _ => h

theorem emits_ignore {key : Token} (h : P (.ignore key)) : (ignore key).Emits P :=
  emits_of_single (fun _ => rfl) fun _ => h

theorem emits_declare {d : Declaration} (h : P (.declare d)) : (declare d).Emits P :=
  emits_of_single (fun _ => rfl) fun _ => h

theorem emits_takeIf (h : ∀ t, P (.take t)) (accepts : Token → Bool) : (takeIf accepts).Emits P := by
  intro tokens step hs
  cases tokens with
  | nil => cases hs
  | cons first rest =>
    simp only [takeIf] at hs
    split at hs
    · obtain rfl := List.mem_singleton.mp hs
      exact h first
    · cases hs

theorem emits_takeIf_isLocal (accepts : Token → Bool) : (takeIf accepts).Emits Step.IsLocal :=
  emits_takeIf (fun _ => trivial) accepts

theorem Emits.bind {r : Reader α} {next : α → Reader β} (hr : r.Emits P) (hn : ∀ x, (next x).Emits P) :
    (r >>= next).Emits P := by
  intro tokens step hs
  rcases List.mem_append.mp hs with hs | hs
  · exact hr _ _ hs
  · exact hn _ _ _ hs

theorem Emits.map {r : Reader α} (h : r.Emits P) (f : α → β) : (r >>= fun x => pure (f x)).Emits P :=
  h.bind fun _ => emits_pure _

theorem emits_items {turn : Token → List Token → Turn α} {unfinished : Option Cause} (htake : ∀ t, P (.take t))
    (hskip : ∀ t context, P (.skip t context)) (hend : ∀ cause ∈ unfinished, P (.report cause none))
    (hleave : ∀ t rest cause, turn t rest = .leave (some cause) → P (.report cause (some t)))
    (henter : ∀ t rest item, turn t rest = .enter item → item.Emits P) : (items turn unfinished).Emits P := by
  intro tokens step hs
  change step ∈ (itemsFrom turn unfinished tokens).steps at hs
  fun_induction itemsFrom turn unfinished tokens with
  | case1 =>
    obtain ⟨cause, hc, rfl⟩ := List.mem_map.mp hs
    exact hend cause (Option.mem_toList.mp hc)
  | case2 t rest =>
    obtain rfl := List.mem_singleton.mp hs
    exact htake t
  | case3 t rest cause ht =>
    obtain ⟨cause, hc, rfl⟩ := List.mem_map.mp hs
    rw [Option.mem_toList.mp hc] at ht
    exact hleave t rest cause ht
  | case4 t rest _ more ih =>
    rcases List.mem_cons.mp hs with rfl | hs
    · exact htake t
    · exact ih hs
  | case5 t rest item ht first more ih =>
    rcases List.mem_cons.mp hs with rfl | hs
    · exact htake t
    rcases List.mem_append.mp hs with hs | hs
    · exact henter t rest item ht rest step hs
    · exact ih hs
  | case6 t rest context _ more ih =>
    rcases List.mem_cons.mp hs with rfl | hs
    · exact hskip t context
    · exact ih hs

end Reader

namespace Document

open Reader

variable {α : Type} {m n : Nat} {r : Reader α}

theorem Brief.emits (h : Brief m n r) : r.Emits Step.IsLocal := by
  induction h with
  | result => exact emits_pure _
  | take => exact emits_takeIf_isLocal _
  | report hc => exact emits_report fun _ => hc
  | bind _ _ ih ih' => exact ih.bind ih'

theorem emits_value (fence : Fence) (accepts : Token → Bool) (key : Token) :
    (value fence accepts key).Emits Step.IsLocal := by
  apply (emits_takeIf_isLocal _).bind
  intro o
  split
  · exact emits_pure _
  · apply (emits_takeIf_isLocal _).bind
    intro o
    split
    · refine Emits.bind (emits_reportAt ?_) fun _ => emits_pure _
      exact rfl
    · refine Emits.bind (emits_report fun _ => ?_) fun _ => emits_pure _
      exact rfl

end Document

end Knockout
