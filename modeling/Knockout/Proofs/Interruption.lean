import Knockout.Proofs.Emission
import Knockout.Proofs.Rounds

namespace Knockout

/--
The step ends a list or a phase right in front of a token that starts a block: a report says so, or a phase is over
and its last step leaves the block to be read.
-/
def Step.Stops (t : Token) (remaining : List Token) : Step → Prop
  | report (.unclosedList ..) found => found = some t
  | report (.unclosedPhase ..) found => found = some t ∧ t.isBlockKeyword = true
  | declare (.phase ..) => ∃ rest, remaining = t :: rest ∧ Document.startsBlock t rest = true
  | _ => False

open Document

theorem cons_of_append_eq {a b before after : List Step} {step : Step} (h : a ++ b = before ++ step :: after) :
    (∃ middle, a = before ++ step :: middle ∧ after = middle ++ b) ∨
      ∃ middle, before = a ++ middle ∧ b = middle ++ step :: after := by
  rcases List.append_eq_append_iff.mp h with ⟨middle, rfl, rfl⟩ | ⟨middle, rfl, hb⟩
  · exact .inr ⟨middle, rfl, rfl⟩
  · cases middle with
    | nil => exact .inr ⟨[], by simp, by simpa using hb.symm⟩
    | cons first middle =>
      obtain ⟨rfl, rfl⟩ := List.cons.inj hb
      exact .inl ⟨middle, rfl, rfl⟩

namespace Reader

variable {α β : Type}

/-- Where a list within the reader stops at the start of a block, the reader takes nothing more. -/
def HandsUp (r : Reader α) : Prop :=
  ∀ tokens before step t after, (r.run tokens).steps = before ++ step :: after →
    step.Stops t (consumed after ++ (r.run tokens).rest) →
      ∃ rest, (r.run tokens).rest = t :: rest ∧ startsBlock t rest = true ∧ consumed after = []

def Uninterrupted (r : Reader α) : Prop :=
  ∀ tokens, ∀ step ∈ (r.run tokens).steps, ∀ t remaining, ¬ step.Stops t remaining

def StaysAtBlocks (r : Reader α) : Prop :=
  ∀ t rest, startsBlock t rest = true → (r.run (t :: rest)).rest = t :: rest

theorem consumed_eq_nil_of_rest {r : Reader α} {tokens : List Token} (h : (r.run tokens).rest = tokens) :
    consumed (r.run tokens).steps = [] := by
  have ha := r.accounts tokens
  rw [h] at ha
  exact List.append_left_eq_self.mp ha

theorem Uninterrupted.handsUp {r : Reader α} (h : r.Uninterrupted) : r.HandsUp := by
  intro tokens before step t after hs hc
  refine absurd hc (h tokens step ?_ t _)
  simp [hs]

theorem Emits.uninterrupted {r : Reader α} (h : r.Emits Step.IsLocal) : r.Uninterrupted := by
  intro tokens step hs t remaining hc
  have hstep := h tokens step hs
  cases step with
  | report cause found => cases cause <;> first | exact hc | cases hstep
  | declare d => exact hstep
  | take | skip | ignore => exact hc

theorem Uninterrupted.bind_handsUp {r : Reader α} {next : α → Reader β} (hr : r.Uninterrupted)
    (hn : ∀ x, (next x).HandsUp) : (r >>= next).HandsUp := by
  intro tokens before step t after hs hc
  rcases cons_of_append_eq hs with ⟨middle, hm, -⟩ | ⟨middle, -, hm⟩
  · exact absurd hc (hr tokens step (by simp [hm]) t _)
  · exact hn _ _ _ _ _ _ hm hc

theorem HandsUp.bind {r : Reader α} {next : α → Reader β} (hr : r.HandsUp) (hn : ∀ x, (next x).HandsUp)
    (hs : ∀ x, (next x).StaysAtBlocks) : (r >>= next).HandsUp := by
  intro tokens before step t after h hc
  rcases cons_of_append_eq h with ⟨middle, hm, rfl⟩ | ⟨middle, -, hm⟩
  · rw [run_bind, consumed_append, List.append_assoc, (next _).accounts] at hc
    obtain ⟨rest, hrest, hstart, hmiddle⟩ := hr _ _ _ _ _ hm hc
    have hstay := hs (r.run tokens).value t rest hstart
    refine ⟨rest, ?_, hstart, ?_⟩
    · rw [run_bind, hrest, hstay]
    · rw [consumed_append, hmiddle, hrest, consumed_eq_nil_of_rest hstay]
      rfl
  · exact hn _ _ _ _ _ _ hm hc

theorem handsUp_declare (d : Declaration) : (declare d).HandsUp := by
  intro tokens before step t after hs hc
  cases before with
  | cons first before => cases before <;> cases hs
  | nil =>
    obtain ⟨rfl, rfl⟩ := List.cons.inj hs
    cases d with
    | phase keyword fixtures =>
      obtain ⟨rest, hr, hstart⟩ := hc
      exact ⟨rest, hr, hstart, rfl⟩
    | info => exact hc.elim
    | teams => exact hc.elim

theorem staysAtBlocks_pure (x : α) : (pure x : Reader α).StaysAtBlocks := fun _ _ _ => rfl

theorem staysAtBlocks_declare (d : Declaration) : (declare d).StaysAtBlocks := fun _ _ _ => rfl

theorem StaysAtBlocks.bind {r : Reader α} {next : α → Reader β} (hr : r.StaysAtBlocks)
    (hn : ∀ x, (next x).StaysAtBlocks) : (r >>= next).StaysAtBlocks := by
  intro t rest h
  rw [run_bind, hr t rest h]
  exact hn _ t rest h

theorem HandsUp.map {r : Reader α} (h : r.HandsUp) (f : α → β) : (r >>= fun x => pure (f x)).HandsUp :=
  h.bind (fun _ => (emits_pure _).uninterrupted.handsUp) fun _ => staysAtBlocks_pure _

structure Yields (turn : Token → List Token → Turn α) : Prop where
  leaves {t : Token} {rest : List Token} : startsBlock t rest = true → ∃ cause, turn t rest = .leave cause
  stops {t u : Token} {rest remaining : List Token} {cause : Cause} : turn t rest = .leave (some cause) →
    (Step.report cause (some t)).Stops u remaining → u = t ∧ startsBlock t rest = true
  enters {t : Token} {rest : List Token} {item : Reader α} : turn t rest = .enter item → item.HandsUp

theorem not_stops_at_end {cause : Cause} {t : Token} {remaining : List Token} :
    ¬ (Step.report cause none).Stops t remaining := by
  cases cause <;> simp [Step.Stops]

theorem Yields.handsUp_items {turn : Token → List Token → Turn α} (h : Yields turn) (unfinished : Option Cause) :
    (items turn unfinished).HandsUp := by
  intro tokens before step t after hs hc
  change (itemsFrom turn unfinished tokens).steps = _ at hs
  change step.Stops t (_ ++ (itemsFrom turn unfinished tokens).rest) at hc
  change ∃ rest, (itemsFrom turn unfinished tokens).rest = _ ∧ _
  fun_induction itemsFrom turn unfinished tokens generalizing before with
  | case1 =>
    have hm : step ∈ unfinished.toList.map (Step.report · none) := by
      rw [show unfinished.toList.map (Step.report · none) = _ from hs]
      simp
    obtain ⟨cause, -, rfl⟩ := List.mem_map.mp hm
    exact absurd hc not_stops_at_end
  | case2 u rest hu =>
    have hm : step ∈ [Step.take u] := by
      rw [show [Step.take u] = _ from hs]
      simp
    obtain rfl := List.mem_singleton.mp hm
    exact hc.elim
  | case3 u rest cause hu =>
    cases cause with
    | none => simp at hs
    | some cause =>
      obtain ⟨-, hs⟩ | ⟨_, -, hs⟩ := List.append_eq_cons_iff.mp hs.symm
      · cases hs
        obtain ⟨rfl, hstart⟩ := h.stops hu hc
        exact ⟨rest, rfl, hstart, rfl⟩
      · simp at hs
  | case4 u rest hu more ih =>
    cases before with
    | nil =>
      obtain ⟨rfl, -⟩ := List.cons.inj hs
      exact hc.elim
    | cons first before => exact ih before (List.cons.inj hs).2 hc
  | case5 u rest item hu first more ih =>
    cases before with
    | nil =>
      obtain ⟨rfl, -⟩ := List.cons.inj hs
      exact hc.elim
    | cons s before =>
      rcases cons_of_append_eq (List.cons.inj hs).2 with ⟨middle, hm, rfl⟩ | ⟨middle, -, hm⟩
      · rw [consumed_append, List.append_assoc, itemsFrom_accounts] at hc
        obtain ⟨rest', hrest, hstart, hmiddle⟩ := h.enters hu _ _ _ _ _ hm hc
        obtain ⟨cause, ht⟩ := h.leaves hstart
        have he : more = ⟨[], cause.toList.map (.report · (some t)), t :: rest'⟩ := by
          simp only [more, first, hrest, itemsFrom, ht]
        refine ⟨rest', by rw [he], hstart, ?_⟩
        rw [consumed_append, hmiddle, he, consumed_reports]
        rfl
      · exact ih middle hm hc
  | case6 u rest context hu more ih =>
    cases before with
    | nil =>
      obtain ⟨rfl, -⟩ := List.cons.inj hs
      exact hc.elim
    | cons first before => exact ih before (List.cons.inj hs).2 hc

end Reader

end Knockout
