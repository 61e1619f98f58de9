import Knockout.Proofs.CleanReading
import Knockout.Proofs.Interruption

namespace Knockout

def kept (steps : List Step) : List Token :=
  steps.filterMap fun
    | .take t => some t
    | _ => none

@[simp]
theorem kept_nil : kept [] = [] := rfl

@[simp]
theorem kept_append (a b : List Step) : kept (a ++ b) = kept a ++ kept b := List.filterMap_append

@[simp]
theorem kept_take (t : Token) (steps : List Step) : kept (.take t :: steps) = t :: kept steps := rfl

@[simp]
theorem kept_report (cause : Cause) (found : Option Token) (steps : List Step) :
    kept (.report cause found :: steps) = kept steps := rfl

@[simp]
theorem declarations_report (cause : Cause) (found : Option Token) (steps : List Step) :
    declarations (.report cause found :: steps) = declarations steps := rfl

def Step.isOrderly : Step → Bool
  | skip .. => false
  | report cause _ => cause.kind ≠ .unexpectedToken
  | _ => true

def Orderly (steps : List Step) : Prop := ∀ step ∈ steps, step.isOrderly = true

@[simp]
theorem orderly_nil : Orderly [] := List.forall_mem_nil _

@[simp]
theorem orderly_append {a b : List Step} : Orderly (a ++ b) ↔ Orderly a ∧ Orderly b := List.forall_mem_append

@[simp]
theorem orderly_take {t : Token} {steps : List Step} : Orderly (.take t :: steps) ↔ Orderly steps := by
  simp [Orderly, Step.isOrderly]

@[simp]
theorem orderly_ignore {key : Token} {steps : List Step} : Orderly (.ignore key :: steps) ↔ Orderly steps := by
  simp [Orderly, Step.isOrderly]

@[simp]
theorem orderly_declare {d : Declaration} {steps : List Step} : Orderly (.declare d :: steps) ↔ Orderly steps := by
  simp [Orderly, Step.isOrderly]

@[simp]
theorem orderly_report {cause : Cause} {found : Option Token} {steps : List Step} :
    Orderly (.report cause found :: steps) ↔ cause.kind ≠ .unexpectedToken ∧ Orderly steps := by
  simp [Orderly, Step.isOrderly]

@[simp]
theorem not_orderly_skip {t : Token} {context : Context} {steps : List Step} :
    ¬ Orderly (.skip t context :: steps) :=
  fun h => Bool.false_ne_true (h _ List.mem_cons_self)

def Step.isSkip : Step → Bool
  | skip .. => true
  | _ => false

def moves (steps : List Step) : List Step := steps.filter fun step => step.consumed?.isSome

def without (dropped : Nat → Bool) : List Token → List Token
  | [] => []
  | t :: rest =>
    if dropped 0 then without (fun i => dropped (i + 1)) rest else t :: without (fun i => dropped (i + 1)) rest

theorem without_isSkip (steps : List Step) :
    without (fun i => ((moves steps)[i]?).any Step.isSkip) (consumed steps) = kept steps := by
  induction steps with
  | nil => rfl
  | cons step steps ih =>
    cases step with
    | take t => exact congrArg (t :: ·) ih
    | skip t context => exact ih
    | report | ignore | declare => exact ih

theorem Orderly.not_isSkip_move {steps : List Step} (h : Orderly steps) (i : Nat) :
    ((moves steps)[i]?).any Step.isSkip = false := by
  cases hi : (moves steps)[i]? with
  | none => rfl
  | some step =>
    have ho := h step (List.mem_of_mem_filter (List.mem_of_getElem? hi))
    cases step with
    | skip => cases ho
    | take | report | ignore | declare => rfl

theorem orderly_reports {cause : Option Cause} {found : Option Token} :
    Orderly (cause.toList.map (.report · found)) ↔ ∀ c ∈ cause, c.kind ≠ .unexpectedToken := by
  cases cause <;> simp

theorem kept_reports (cause : Option Cause) (found : Option Token) :
    kept (cause.toList.map (.report · found)) = [] := by
  cases cause <;> rfl

/--
How the kept tokens behind a point go on where the tokens there go on with `rest`: with the same token, which starts a
block if it did before, or, where that token is one to drop, with one at which the reading resumes.
-/
inductive Follows (drops : Token → List Token → Prop) (resumes : Token → Prop) : List Token → List Token → Prop
  | ended : Follows drops resumes [] []
  | same {t : Token} {rest rest' : List Token} :
    (Document.startsBlock t rest = true → Document.startsBlock t rest' = true) →
    Follows drops resumes (t :: rest) (t :: rest')
  | dropped {t : Token} {rest rest' : List Token} :
    drops t rest → (∀ u ∈ rest'.head?, resumes u) → Follows drops resumes (t :: rest) rest'

namespace Follows

variable {drops : Token → List Token → Prop} {resumes : Token → Prop} {rest rest' : List Token}

theorem eq_nil (h : Follows drops resumes [] rest') : rest' = [] := by
  cases h
  rfl

theorem mono {drops' : Token → List Token → Prop} {resumes' : Token → Prop} (h : Follows drops resumes rest rest')
    (hd : ∀ t tail, drops t tail → drops' t tail) (hr : ∀ u, resumes u → resumes' u) :
    Follows drops' resumes' rest rest' := by
  cases h with
  | ended => exact .ended
  | same hs => exact .same hs
  | dropped ht hu => exact .dropped (hd _ _ ht) fun u hm => hr u (hu u hm)

theorem head_rejected {accepts : Token → Bool} (h : Follows drops resumes rest rest')
    (ha : ∀ t ∈ rest.head?, accepts t = false) (hr : ∀ u, resumes u → accepts u = false) :
    ∀ u ∈ rest'.head?, accepts u = false := by
  cases h with
  | ended => exact ha
  | same => exact ha
  | dropped _ hu => exact fun u hm => hr u (hu u hm)

end Follows

namespace Reader

variable {α β γ : Type}

def Passes (r : Reader α) (tokens : List Token) (value : α) (ds : List Declaration) (rest : List Token) : Prop :=
  (r.run tokens).value = value ∧ (r.run tokens).rest = rest ∧ Orderly (r.run tokens).steps ∧
    declarations (r.run tokens).steps = ds

theorem Passes.bind {r : Reader α} {f : α → Reader β} {tokens middle rest : List Token} {x : α} {y : β}
    {d₁ d₂ : List Declaration} (hr : r.Passes tokens x d₁ middle) (hf : (f x).Passes middle y d₂ rest) :
    (r >>= f).Passes tokens y (d₁ ++ d₂) rest := by
  obtain ⟨rfl, rfl, hr, rfl⟩ := hr
  obtain ⟨rfl, rfl, hf, rfl⟩ := hf
  exact ⟨rfl, rfl, orderly_append.mpr ⟨hr, hf⟩, declarations_append⟩

section Items

variable {turn : Token → List Token → Turn α} {unfinished : Option Cause} {t : Token} {rest final : List Token}
  {xs : List α} {ds : List Declaration}

theorem passes_items_nil (h : ∀ c ∈ unfinished, c.kind ≠ .unexpectedToken) :
    (items turn unfinished).Passes [] [] [] [] := by
  simp [Passes, items, itemsFrom, orderly_reports.mpr h, declarations_reports]

theorem passes_items_finish (h : turn t rest = .finish) : (items turn unfinished).Passes (t :: rest) [] [] rest := by
  simp [Passes, items, itemsFrom, h]

theorem passes_items_leave {cause : Option Cause} (h : turn t rest = .leave cause)
    (hc : ∀ c ∈ cause, c.kind ≠ .unexpectedToken) : (items turn unfinished).Passes (t :: rest) [] [] (t :: rest) := by
  simp [Passes, items, itemsFrom, h, orderly_reports.mpr hc, declarations_reports]

theorem passes_items_pass (h : turn t rest = .pass) :
    (items turn unfinished).Passes (t :: rest) xs ds final ↔ (items turn unfinished).Passes rest xs ds final := by
  simp [Passes, items, itemsFrom, h]

theorem not_passes_items_drop {context : Context} (h : turn t rest = .drop context) :
    ¬ (items turn unfinished).Passes (t :: rest) xs ds final := by
  simp [Passes, items, itemsFrom, h]

theorem passes_items_enter {item : Reader α} (h : turn t rest = .enter item) :
    (items turn unfinished).Passes (t :: rest) xs ds final ↔
      ∃ x d middle xs' ds', item.Passes rest x d middle ∧ (items turn unfinished).Passes middle xs' ds' final ∧
        xs = x :: xs' ∧ ds = d ++ ds' := by
  simp only [Passes, items, itemsFrom, h, orderly_take, orderly_append, declarations_take, declarations_append]
  constructor
  · rintro ⟨rfl, rfl, ⟨hi, hm⟩, rfl⟩
    exact ⟨_, _, _, _, _, ⟨rfl, rfl, hi, rfl⟩, ⟨rfl, rfl, hm, rfl⟩, rfl, rfl⟩
  · rintro ⟨x, d, middle, xs', ds', ⟨rfl, rfl, hi, rfl⟩, ⟨rfl, rfl, hm, rfl⟩, rfl, rfl⟩
    exact ⟨rfl, rfl, ⟨hi, hm⟩, rfl⟩

end Items

/--
Of the tokens that it has kept, followed by `rest`, the reader makes in good order what it has made of `tokens`, and
leaves `final`.
-/
def Keeps (r : Reader α) (tokens rest final : List Token) : Prop :=
  r.Passes (kept (r.run tokens).steps ++ rest) (r.run tokens).value (declarations (r.run tokens).steps) final

def Prunes (F : List Token → List Token → Prop) (r : Reader α) : Prop :=
  ∀ tokens rest, F (r.run tokens).rest rest → r.Keeps tokens rest rest

def Starts (r : Reader α) : Prop :=
  ∀ tokens, kept (r.run tokens).steps = [] ∧ (r.run tokens).rest = tokens ∨
    ∃ t tail ks, tokens = t :: tail ∧ kept (r.run tokens).steps = t :: ks

variable {F : List Token → List Token → Prop} {drops : Token → List Token → Prop} {resumes : Token → Prop}
  {tokens rest final : List Token}

theorem starts_pure (x : α) : (pure x : Reader α).Starts := fun _ => .inl ⟨rfl, rfl⟩

theorem Starts.bind {r : Reader α} {f : α → Reader β} (hr : r.Starts) (hf : ∀ x, (f x).Starts) :
    (r >>= f).Starts := by
  intro tokens
  rw [run_bind, kept_append]
  rcases hr tokens with ⟨hk, hrest⟩ | ⟨t, tail, ks, ht, hk⟩
  · rw [hk, hrest, List.nil_append]
    exact hf _ tokens
  · exact .inr ⟨t, tail, _, ht, by rw [hk, List.cons_append]⟩

theorem Starts.head_rejected {r : Reader α} {accepts : Token → Bool} (hs : r.Starts)
    (ha : ∀ t ∈ tokens.head?, accepts t = false)
    (h : (r.run tokens).rest = tokens → ∀ u ∈ rest.head?, accepts u = false) :
    ∀ u ∈ (kept (r.run tokens).steps ++ rest).head?, accepts u = false := by
  rcases hs tokens with ⟨hk, hrest⟩ | ⟨t, tail, ks, rfl, hk⟩
  · rw [hk, List.nil_append]
    exact h hrest
  · rw [hk]
    exact ha

theorem Starts.follows {r : Reader α} (hs : r.Starts) (hb : r.StaysAtBlocks)
    (h : Follows drops resumes (r.run tokens).rest rest) :
    Follows drops resumes tokens (kept (r.run tokens).steps ++ rest) := by
  rcases hs tokens with ⟨hk, hrest⟩ | ⟨t, tail, ks, rfl, hk⟩
  · rw [hk, List.nil_append]
    rwa [hrest] at h
  · rw [hk]
    refine .same fun hstart => ?_
    have hc := consumed_eq_nil_of_rest (hb t tail hstart)
    have hm : Step.take t ∈ (r.run (t :: tail)).steps := by
      have : t ∈ kept (r.run (t :: tail)).steps := by rw [hk]; exact List.mem_cons_self
      obtain ⟨step, hm, he⟩ := List.mem_filterMap.mp this
      cases step <;> cases he
      exact hm
    have : t ∈ consumed (r.run (t :: tail)).steps := List.mem_filterMap.mpr ⟨_, hm, rfl⟩
    rw [hc] at this
    cases this

theorem Keeps.bind {r : Reader α} {f : α → Reader β}
    (hr : r.Keeps tokens (kept ((f (r.run tokens).value).run (r.run tokens).rest).steps ++ rest)
      (kept ((f (r.run tokens).value).run (r.run tokens).rest).steps ++ rest))
    (hf : (f (r.run tokens).value).Keeps (r.run tokens).rest rest final) : (r >>= f).Keeps tokens rest final := by
  unfold Keeps
  rw [run_bind]
  simp only [kept_append, List.append_assoc, declarations_append]
  exact Passes.bind hr hf

theorem prunes_pure (x : α) : (pure x : Reader α).Prunes F :=
  fun _ _ _ => ⟨rfl, rfl, orderly_nil, rfl⟩

theorem Prunes.mono {G : List Token → List Token → Prop} {r : Reader α} (h : r.Prunes F)
    (hG : ∀ rest rest', G rest rest' → F rest rest') : r.Prunes G :=
  fun tokens rest hr => h tokens rest (hG _ _ hr)

theorem Prunes.map {r : Reader α} (h : r.Prunes F) (f : α → β) : (r >>= fun x => pure (f x)).Prunes F :=
  fun tokens rest hF => Keeps.bind (h tokens rest hF) (prunes_pure (f _) _ rest hF)

def Quiet (r : Reader α) : Prop :=
  ∃ x ds, ∀ tokens, (r.run tokens).value = x ∧ (r.run tokens).rest = tokens ∧ kept (r.run tokens).steps = [] ∧
    declarations (r.run tokens).steps = ds ∧ Orderly (r.run tokens).steps

theorem quiet_pure (x : α) : (pure x : Reader α).Quiet := ⟨x, [], fun _ => ⟨rfl, rfl, rfl, rfl, orderly_nil⟩⟩

theorem quiet_report {cause : Cause} (h : cause.kind ≠ .unexpectedToken) : (report cause).Quiet :=
  ⟨(), [], fun _ => ⟨rfl, rfl, rfl, rfl, orderly_report.mpr ⟨h, orderly_nil⟩⟩⟩

theorem quiet_reportAt {t : Token} {cause : Cause} (h : cause.kind ≠ .unexpectedToken) : (reportAt t cause).Quiet :=
  ⟨(), [], fun _ => ⟨rfl, rfl, rfl, rfl, orderly_report.mpr ⟨h, orderly_nil⟩⟩⟩

theorem quiet_ignore (key : Token) : (ignore key).Quiet :=
  ⟨(), [], fun _ => ⟨rfl, rfl, rfl, rfl, orderly_ignore.mpr orderly_nil⟩⟩

theorem quiet_declare (d : Declaration) : (declare d).Quiet :=
  ⟨(), [d], fun _ => ⟨rfl, rfl, rfl, rfl, orderly_declare.mpr orderly_nil⟩⟩

theorem Quiet.bind {r : Reader α} {f : α → Reader β} (hr : r.Quiet) (hf : ∀ x, (f x).Quiet) : (r >>= f).Quiet := by
  obtain ⟨x, ds, hr⟩ := hr
  obtain ⟨y, ds', hf⟩ := hf x
  refine ⟨y, ds ++ ds', fun tokens => ?_⟩
  obtain ⟨rfl, hrest, hk, hd, ho⟩ := hr tokens
  obtain ⟨hy, hrest', hk', hd', ho'⟩ := hf tokens
  rw [run_bind, hrest]
  exact ⟨hy, hrest', by simp [hk, hk'], by simp [hd, hd'], orderly_append.mpr ⟨ho, ho'⟩⟩

theorem Quiet.prunes {r : Reader α} (h : r.Quiet) : r.Prunes F := by
  obtain ⟨x, ds, h⟩ := h
  intro tokens rest _
  obtain ⟨hx, -, hk, hd, -⟩ := h tokens
  obtain ⟨hx', hrest, -, hd', ho⟩ := h rest
  unfold Keeps
  rw [hx, hk, hd]
  exact ⟨hx', hrest, ho, hd'⟩

theorem Quiet.staysAtBlocks {r : Reader α} (h : r.Quiet) : r.StaysAtBlocks := by
  obtain ⟨_, _, h⟩ := h
  exact fun t rest _ => (h (t :: rest)).2.1

structure TakesFirst (accepts : Token → Bool) (r : Reader α) : Prop where
  takes {t : Token} {tail : List Token} : accepts t = true → kept (r.run (t :: tail)).steps = [t]
  stays {tokens : List Token} : (∀ t ∈ tokens.head?, accepts t = false) →
    kept (r.run tokens).steps = [] ∧ (r.run tokens).rest = tokens
  keeps {tokens rest : List Token} :
    ((∀ t ∈ tokens.head?, accepts t = false) → ∀ u ∈ rest.head?, accepts u = false) → r.Keeps tokens rest rest

theorem Quiet.takesFirst {r : Reader α} (h : r.Quiet) : r.TakesFirst fun _ => false where
  takes := nofun
  stays {tokens} _ := by
    obtain ⟨_, _, h⟩ := h
    exact ⟨(h tokens).2.2.1, (h tokens).2.1⟩
  keeps {tokens rest} _ := h.prunes (F := fun _ _ => True) tokens rest trivial

theorem Quiet.takesFirst_bind {accepts : Token → Bool} {r : Reader α} {f : α → Reader β} (hr : r.Quiet)
    (hf : ∀ x, (f x).TakesFirst accepts) : (r >>= f).TakesFirst accepts := by
  have hprunes : r.Prunes fun _ _ => True := hr.prunes
  obtain ⟨x, ds, hr⟩ := hr
  constructor
  · intro t tail h
    obtain ⟨rfl, hrest, hk, -, -⟩ := hr (t :: tail)
    rw [run_bind, hrest, kept_append, hk, (hf _).takes h]
    rfl
  · intro tokens h
    obtain ⟨rfl, hrest, hk, -, -⟩ := hr tokens
    rw [run_bind, hrest, kept_append, hk]
    exact (hf _).stays h
  · intro tokens rest h
    refine Keeps.bind (hprunes _ _ trivial) ?_
    rw [(hr tokens).2.1]
    exact (hf _).keeps h

theorem TakesFirst.bind_quiet {accepts : Token → Bool} {r : Reader α} {f : α → Reader β} (hr : r.TakesFirst accepts)
    (hf : ∀ x, (f x).Quiet) : (r >>= f).TakesFirst accepts := by
  constructor
  · intro t tail h
    obtain ⟨_, _, hq⟩ := hf (r.run (t :: tail)).value
    rw [run_bind, kept_append, hr.takes h, (hq _).2.2.1]
    rfl
  · intro tokens h
    obtain ⟨_, _, hq⟩ := hf (r.run tokens).value
    rw [run_bind, kept_append, (hr.stays h).1, (hq _).2.2.1]
    exact ⟨rfl, (hq _).2.1.trans (hr.stays h).2⟩
  · intro tokens rest h
    refine Keeps.bind ?_ ((hf _).prunes (F := fun _ _ => True) _ _ trivial)
    obtain ⟨_, _, hq⟩ := hf (r.run tokens).value
    rw [(hq _).2.2.1]
    exact hr.keeps h

theorem run_takeIf_rejected {accepts : Token → Bool} (h : ∀ t ∈ tokens.head?, accepts t = false) :
    (takeIf accepts).run tokens = ⟨none, [], tokens⟩ := by
  cases tokens with
  | nil => rfl
  | cons t tail => simp [takeIf, h t rfl]

theorem run_takeIf_accepted {accepts : Token → Bool} {t : Token} (h : accepts t = true) (tail : List Token) :
    (takeIf accepts).run (t :: tail) = ⟨some t, [.take t], tail⟩ := by
  simp [takeIf, h]

theorem TakesFirst.rejected_kept {accepts others : Token → Bool} {r : Reader β} (hf : r.TakesFirst others)
    (h : ∀ t ∈ tokens.head?, accepts t = false)
    (hrest : (∀ t ∈ tokens.head?, others t = false) → ∀ u ∈ rest.head?, accepts u = false) :
    ∀ u ∈ (kept (r.run tokens).steps ++ rest).head?, accepts u = false := by
  by_cases ho : ∀ t ∈ tokens.head?, others t = false
  · rw [(hf.stays ho).1]
    exact hrest ho
  · cases tokens with
    | nil => exact absurd (by simp) ho
    | cons t tail =>
      rw [hf.takes (by simpa using ho)]
      exact h

theorem takesFirst_takeIf_bind {accepts others : Token → Bool} {f : Option Token → Reader β}
    (hsome : ∀ t, (f (some t)).Quiet) (hnone : (f none).TakesFirst others) :
    (takeIf accepts >>= f).TakesFirst fun t => accepts t || others t where
  takes {t tail} h := by
    by_cases ht : accepts t = true
    · obtain ⟨_, _, hq⟩ := hsome t
      rw [run_bind, run_takeIf_accepted ht]
      simp [(hq tail).2.2.1]
    · have hr : ∀ u ∈ (t :: tail).head?, accepts u = false := by simpa using ht
      rw [run_bind, run_takeIf_rejected hr]
      exact hnone.takes (by simpa [ht] using h)
  stays {tokens} h := by
    simp only [Bool.or_eq_false_iff] at h
    rw [run_bind, run_takeIf_rejected fun t ht => (h t ht).1]
    exact hnone.stays fun t ht => (h t ht).2
  keeps {tokens rest} h := by
    by_cases hr : ∀ t ∈ tokens.head?, accepts t = false
    · have hrun := run_takeIf_rejected hr
      have hk : (f none).Keeps tokens rest rest := by
        refine hnone.keeps fun ho u hu => ?_
        exact (Bool.or_eq_false_iff.mp (h (fun t ht => by rw [hr t ht, ho t ht]; rfl) u hu)).2
      refine Keeps.bind ?_ (by rw [hrun]; exact hk)
      have hhead : ∀ u ∈ (kept ((f none).run tokens).steps ++ rest).head?, accepts u = false := by
        refine hnone.rejected_kept hr fun ho u hu => ?_
        exact (Bool.or_eq_false_iff.mp (h (fun t ht => by rw [hr t ht, ho t ht]; rfl) u hu)).1
      unfold Keeps
      rw [hrun]
      change (takeIf accepts).Passes (kept ((f none).run tokens).steps ++ rest) none []
        (kept ((f none).run tokens).steps ++ rest)
      rw [Passes, run_takeIf_rejected hhead]
      exact ⟨rfl, rfl, orderly_nil, rfl⟩
    · cases tokens with
      | nil => exact absurd (by simp) hr
      | cons t tail =>
        have ht : accepts t = true := by simpa using hr
        have hrun := run_takeIf_accepted ht tail
        refine Keeps.bind ?_ (by rw [hrun]; exact (hsome t).prunes (F := fun _ _ => True) tail rest trivial)
        unfold Keeps
        rw [hrun]
        simp [Passes, run_takeIf_accepted ht]

theorem takesFirst_of_quiet {accepts : Token → Bool} {f : Option Token → Reader β} (h : ∀ o, (f o).Quiet) :
    (takeIf accepts >>= f).TakesFirst accepts := by
  have ht : (takeIf accepts >>= f).TakesFirst fun t => accepts t || false :=
    takesFirst_takeIf_bind (fun t => h (some t)) (h none).takesFirst
  simpa using ht

theorem takesFirst_takeIf (accepts : Token → Bool) : (takeIf accepts).TakesFirst accepts := by
  have h : (takeIf accepts >>= pure).TakesFirst accepts := takesFirst_of_quiet quiet_pure
  rwa [show takeIf accepts >>= pure = takeIf accepts from Reader.ext (by funext tokens; simp)] at h

section TakesFirst

variable {accepts : Token → Bool} {r : Reader α} {f : α → Reader β}

theorem TakesFirst.starts_bind (h : r.TakesFirst accepts)
    (hf : ∀ tokens, (∀ t ∈ tokens.head?, accepts t = false) → (f (r.run tokens).value).Starts) : (r >>= f).Starts := by
  intro tokens
  rw [run_bind, kept_append]
  by_cases hr : ∀ t ∈ tokens.head?, accepts t = false
  · obtain ⟨hk, hrest⟩ := h.stays hr
    rw [hk, hrest, List.nil_append]
    exact hf tokens hr tokens
  · cases tokens with
    | nil => exact absurd (by simp) hr
    | cons t tail =>
      rw [h.takes (by simpa using hr)]
      exact .inr ⟨t, tail, _, rfl, rfl⟩

theorem TakesFirst.keeps_bind (h : r.TakesFirst accepts) (hr : ∀ u, resumes u → accepts u = false)
    (hs : (∀ t ∈ tokens.head?, accepts t = false) → (f (r.run tokens).value).Starts)
    (hF : Follows drops resumes ((r >>= f).run tokens).rest rest)
    (hf : (f (r.run tokens).value).Keeps (r.run tokens).rest rest final) : (r >>= f).Keeps tokens rest final := by
  refine Keeps.bind (h.keeps fun ha => ?_) hf
  rw [run_bind] at hF
  rw [(h.stays ha).2] at hF ⊢
  exact (hs ha).head_rejected ha fun he => (he ▸ hF).head_rejected ha hr

theorem TakesFirst.prunes_bind (h : r.TakesFirst accepts) (hr : ∀ u, resumes u → accepts u = false)
    (hs : ∀ tokens, (∀ t ∈ tokens.head?, accepts t = false) → (f (r.run tokens).value).Starts)
    (hf : ∀ x, (f x).Prunes (Follows drops resumes)) : (r >>= f).Prunes (Follows drops resumes) :=
  fun tokens rest hF => h.keeps_bind hr (hs tokens) hF (hf _ _ rest hF)

end TakesFirst

theorem Prunes.bind_of_stays {r : Reader α} {f : α → Reader β} (hr : r.Prunes (Follows drops resumes))
    (hf : ∀ x, (f x).Prunes (Follows drops resumes)) (hs : ∀ x, (f x).Starts) (hb : ∀ x, (f x).StaysAtBlocks) :
    (r >>= f).Prunes (Follows drops resumes) := by
  intro tokens rest h
  exact Keeps.bind (hr _ _ ((hs _).follows (hb _) h)) (hf _ _ _ h)

section Items

variable {turn : Token → List Token → Turn α} {unfinished : Option Cause} {view : α → List γ}

theorem starts_items (h : ∀ t rest context, turn t rest ≠ .drop context) : (items turn unfinished).Starts := by
  intro tokens
  cases tokens with
  | nil => exact .inl ⟨by simp [items, itemsFrom, kept_reports], by simp [items, itemsFrom]⟩
  | cons t rest =>
    cases ht : turn t rest with
    | finish => exact .inr ⟨t, rest, [], rfl, by simp [items, itemsFrom, ht]⟩
    | leave cause => exact .inl ⟨by simp [items, itemsFrom, ht, kept_reports], by simp [items, itemsFrom, ht]⟩
    | pass => exact .inr ⟨t, rest, _, rfl, by simp [items, itemsFrom, ht]; rfl⟩
    | enter item => exact .inr ⟨t, rest, _, rfl, by simp [items, itemsFrom, ht]; rfl⟩
    | drop context => exact absurd ht (h t rest context)

/--
The turns of a list by which it can be pruned: none but a first token of an item looks at more than one token, and an
item, read from what it has kept, adds to the view of the list what it did before.
-/
structure Prunable (turn : Token → List Token → Turn α) (unfinished : Option Cause)
    (drops : Token → List Token → Prop) (resumes : Token → Prop) (view : α → List γ) : Prop where
  finish {t : Token} {rest : List Token} : turn t rest = .finish →
    resumes t ∧ Document.startsBlock t rest = false ∧ ∀ rest', turn t rest' = .finish
  pass {t : Token} {rest : List Token} : turn t rest = .pass →
    resumes t ∧ Document.startsBlock t rest = false ∧ ∀ rest', turn t rest' = .pass
  drop {t : Token} {rest : List Token} {context : Context} : turn t rest = .drop context → drops t rest
  enter {t : Token} {rest : List Token} {item : Reader α} : turn t rest = .enter item → resumes t
  block {t : Token} {rest rest' : List Token} {item : Reader α} : turn t rest = .enter item →
    Document.startsBlock t rest = true → Follows drops resumes (item.run rest).rest rest' →
    Document.startsBlock t (kept (item.run rest).steps ++ rest') = true
  item {t : Token} {rest rest' final : List Token} {item : Reader α} {xs : List α} {ds : List Declaration} :
    turn t rest = .enter item → Follows drops resumes (item.run rest).rest rest' →
    (items turn unfinished).Passes rest' xs ds final →
    ∃ ys, (items turn unfinished).Passes (t :: (kept (item.run rest).steps ++ rest')) ys
      (declarations (item.run rest).steps ++ ds) final ∧
      ys.flatMap view = view (item.run rest).value ++ xs.flatMap view

/-- Where the list has stopped without a closing delimiter, it stops again on what follows there, and leaves `final`. -/
structure StopsAgain (turn : Token → List Token → Turn α) (unfinished : Option Cause)
    (drops : Token → List Token → Prop) (resumes : Token → Prop) (rest rest' final : List Token) : Prop where
  finished {t : Token} {tail : List Token} : turn t tail = .finish → final = rest'
  stopped : (rest = [] ∨ ∃ t tail cause, rest = t :: tail ∧ turn t tail = .leave cause) →
    Follows drops resumes rest rest' ∧ (∀ u ∈ rest'.head?, resumes u) ∧
      (items turn unfinished).Passes rest' [] [] final

theorem Prunable.items (hp : Prunable turn unfinished drops resumes view) (tokens : List Token)
    (hs : StopsAgain turn unfinished drops resumes ((items turn unfinished).run tokens).rest rest final) :
    Follows drops resumes tokens (kept ((Reader.items turn unfinished).run tokens).steps ++ rest) ∧
      (∀ u ∈ (kept ((Reader.items turn unfinished).run tokens).steps ++ rest).head?, resumes u) ∧
      ∃ ys, (Reader.items turn unfinished).Passes (kept ((Reader.items turn unfinished).run tokens).steps ++ rest) ys
        (declarations ((Reader.items turn unfinished).run tokens).steps) final ∧
        ys.flatMap view = ((Reader.items turn unfinished).run tokens).value.flatMap view := by
  change StopsAgain _ _ _ _ (itemsFrom turn unfinished tokens).rest _ _ at hs
  change Follows _ _ _ (kept (itemsFrom turn unfinished tokens).steps ++ _) ∧
    (∀ u ∈ (kept (itemsFrom turn unfinished tokens).steps ++ _).head?, _) ∧
    ∃ ys, Reader.Passes _ (kept (itemsFrom turn unfinished tokens).steps ++ _) _
      (declarations (itemsFrom turn unfinished tokens).steps) _ ∧ _ = (itemsFrom turn unfinished tokens).value.flatMap _
  fun_induction itemsFrom turn unfinished tokens with
  | case1 =>
    rw [kept_reports, declarations_reports, List.nil_append]
    obtain ⟨hf, hr, hpass⟩ := hs.stopped (.inl rfl)
    exact ⟨hf, hr, [], hpass, rfl⟩
  | case2 t tail ht =>
    obtain ⟨hr, hb, ht'⟩ := hp.finish ht
    obtain rfl := hs.finished ht
    refine ⟨.same (by simp [hb]), ?_, [], passes_items_finish (ht' _), rfl⟩
    rintro _ ⟨⟩
    exact hr
  | case3 t tail cause ht =>
    rw [kept_reports, declarations_reports, List.nil_append]
    obtain ⟨hf, hr, hpass⟩ := hs.stopped (.inr ⟨t, tail, cause, rfl, ht⟩)
    exact ⟨hf, hr, [], hpass, rfl⟩
  | case4 t tail ht more ih =>
    obtain ⟨hr, hb, ht'⟩ := hp.pass ht
    obtain ⟨-, -, ys, hpass, hv⟩ := ih hs
    refine ⟨.same (by simp [hb]), ?_, ys, (passes_items_pass (ht' _)).mpr hpass, hv⟩
    rintro _ ⟨⟩
    exact hr
  | case5 t tail item ht first more ih =>
    obtain ⟨hf, -, ys, hpass, hv⟩ := ih hs
    obtain ⟨zs, hz, hzv⟩ := hp.item ht hf hpass
    rw [kept_take, kept_append, declarations_take, declarations_append, List.cons_append, List.append_assoc]
    refine ⟨.same fun hb => hp.block ht hb hf, ?_, zs, hz, by rw [hzv, hv, List.flatMap_cons]⟩
    rintro _ ⟨⟩
    exact hp.enter ht
  | case6 t tail context ht more ih =>
    obtain ⟨-, hr, ys, hpass, hv⟩ := ih hs
    exact ⟨.dropped (hp.drop ht) hr, hr, ys, hpass, hv⟩

end Items

end Reader

end Knockout
