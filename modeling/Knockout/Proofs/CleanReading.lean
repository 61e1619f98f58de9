import Knockout.Document

namespace Knockout

def Step.isSilent : Step → Bool
  | .skip .. | .report .. => false
  | _ => true

def Silent (steps : List Step) : Prop := ∀ step ∈ steps, step.isSilent = true

@[simp]
theorem silent_nil : Silent [] := List.forall_mem_nil _

@[simp]
theorem silent_append {a b : List Step} : Silent (a ++ b) ↔ Silent a ∧ Silent b := List.forall_mem_append

@[simp]
theorem silent_take {t : Token} {steps : List Step} : Silent (.take t :: steps) ↔ Silent steps := by
  simp [Silent, Step.isSilent]

@[simp]
theorem silent_ignore {key : Token} {steps : List Step} : Silent (.ignore key :: steps) ↔ Silent steps := by
  simp [Silent, Step.isSilent]

@[simp]
theorem silent_declare {d : Declaration} {steps : List Step} : Silent (.declare d :: steps) ↔ Silent steps := by
  simp [Silent, Step.isSilent]

@[simp]
theorem not_silent_skip {t : Token} {context : Context} {steps : List Step} : ¬ Silent (.skip t context :: steps) :=
  fun h => Bool.false_ne_true (h _ List.mem_cons_self)

@[simp]
theorem not_silent_report {cause : Cause} {found : Option Token} {steps : List Step} :
    ¬ Silent (.report cause found :: steps) :=
  fun h => Bool.false_ne_true (h _ List.mem_cons_self)

def declarations (steps : List Step) : List Declaration :=
  steps.filterMap fun
    | .declare d => some d
    | _ => none

@[simp]
theorem declarations_nil : declarations [] = [] := rfl

@[simp]
theorem declarations_append {a b : List Step} : declarations (a ++ b) = declarations a ++ declarations b :=
  List.filterMap_append

@[simp]
theorem declarations_take {t : Token} {steps : List Step} :
    declarations (.take t :: steps) = declarations steps := rfl

@[simp]
theorem declarations_ignore {key : Token} {steps : List Step} :
    declarations (.ignore key :: steps) = declarations steps := rfl

@[simp]
theorem declarations_declare {d : Declaration} {steps : List Step} :
    declarations (.declare d :: steps) = d :: declarations steps := rfl

theorem declarations_reports (cause : Option Cause) (found : Option Token) :
    declarations (cause.toList.map (.report · found)) = [] := by
  cases cause <;> rfl

namespace Reader

variable {α β : Type}

/-- Silently, the reader makes `value` and the declarations `ds` of the head of `tokens`, and leaves `rest`. -/
def Accepts (r : Reader α) (tokens : List Token) (value : α) (ds : List Declaration) (rest : List Token) : Prop :=
  (r.run tokens).value = value ∧ (r.run tokens).rest = rest ∧ Silent (r.run tokens).steps ∧
    declarations (r.run tokens).steps = ds

theorem accepts_pure {value x : α} {tokens rest : List Token} {ds : List Declaration} :
    (pure value : Reader α).Accepts tokens x ds rest ↔ x = value ∧ ds = [] ∧ rest = tokens := by
  simp [Accepts, eq_comm, and_comm]

theorem accepts_bind {r : Reader α} {next : α → Reader β} {tokens rest : List Token} {y : β} {ds : List Declaration} :
    (r >>= next).Accepts tokens y ds rest ↔
      ∃ x d₁ middle d₂, r.Accepts tokens x d₁ middle ∧ (next x).Accepts middle y d₂ rest ∧ ds = d₁ ++ d₂ := by
  simp only [Accepts, run_bind, silent_append, declarations_append]
  constructor
  · rintro ⟨rfl, rfl, ⟨hr, hn⟩, rfl⟩
    exact ⟨_, _, _, _, ⟨rfl, rfl, hr, rfl⟩, ⟨rfl, rfl, hn, rfl⟩, rfl⟩
  · rintro ⟨x, d₁, middle, d₂, ⟨rfl, rfl, hr, rfl⟩, ⟨rfl, rfl, hn, rfl⟩, rfl⟩
    exact ⟨rfl, rfl, ⟨hr, hn⟩, rfl⟩

@[simp]
theorem accepts_report {cause : Cause} {tokens rest : List Token} {x : Unit} {ds : List Declaration} :
    ¬ (report cause).Accepts tokens x ds rest := by
  simp [Accepts, report]

@[simp]
theorem accepts_reportAt {t : Token} {cause : Cause} {tokens rest : List Token} {x : Unit} {ds : List Declaration} :
    ¬ (reportAt t cause).Accepts tokens x ds rest := by
  simp [Accepts, reportAt]

theorem accepts_ignore_bind {key : Token} {next : Unit → Reader β} {tokens rest : List Token} {y : β}
    {ds : List Declaration} :
    (ignore key >>= next).Accepts tokens y ds rest ↔ (next ()).Accepts tokens y ds rest := by
  simp [Accepts, ignore]

theorem accepts_declare {d : Declaration} {tokens rest : List Token} {x : Unit} {ds : List Declaration} :
    (declare d).Accepts tokens x ds rest ↔ ds = [d] ∧ rest = tokens := by
  simp [Accepts, declare, eq_comm, and_comm]

theorem accepts_takeIf_bind {accepts : Token → Bool} {next : Option Token → Reader β} {tokens rest : List Token}
    {y : β} {ds : List Declaration} :
    (takeIf accepts >>= next).Accepts tokens y ds rest ↔
      (∃ t tail, tokens = t :: tail ∧ accepts t = true ∧ (next (some t)).Accepts tail y ds rest) ∨
      ((∀ t ∈ tokens.head?, accepts t = false) ∧ (next none).Accepts tokens y ds rest) := by
  cases tokens with
  | nil => simp [Accepts, takeIf]
  | cons t tail =>
    by_cases h : accepts t = true
    · have he : (takeIf accepts >>= next).Accepts (t :: tail) y ds rest ↔ (next (some t)).Accepts tail y ds rest := by
        simp [Accepts, takeIf, h]
      rw [he]
      constructor
      · exact fun hn => .inl ⟨t, tail, rfl, h, hn⟩
      · rintro (⟨_, _, ⟨⟩, -, hn⟩ | ⟨hf, -⟩)
        · exact hn
        · simp [h] at hf
    · simp [Accepts, takeIf, h]

theorem accepts_takeKind_bind {kind : TokenKind} {next : Option Token → Reader β} {tokens rest : List Token}
    {y : β} {ds : List Declaration} :
    (takeKind kind >>= next).Accepts tokens y ds rest ↔
      (∃ t tail, tokens = t :: tail ∧ t.kind = kind ∧ (next (some t)).Accepts tail y ds rest) ∨
      ((∀ t ∈ tokens.head?, t.kind ≠ kind) ∧ (next none).Accepts tokens y ds rest) := by
  simp [takeKind, accepts_takeIf_bind]

section Items

variable {turn : Token → List Token → Turn α} {unfinished : Option Cause} {t : Token} {rest final : List Token}
  {xs : List α} {ds : List Declaration}

theorem accepts_items_nil :
    (items turn unfinished).Accepts [] xs ds final ↔ unfinished = none ∧ xs = [] ∧ ds = [] ∧ final = [] := by
  simp only [Accepts, items, itemsFrom]
  cases unfinished <;> simp [eq_comm, and_comm]

theorem accepts_items_finish (h : turn t rest = .finish) :
    (items turn unfinished).Accepts (t :: rest) xs ds final ↔ xs = [] ∧ ds = [] ∧ final = rest := by
  simp [Accepts, items, itemsFrom, h, eq_comm, and_comm]

theorem accepts_items_leave {cause : Option Cause} (h : turn t rest = .leave cause) :
    (items turn unfinished).Accepts (t :: rest) xs ds final ↔ cause = none ∧ xs = [] ∧ ds = [] ∧ final = t :: rest := by
  simp only [Accepts, items, itemsFrom, h]
  cases cause <;> simp [eq_comm, and_comm]

theorem accepts_items_pass (h : turn t rest = .pass) :
    (items turn unfinished).Accepts (t :: rest) xs ds final ↔ (items turn unfinished).Accepts rest xs ds final := by
  simp [Accepts, items, itemsFrom, h]

theorem accepts_items_drop {context : Context} (h : turn t rest = .drop context) :
    ¬ (items turn unfinished).Accepts (t :: rest) xs ds final := by
  simp [Accepts, items, itemsFrom, h]

theorem accepts_items_enter {item : Reader α} (h : turn t rest = .enter item) :
    (items turn unfinished).Accepts (t :: rest) xs ds final ↔
      ∃ x d middle xs' ds', item.Accepts rest x d middle ∧ (items turn unfinished).Accepts middle xs' ds' final ∧
        xs = x :: xs' ∧ ds = d ++ ds' := by
  simp only [Accepts, items, itemsFrom, h, silent_take, silent_append, declarations_take, declarations_append]
  constructor
  · rintro ⟨rfl, rfl, ⟨hi, hm⟩, rfl⟩
    exact ⟨_, _, _, _, _, ⟨rfl, rfl, hi, rfl⟩, ⟨rfl, rfl, hm, rfl⟩, rfl, rfl⟩
  · rintro ⟨x, d, middle, xs', ds', ⟨rfl, rfl, hi, rfl⟩, ⟨rfl, rfl, hm, rfl⟩, rfl, rfl⟩
    exact ⟨rfl, rfl, ⟨hi, hm⟩, rfl⟩

end Items

end Reader

end Knockout
