import Knockout.Proofs.Routines

namespace Knockout

def Cause.isStructural (cause : Cause) : Bool :=
  cause.kind = .missingDelimiter || cause.kind = .missingValue || cause.kind = .invalidValue

/--
Steps that lead from one point of the tokens to another. A report stands at the point that is reached, or at the token
just taken; an unknown attribute is ignored when its key and the colon have been taken.
-/
inductive Walk : List Token → List Step → List Token → Prop
  | nil {tokens : List Token} : Walk tokens [] tokens
  | take {t : Token} {tokens rest : List Token} {steps : List Step} :
    Walk tokens steps rest → Walk (t :: tokens) (.take t :: steps) rest
  | skip {t : Token} {context : Context} {tokens rest : List Token} {steps : List Step} :
    Walk tokens steps rest → Walk (t :: tokens) (.skip t context :: steps) rest
  | report {cause : Cause} {tokens rest : List Token} {steps : List Step} :
    cause.isStructural = true → Walk tokens steps rest → Walk tokens (.report cause tokens.head? :: steps) rest
  | refuse {cause : Cause} {t : Token} {tokens rest : List Token} {steps : List Step} :
    cause.isStructural = true → Walk tokens steps rest →
      Walk (t :: tokens) (.take t :: .report cause (some t) :: steps) rest
  | ignore {key colon : Token} {tokens rest : List Token} {steps : List Step} :
    Walk tokens steps rest → Walk (key :: colon :: tokens) (.take key :: .take colon :: .ignore key :: steps) rest
  | declare {d : Declaration} {tokens rest : List Token} {steps : List Step} :
    Walk tokens steps rest → Walk tokens (.declare d :: steps) rest

theorem Walk.append {tokens middle rest : List Token} {a b : List Step} (h : Walk tokens a middle)
    (h' : Walk middle b rest) : Walk tokens (a ++ b) rest := by
  induction h with
  | nil => exact h'
  | take _ ih => exact .take (ih h')
  | skip _ ih => exact .skip (ih h')
  | report hc _ ih => exact .report hc (ih h')
  | refuse hc _ ih => exact .refuse hc (ih h')
  | ignore _ ih => exact .ignore (ih h')
  | declare _ ih => exact .declare (ih h')

theorem Walk.isStructural {tokens rest : List Token} {steps : List Step} (h : Walk tokens steps rest) {cause : Cause}
    {found : Option Token} (hm : .report cause found ∈ steps) : cause.isStructural = true := by
  induction h with
  | nil => cases hm
  | take _ ih =>
    cases hm with
    | tail _ hm => exact ih hm
  | skip _ ih =>
    cases hm with
    | tail _ hm => exact ih hm
  | report hc _ ih =>
    cases hm with
    | head => exact hc
    | tail _ hm => exact ih hm
  | refuse hc _ ih =>
    cases hm with
    | tail _ hm =>
      cases hm with
      | head => exact hc
      | tail _ hm => exact ih hm
  | ignore _ ih =>
    rcases hm with _ | ⟨_, _ | ⟨_, _ | ⟨_, hm⟩⟩⟩
    exact ih hm
  | declare _ ih =>
    cases hm with
    | tail _ hm => exact ih hm

namespace Reader

variable {α β : Type}

def Walks (r : Reader α) : Prop := ∀ tokens, Walk tokens (r.run tokens).steps (r.run tokens).rest

theorem walks_pure (x : α) : (pure x : Reader α).Walks := fun _ => .nil

theorem walks_report {cause : Cause} (h : cause.isStructural = true) : (report cause).Walks :=
  fun _ => .report h .nil

theorem walks_declare (d : Declaration) : (declare d).Walks := fun _ => .declare .nil

theorem walks_takeIf (accepts : Token → Bool) : (takeIf accepts).Walks := by
  intro tokens
  cases tokens with
  | nil => exact .nil
  | cons t rest =>
    by_cases h : accepts t = true
    · simp only [takeIf, if_pos h]
      exact .take .nil
    · simp only [takeIf, if_neg h]
      exact .nil

theorem Walks.bind {r : Reader α} {f : α → Reader β} (hr : r.Walks) (hf : ∀ x, (f x).Walks) : (r >>= f).Walks :=
  fun tokens => (hr tokens).append (hf _ _)

theorem Walks.map {r : Reader α} (h : r.Walks) (f : α → β) : (r >>= fun x => pure (f x)).Walks :=
  h.bind fun _ => walks_pure _

theorem walk_reports {cause : Option Cause} (h : ∀ c ∈ cause, c.isStructural = true) (tokens : List Token) :
    Walk tokens (cause.toList.map (.report · tokens.head?)) tokens := by
  cases cause with
  | none => exact .nil
  | some c => exact .report (h c rfl) .nil

theorem walks_items {turn : Token → List Token → Turn α} {unfinished : Option Cause}
    (hend : ∀ cause ∈ unfinished, cause.isStructural = true)
    (hleave : ∀ t rest cause, turn t rest = .leave (some cause) → cause.isStructural = true)
    (henter : ∀ t rest item, turn t rest = .enter item →
      Walk (t :: rest) (.take t :: (item.run rest).steps) (item.run rest).rest) : (items turn unfinished).Walks := by
  intro tokens
  change Walk tokens (itemsFrom turn unfinished tokens).steps (itemsFrom turn unfinished tokens).rest
  fun_induction itemsFrom turn unfinished tokens with
  | case1 => exact walk_reports hend []
  | case2 => exact .take .nil
  | case3 t rest cause ht => exact walk_reports (fun c hc => hleave t rest c (by rw [ht, hc])) (t :: rest)
  | case4 t rest _ more ih => exact .take ih
  | case5 t rest item ht first more ih => exact (henter t rest item ht).append ih
  | case6 t rest context _ more ih => exact .skip ih

end Reader

theorem Cause.isStructural_of_isLocal {cause : Cause} (h : cause.isLocal = true) : cause.isStructural = true := by
  cases cause <;> first | rfl | cases h

namespace Document

open Reader

variable {α β : Type}

theorem walks_value (fence : Fence) (accepts : Token → Bool) (key : Token) : (value fence accepts key).Walks := by
  refine (walks_takeIf _).bind fun o => ?_
  split
  · exact walks_pure _
  intro tokens
  cases tokens with
  | nil => exact .report rfl .nil
  | cons t rest =>
    by_cases h : (t.kind ≠ fence.closer && t.kind ≠ .comma) = true
    · simp only [run_bind, takeIf, if_pos h]
      exact .refuse rfl .nil
    · simp only [run_bind, takeIf, if_neg h]
      exact .report rfl .nil

theorem walks_list (fence : Fence) (context : Context) {item : Token → Option (Reader α)}
    (h : ∀ t reader, item t = some reader → ∀ rest, Walk (t :: rest) (.take t :: (reader.run rest).steps)
      (reader.run rest).rest) : (list fence context item).Walks := by
  rw [list]
  apply walks_items
  · rintro _ ⟨⟩
    rfl
  · intro t rest cause hc
    rw [Option.some.inj (listTurn_eq_leave_iff.mp hc).1]
    rfl
  · exact fun t rest reader ht => h t reader (item_of_listTurn_eq_enter ht) rest

def WalksFrom : Option Token → Reader α → Prop
  | none, r => r.Walks
  | some key, r => ∀ colon tokens,
    Walk (key :: colon :: tokens) (.take key :: .take colon :: (r.run tokens).steps) (r.run tokens).rest

theorem walksFrom_of_walks {r : Reader α} (h : r.Walks) (key : Option Token) : WalksFrom key r := by
  cases key with
  | none => exact h
  | some key => exact fun colon tokens => .take (.take (h tokens))

theorem WalksFrom.map {key : Option Token} {r : Reader α} (h : WalksFrom key r) (f : α → β) :
    WalksFrom key (r >>= fun x => pure (f x)) := by
  cases key with
  | none => exact Walks.map h f
  | some key =>
    intro colon tokens
    simp only [run_bind, run_pure, List.append_nil]
    exact h colon tokens

theorem walksFrom_bracketed {key : Option Token} {content other : Reader α} (hc : content.Walks)
    (ho : WalksFrom key other) :
    WalksFrom key (takeKind .openBracket >>= fun o => if o.isSome = true then content else other) := by
  cases key with
  | none =>
    apply (walks_takeIf _).bind
    intro o
    split
    · exact hc
    · exact ho
  | some key =>
    intro colon tokens
    cases tokens with
    | nil => exact ho colon []
    | cons t rest =>
      by_cases hk : t.kind = .openBracket
      · simp only [run_bind, takeKind, takeIf, hk, decide_true, if_true]
        exact .take (.take (.take (hc rest)))
      · simp only [run_bind, takeKind, takeIf, hk, decide_false]
        exact ho colon (t :: rest)

theorem walks_pairs (fence : Fence) (context : Context) {valueOf : Token → Reader (Option α)}
    (h : ∀ key, WalksFrom (some key) (valueOf key)) : (pairs fence context valueOf).Walks := by
  refine (walks_list fence context fun key reader hr rest => ?_).map _
  obtain ⟨-, hr⟩ := Option.ite_none_right_eq_some.mp hr
  rw [← Option.some.inj hr]
  by_cases hc : ∃ colon tail, rest = colon :: tail ∧ colon.kind = .colon
  · obtain ⟨colon, tail, rfl, hk⟩ := hc
    simp only [run_bind, takeKind, takeIf, hk, decide_true, if_true]
    exact h key colon tail
  · have hrest : (takeKind .colon).run rest = ⟨none, [], rest⟩ := by
      cases rest with
      | nil => rfl
      | cons colon tail => exact if_neg fun hk => hc ⟨colon, tail, rfl, of_decide_eq_true hk⟩
    have hmissing : (report (.missingColon key.lexeme) >>= fun _ => takeIf (fun t => t.kind ≠ fence.closer) >>= fun _ =>
        pure (none : Option α)).Walks := (walks_report rfl).bind fun _ => (walks_takeIf _).map _
    rw [run_bind, hrest]
    exact .take (hmissing rest)

theorem walks_fixtures (keyword : Token) (h : ∀ t, (fixture t).Walks) (fence : Option Fence) :
    (items (phaseTurn keyword fence) (fence.map (.unclosedPhase · keyword.lexeme))).Walks := by
  have hend (cause : Cause) (hc : cause ∈ fence.map (.unclosedPhase · keyword.lexeme)) :
      cause.isStructural = true := by
    obtain ⟨f, -, rfl⟩ := Option.map_eq_some_iff.mp hc
    rfl
  apply walks_items hend
  · exact fun t rest cause hc => hend cause (cause_of_phaseTurn hc).symm
  · intro t rest item ht
    obtain ⟨-, rfl⟩ := phaseTurn_eq_enter_iff.mp ht
    exact .take (h t rest)

variable {m n : Nat}

theorem Brief.walks {r : Reader α} (h : Brief m n r) : r.Walks := by
  induction h with
  | result => exact walks_pure _
  | take => exact walks_takeIf _
  | report hc => exact walks_report (Cause.isStructural_of_isLocal hc)
  | bind _ _ ih ih' => exact ih.bind ih'

theorem Entry.walks {key : Option Token} {r : Reader α} (h : Entry key m n r) : WalksFrom key r := by
  induction h with
  | brief h => exact h.walks
  | after h _ ih => exact h.walks.bind ih
  | map f _ ih => exact ih.map f
  | spare _ _ ih => exact ih
  | value fence accepts key => exact walksFrom_of_walks (walks_value fence accepts key) _
  | ignored => exact fun colon tokens => .ignore ((walks_value _ _ _).map _ tokens)
  | bracketed _ _ ih ih' => exact walksFrom_bracketed ih ih'
  | list fence context _ ih => exact walks_list fence context fun t reader hr rest => .take (ih t reader hr rest)
  | pairs fence context _ ih => exact walks_pairs fence context ih
  | fixtures keyword _ ih => exact (brief_phaseFence (n := 0) keyword).walks.bind (walks_fixtures keyword ih)

theorem Closing.walks {r : Reader Unit} (h : Closing m n r) : r.Walks := by
  induction h with
  | result => exact walks_pure ()
  | declare d => exact walks_declare d
  | semicolon _ ih => exact (walks_takeIf _).bind fun _ => ih

theorem Part.walks {r : Reader α} (h : Part m n r) : r.Walks := by
  induction h with
  | entry h => exact h.walks
  | after h _ ih => exact h.walks.bind ih
  | list fence context _ ih => exact walks_list fence context fun t reader hr rest => .take (ih t reader hr rest)
  | closed _ hlast ih => exact ih.bind fun x => (hlast x).walks

theorem read_walk (tokens : List Token) : Walk tokens (read tokens) [] := by
  have hrest := rest_documentTurn tokens
  have hwalks : (items documentTurn none).Walks := by
    apply walks_items
    · exact nofun
    · exact fun t rest cause hc => absurd hc (documentTurn_ne_leave t rest _)
    · intro t rest block ht
      exact .take ((part_block? (documentTurn_eq_enter_iff.mp ht)).walks rest)
  have hwalk := hwalks tokens
  rwa [hrest] at hwalk

end Document

end Knockout
