import Knockout.Proofs.Rounds
import Knockout.Proofs.Routines

namespace Knockout

/-- The step as it is taken where the tokens do not end but go on with `next`. -/
def Step.before (next : Token) : Step → Step
  | report cause none => report cause (some next)
  | step => step

/-- The tokens end neither with what may be a key nor between a key and its value. -/
def Settled (tokens : List Token) : Prop :=
  ∀ t ∈ tokens.getLast?, t.kind ≠ .reserved ∧ t.kind ≠ .identifier ∧ t.kind ≠ .colon

theorem Settled.suffix {tokens tail : List Token} (h : Settled tokens) (hs : tail <:+ tokens) : Settled tail := by
  obtain ⟨front, rfl⟩ := hs
  intro t ht
  apply h
  rw [Option.mem_def] at ht ⊢
  rw [List.getLast?_append, ht, Option.some_or]

theorem Settled.tail {t : Token} {tokens : List Token} (h : Settled (t :: tokens)) : Settled tokens :=
  h.suffix (List.suffix_cons t tokens)

theorem Settled.ne_nil {t : Token} {tokens : List Token} (h : Settled (t :: tokens))
    (hk : t.isKey = true ∨ t.kind = .colon) : tokens ≠ [] := by
  rintro rfl
  obtain ⟨hr, hi, hc⟩ := h t rfl
  simp [Token.isKey, hr, hi, hc] at hk

namespace Reader

variable {α β : Type} {next : Token} {more tokens : List Token}

/-- Where the tokens go on with `next`, the reader stops in front of it as it does at their end. -/
def Suspends (r : Reader α) (next : Token) (more tokens : List Token) : Prop :=
  r.run (tokens ++ next :: more) =
    ⟨(r.run tokens).value, (r.run tokens).steps.map (Step.before next), (r.run tokens).rest ++ next :: more⟩

theorem suspends_pure (x : α) : (pure x : Reader α).Suspends next more tokens := rfl

theorem suspends_report (cause : Cause) : (report cause).Suspends next more tokens := by
  cases tokens <;> rfl

theorem suspends_reportAt (t : Token) (cause : Cause) : (reportAt t cause).Suspends next more tokens := rfl

theorem suspends_ignore (key : Token) : (ignore key).Suspends next more tokens := rfl

theorem suspends_declare (d : Declaration) : (declare d).Suspends next more tokens := rfl

theorem Suspends.bind {r : Reader α} {f : α → Reader β} (hr : r.Suspends next more tokens)
    (hf : (f (r.run tokens).value).Suspends next more (r.run tokens).rest) :
    (r >>= f).Suspends next more tokens := by
  unfold Suspends at hr hf ⊢
  rw [run_bind, run_bind, hr, hf, List.map_append]

theorem Suspends.map {r : Reader α} (h : r.Suspends next more tokens) (f : α → β) :
    (r >>= fun x => pure (f x)).Suspends next more tokens :=
  h.bind (suspends_pure _)

theorem suspends_takeIf {accepts : Token → Bool} (h : tokens = [] → accepts next = false) :
    (takeIf accepts).Suspends next more tokens := by
  cases tokens with
  | nil => simp [Suspends, takeIf, h rfl]
  | cons t rest => by_cases ht : accepts t = true <;> simp [Suspends, takeIf, ht, Step.before]

theorem suspends_takeIf_bind {accepts : Token → Bool} {f : Option Token → Reader β}
    (hnext : tokens = [] → accepts next = false)
    (hsome : ∀ t rest, tokens = t :: rest → accepts t = true → (f (some t)).Suspends next more rest)
    (hnone : (∀ t ∈ tokens.head?, accepts t = false) → (f none).Suspends next more tokens) :
    (takeIf accepts >>= f).Suspends next more tokens := by
  apply (suspends_takeIf hnext).bind
  cases tokens with
  | nil => exact hnone (by simp)
  | cons t rest =>
    by_cases ht : accepts t = true
    · simpa [takeIf, ht] using hsome t rest rfl ht
    · simpa [takeIf, ht] using hnone (by simpa using ht)

theorem suspends_items {turn : Token → List Token → Turn α} {unfinished : Option Cause}
    (hnext : turn next more = .leave unfinished)
    (hturn : ∀ t rest, Settled (t :: rest) → turn t (rest ++ next :: more) = turn t rest)
    (hitem : ∀ t rest item, Settled (t :: rest) → turn t rest = .enter item → item.Suspends next more rest)
    (h : Settled tokens) : (items turn unfinished).Suspends next more tokens := by
  change itemsFrom turn unfinished (tokens ++ next :: more) = ⟨(itemsFrom turn unfinished tokens).value,
    (itemsFrom turn unfinished tokens).steps.map (Step.before next),
    (itemsFrom turn unfinished tokens).rest ++ next :: more⟩
  fun_induction itemsFrom turn unfinished tokens with
  | case1 =>
    rw [List.nil_append, itemsFrom, hnext]
    cases unfinished <;> rfl
  | case2 t rest ht =>
    rw [List.cons_append, itemsFrom, hturn t rest h, ht]
    rfl
  | case3 t rest cause ht =>
    rw [List.cons_append, itemsFrom, hturn t rest h, ht]
    cases cause <;> rfl
  | case4 t rest ht more' ih =>
    rw [List.cons_append, itemsFrom, hturn t rest h, ht]
    dsimp only
    rw [ih h.tail]
    rfl
  | case5 t rest item ht first more' ih =>
    have hs : Settled first.rest := h.tail.suffix (item.rest_suffix rest)
    have hi : item.run (rest ++ next :: more) = ⟨first.value, first.steps.map (Step.before next),
      first.rest ++ next :: more⟩ := hitem t rest item h ht
    rw [List.cons_append, itemsFrom, hturn t rest h, ht]
    dsimp only
    rw [hi]
    dsimp only
    rw [ih hs, List.map_cons, List.map_append]
    rfl
  | case6 t rest context ht more' ih =>
    rw [List.cons_append, itemsFrom, hturn t rest h, ht]
    dsimp only
    rw [ih h.tail]
    rfl

end Reader

namespace Document

open Reader

section

variable {α : Type} {next : Token} {more tokens : List Token}

theorem startsBlock_append {t : Token} {rest : List Token} (h : Settled (t :: rest)) (other : List Token) :
    startsBlock t (rest ++ other) = startsBlock t rest := by
  cases rest with
  | cons u rest => rfl
  | nil =>
    have hb : t.isBlockKeyword = false := by
      by_contra hb
      exact (h t rfl).1 (Token.kind_of_isBlockKeyword (by simpa using hb))
    rw [startsBlock_eq_false hb, startsBlock_eq_false hb]

theorem listTurn_append {fence : Fence} {context : Context} {item : Token → Option (Reader α)} {t : Token}
    {rest : List Token} (h : Settled (t :: rest)) (other : List Token) :
    listTurn fence context item t (rest ++ other) = listTurn fence context item t rest := by
  rw [listTurn, startsBlock_append h]
  rfl

theorem phaseTurn_append {keyword t : Token} {fence : Option Fence} {rest : List Token} (h : Settled (t :: rest))
    (other : List Token) : phaseTurn keyword fence t (rest ++ other) = phaseTurn keyword fence t rest := by
  cases fence with
  | none => rfl
  | some f =>
    rw [phaseTurn, startsBlock_append h]
    rfl

variable (hb : startsBlock next more = true)

include hb

theorem suspends_takeKind_bind {β : Type} {kind : TokenKind} (hk : kind ≠ .reserved) {f : Option Token → Reader β}
    (hsome : ∀ t rest, tokens = t :: rest → t.kind = kind → (f (some t)).Suspends next more rest)
    (hnone : (f none).Suspends next more tokens) : (takeKind kind >>= f).Suspends next more tokens := by
  refine suspends_takeIf_bind (fun _ => ?_) (fun t rest ht hkind => ?_) fun _ => hnone
  · simpa [kind_of_startsBlock hb] using Ne.symm hk
  · exact hsome t rest ht (by simpa using hkind)

theorem suspends_list {fence : Fence} {context : Context} {item : Token → Option (Reader α)}
    (hitem : ∀ t rest reader, Settled (t :: rest) → item t = some reader → reader.Suspends next more rest)
    (h : Settled tokens) : (list fence context item).Suspends next more tokens := by
  refine suspends_items ?_ ?_ ?_ h
  · exact listTurn_eq_leave_iff.mpr ⟨rfl, hb⟩
  · exact fun t rest hs => listTurn_append hs _
  · exact fun t rest reader hs ht => hitem t rest reader hs (item_of_listTurn_eq_enter ht)

omit hb in
theorem suspends_value {fence : Fence} {accepts : Token → Bool} {key : Token} (hne : tokens ≠ []) :
    (value fence accepts key).Suspends next more tokens := by
  refine suspends_takeIf_bind (fun h => absurd h hne) (fun _ _ _ _ => suspends_pure _) fun _ => ?_
  refine suspends_takeIf_bind (fun h => absurd h hne) (fun _ _ _ _ => ?_) fun _ => ?_
  · exact (suspends_reportAt _ _).map _
  · exact (suspends_report _).map _

theorem suspends_pairs {fence : Fence} {context : Context} {valueOf : Token → Reader (Option α)}
    (hv : ∀ key rest, rest ≠ [] → Settled rest → (valueOf key).Suspends next more rest) (h : Settled tokens) :
    (pairs fence context valueOf).Suspends next more tokens := by
  refine (suspends_list hb (fun key rest reader hs hr => ?_) h).map _
  split at hr
  case isFalse => cases hr
  case isTrue hkey =>
    obtain rfl := Option.some.inj hr
    have hne := hs.ne_nil (.inl hkey)
    refine suspends_takeKind_bind hb (by decide) (fun colon rest' he hk => ?_) ?_
    · subst he
      exact hv key rest' (hs.tail.ne_nil (.inr hk)) hs.tail.tail
    · refine (suspends_report _).bind ?_
      refine suspends_takeIf_bind (fun h => absurd h hne) (fun _ _ _ _ => ?_) fun _ => ?_
      · exact suspends_pure _
      · exact suspends_pure _

theorem suspends_fixtures (keyword : Token)
    (hf : ∀ t rest, Settled rest → (fixture t).Suspends next more rest) (fence : Option Fence) (h : Settled tokens) :
    (items (phaseTurn keyword fence) (fence.map (.unclosedPhase · keyword.lexeme))).Suspends next more tokens := by
  refine suspends_items ?_ ?_ ?_ h
  · exact phaseTurn_of_startsBlock keyword fence hb
  · exact fun t rest hs => phaseTurn_append hs _
  · intro t rest item hs ht
    obtain ⟨-, rfl⟩ := phaseTurn_eq_enter_iff.mp ht
    exact hf t rest hs.tail

variable {m n : Nat} {r : Reader α}

theorem Brief.suspends (h : Brief m n r) : r.Suspends next more tokens := by
  induction h generalizing tokens with
  | result => exact suspends_pure _
  | take ht => exact suspends_takeIf fun _ => ht next (isBlockKeyword_of_startsBlock hb)
  | report => exact suspends_report _
  | bind _ _ ih ih' => exact ih.bind (ih' _)

theorem Entry.suspends {key : Option Token} (h : Entry key m n r) (hs : Settled tokens)
    (hne : key.isSome = true → tokens ≠ []) : r.Suspends next more tokens := by
  induction h generalizing tokens with
  | brief h => exact h.suspends hb
  | after h _ ih => exact (h.suspends hb).bind (ih _ (hs.suffix (rest_suffix _ _)) nofun)
  | map f _ ih => exact (ih hs hne).map f
  | spare _ _ ih => exact ih hs hne
  | value => exact suspends_value (hne rfl)
  | ignored fence accepts key => exact (suspends_ignore key).bind ((suspends_value (hne rfl)).map _)
  | bracketed _ _ ih ih' =>
    refine suspends_takeKind_bind hb (by decide) ?_ (ih' hs hne)
    rintro t rest rfl -
    exact ih hs.tail nofun
  | list fence context _ ih => exact suspends_list hb (fun t rest reader hs hr => ih t reader hr hs.tail nofun) hs
  | pairs fence context _ ih => exact suspends_pairs hb (fun key rest hne hs => ih key hs fun _ => hne) hs
  | fixtures keyword _ ih =>
    apply ((brief_phaseFence (n := 0) keyword).suspends hb).bind
    exact suspends_fixtures hb keyword (fun t rest hs => ih t hs nofun) _ (hs.suffix (rest_suffix _ _))

theorem Closing.suspends {r : Reader Unit} (h : Closing m n r) : r.Suspends next more tokens := by
  induction h generalizing tokens with
  | result => exact suspends_pure ()
  | declare d => exact suspends_declare d
  | semicolon _ ih => exact ((brief_takeKind (n := 0) (by decide)).suspends hb).bind ih

theorem Part.suspends (h : Part m n r) (hs : Settled tokens) : r.Suspends next more tokens := by
  induction h generalizing tokens with
  | entry h => exact h.suspends hb hs nofun
  | after h _ ih => exact (h.suspends hb).bind (ih _ (hs.suffix (rest_suffix _ _)))
  | list fence context _ ih => exact suspends_list hb (fun t rest reader hs hr => ih t reader hr hs.tail) hs
  | closed _ hlast ih => exact (ih hs).bind ((hlast _).suspends hb)

end

end Document

end Knockout
