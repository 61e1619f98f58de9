import Knockout.Proofs.Turns
import Mathlib.Data.List.Forall2

namespace Knockout

def Team.Mirrors (lines : UInt32 → UInt32 → Prop) (a b : Team) : Prop :=
  a.name = b.name ∧ a.players = b.players ∧ lines a.line b.line

def Fixture.Mirrors (lines : UInt32 → UInt32 → Prop) (a b : Fixture) : Prop :=
  a.home = b.home ∧ a.away = b.away ∧ a.result = b.result ∧ a.scorers = b.scorers ∧ lines a.line b.line

structure Mirroring (same : Token → Token → Prop) (lines : UInt32 → UInt32 → Prop) : Prop where
  kind {t u : Token} : same t u → t.kind = u.kind
  lexeme {t u : Token} : same t u → t.kind ≠ .versus → t.lexeme = u.lexeme
  line {t u : Token} : same t u → lines t.position.line u.position.line

section

variable (same : Token → Token → Prop) (lines : UInt32 → UInt32 → Prop)

inductive Declaration.Mirrors : Declaration → Declaration → Prop
  | info {t u : Token} (entries : KeyMap String) :
    same t u → t.lexeme = u.lexeme → Mirrors (.info t entries) (.info u entries)
  | teams {a b : List Team} : List.Forall₂ (Team.Mirrors lines) a b → Mirrors (.teams a) (.teams b)
  | phase {t u : Token} {a b : List Fixture} : same t u → t.lexeme = u.lexeme →
    List.Forall₂ (Fixture.Mirrors lines) a b → Mirrors (.phase t a) (.phase u b)

inductive Step.Mirrors : Step → Step → Prop
  | take {t u : Token} : same t u → Mirrors (.take t) (.take u)
  | skip {t u : Token} (context : Context) : same t u → Mirrors (.skip t context) (.skip u context)
  | report {a b : Option Token} (cause : Cause) : Option.Rel same a b → Mirrors (.report cause a) (.report cause b)
  | invalid {t u : Token} (key : String) : same t u →
    Mirrors (.report (.invalidValue t.lexeme key) (some t)) (.report (.invalidValue u.lexeme key) (some u))
  | ignore {t u : Token} : same t u → t.lexeme = u.lexeme → Mirrors (.ignore t) (.ignore u)
  | declare {a b : Declaration} : Declaration.Mirrors same lines a b → Mirrors (.declare a) (.declare b)

end

namespace Reader

section

variable (same : Token → Token → Prop) (lines : UInt32 → UInt32 → Prop)

/-- On related tokens the readers take related steps, to related values, and leave related tokens. -/
def Mirrors {α β : Type} (V : α → β → Prop) (r : Reader α) (r' : Reader β) : Prop :=
  ∀ tokens tokens', List.Forall₂ same tokens tokens' → V (r.run tokens).value (r'.run tokens').value ∧
    List.Forall₂ (Step.Mirrors same lines) (r.run tokens).steps (r'.run tokens').steps ∧
      List.Forall₂ same (r.run tokens).rest (r'.run tokens').rest

inductive Turn.Mirrors {α β : Type} (V : α → β → Prop) : Turn α → Turn β → Prop
  | finish : Mirrors V .finish .finish
  | leave (cause : Option Cause) : Mirrors V (.leave cause) (.leave cause)
  | pass : Mirrors V .pass .pass
  | enter {item : Reader α} {item' : Reader β} : Reader.Mirrors same lines V item item' →
    Mirrors V (.enter item) (.enter item')
  | drop (context : Context) : Mirrors V (.drop context) (.drop context)

end

variable {α β γ δ : Type} {same : Token → Token → Prop} {lines : UInt32 → UInt32 → Prop} {V : α → β → Prop}
  {W : γ → δ → Prop}

theorem rel_of_eq {x y : Option α} (h : x = y) : Option.Rel Eq x y := by
  subst h
  cases x with
  | none => exact .none
  | some _ => exact .some rfl

theorem mirrors_pure {x : α} {y : β} (h : V x y) : Mirrors same lines V (pure x) (pure y) :=
  fun _ _ ht => ⟨h, .nil, ht⟩

theorem Mirrors.bind {r : Reader α} {r' : Reader β} {f : α → Reader γ} {f' : β → Reader δ}
    (hr : Mirrors same lines V r r') (hf : ∀ x y, V x y → Mirrors same lines W (f x) (f' y)) :
    Mirrors same lines W (r >>= f) (r' >>= f') := by
  intro tokens tokens' ht
  obtain ⟨hvalue, hsteps, hrest⟩ := hr tokens tokens' ht
  obtain ⟨hvalue', hsteps', hrest'⟩ := hf _ _ hvalue _ _ hrest
  exact ⟨hvalue', List.rel_append hsteps hsteps', hrest'⟩

theorem Mirrors.map {r : Reader α} {r' : Reader β} (hr : Mirrors same lines V r r') {f : α → γ} {f' : β → δ}
    (hf : ∀ x y, V x y → W (f x) (f' y)) :
    Mirrors same lines W (r >>= fun x => pure (f x)) (r' >>= fun x => pure (f' x)) :=
  hr.bind fun x y hxy => mirrors_pure (hf x y hxy)

theorem head?_rel {tokens tokens' : List Token} (h : List.Forall₂ same tokens tokens') :
    Option.Rel same tokens.head? tokens'.head? := by
  cases h with
  | nil => exact .none
  | cons ht _ => exact .some ht

theorem mirrors_report (cause : Cause) : Mirrors same lines Eq (report cause) (report cause) :=
  fun _ _ ht => ⟨rfl, .cons (.report cause (head?_rel ht)) .nil, ht⟩

theorem mirrors_ignore {t u : Token} (h : same t u) (hl : t.lexeme = u.lexeme) :
    Mirrors same lines Eq (ignore t) (ignore u) :=
  fun _ _ ht => ⟨rfl, .cons (.ignore h hl) .nil, ht⟩

theorem mirrors_declare {a b : Declaration} (h : Declaration.Mirrors same lines a b) :
    Mirrors same lines Eq (declare a) (declare b) :=
  fun _ _ ht => ⟨rfl, .cons (.declare h) .nil, ht⟩

theorem mirrors_takeIf {accepts : Token → Bool} (h : ∀ t u, same t u → accepts t = accepts u) :
    Mirrors same lines (Option.Rel fun t u => same t u ∧ accepts t = true) (takeIf accepts) (takeIf accepts) := by
  intro tokens tokens' ht
  cases ht with
  | nil => exact ⟨.none, .nil, .nil⟩
  | @cons t u rest rest' htu hrest =>
    simp only [takeIf, ← h t u htu]
    by_cases ha : accepts t = true
    · rw [if_pos ha, if_pos ha]
      exact ⟨.some ⟨htu, ha⟩, .cons (.take htu) .nil, hrest⟩
    · rw [if_neg ha, if_neg ha]
      exact ⟨.none, .nil, .cons htu hrest⟩

theorem mirrors_items {turn : Token → List Token → Turn α} {turn' : Token → List Token → Turn β}
    (h : ∀ t u rest rest', same t u → List.Forall₂ same rest rest' →
      Turn.Mirrors same lines V (turn t rest) (turn' u rest')) (unfinished : Option Cause) :
    Mirrors same lines (List.Forall₂ V) (items turn unfinished) (items turn' unfinished) := by
  intro tokens tokens' ht
  have hreports {a b : Option Token} (hab : Option.Rel same a b) (cause : Option Cause) :
      List.Forall₂ (Step.Mirrors same lines) (cause.toList.map (.report · a)) (cause.toList.map (.report · b)) := by
    cases cause with
    | none => exact .nil
    | some cause => exact .cons (.report cause hab) .nil
  have hnext {t : Token} {rest tokens' : List Token} {x : Turn α} (ht : List.Forall₂ same (t :: rest) tokens')
      (hturn : turn t rest = x) : ∃ u rest', tokens' = u :: rest' ∧ same t u ∧ List.Forall₂ same rest rest' ∧
        Turn.Mirrors same lines V x (turn' u rest') := by
    obtain ⟨u, rest', htu, hrest, rfl⟩ := List.forall₂_cons_left_iff.mp ht
    exact ⟨u, rest', rfl, htu, hrest, hturn ▸ h t u rest rest' htu hrest⟩
  change List.Forall₂ V (itemsFrom turn unfinished tokens).value (itemsFrom turn' unfinished tokens').value ∧
    List.Forall₂ (Step.Mirrors same lines) (itemsFrom turn unfinished tokens).steps
      (itemsFrom turn' unfinished tokens').steps ∧
    List.Forall₂ same (itemsFrom turn unfinished tokens).rest (itemsFrom turn' unfinished tokens').rest
  fun_induction itemsFrom turn unfinished tokens generalizing tokens' with
  | case1 =>
    cases ht
    rw [itemsFrom]
    exact ⟨.nil, hreports .none unfinished, .nil⟩
  | case2 t rest hturn =>
    obtain ⟨u, rest', rfl, htu, hrest, hm⟩ := hnext ht hturn
    rw [itemsFrom]
    generalize turn' u rest' = next at hm
    cases hm
    exact ⟨.nil, .cons (.take htu) .nil, hrest⟩
  | case3 t rest cause hturn =>
    obtain ⟨u, rest', rfl, htu, hrest, hm⟩ := hnext ht hturn
    rw [itemsFrom]
    generalize turn' u rest' = next at hm
    cases hm
    exact ⟨.nil, hreports (.some htu) cause, ht⟩
  | case4 t rest hturn more ih =>
    obtain ⟨u, rest', rfl, htu, hrest, hm⟩ := hnext ht hturn
    rw [itemsFrom]
    generalize turn' u rest' = next at hm
    cases hm
    obtain ⟨hvalue, hsteps, hleft⟩ := ih rest' hrest
    exact ⟨hvalue, .cons (.take htu) hsteps, hleft⟩
  | case5 t rest item hturn first more ih =>
    obtain ⟨u, rest', rfl, htu, hrest, hm⟩ := hnext ht hturn
    rw [itemsFrom]
    generalize turn' u rest' = next at hm
    cases hm with
    | enter hitem =>
      obtain ⟨hvalue, hsteps, hleft⟩ := hitem rest rest' hrest
      obtain ⟨hvalues, hmore, hfinal⟩ := ih _ hleft
      exact ⟨.cons hvalue hvalues, .cons (.take htu) (List.rel_append hsteps hmore), hfinal⟩
  | case6 t rest context hturn more ih =>
    obtain ⟨u, rest', rfl, htu, hrest, hm⟩ := hnext ht hturn
    rw [itemsFrom]
    generalize turn' u rest' = next at hm
    cases hm
    obtain ⟨hvalue, hsteps, hleft⟩ := ih rest' hrest
    exact ⟨hvalue, .cons (.skip context htu) hsteps, hleft⟩

end Reader

end Knockout
