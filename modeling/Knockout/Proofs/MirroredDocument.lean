import Knockout.Proofs.MirroredReading

namespace Knockout

section

variable {same : Token → Token → Prop} {lines : UInt32 → UInt32 → Prop} (hm : Mirroring same lines)

include hm

namespace Mirroring

variable {t u : Token} (h : same t u)

include h

theorem isReserved_eq (word : String) : t.isReserved word = u.isReserved word := by
  unfold Token.isReserved
  by_cases hk : t.kind = .versus
  · simp [← hm.kind h, hk]
  · rw [hm.kind h, hm.lexeme h hk]

theorem isName_eq : t.isName = u.isName := by
  simp only [Token.isName, hm.kind h]

theorem isValue_eq : t.isValue = u.isValue := by
  simp only [Token.isValue, hm.kind h]

theorem isKey_eq : t.isKey = u.isKey := by
  simp only [Token.isKey, hm.kind h]

theorem isBlockKeyword_eq : t.isBlockKeyword = u.isBlockKeyword := by
  simp only [Token.isBlockKeyword, hm.isReserved_eq h]

theorem lexeme_of_reserved (hk : t.kind = .reserved) : t.lexeme = u.lexeme := by
  apply hm.lexeme h
  rw [hk]
  decide

theorem lexeme_of_isReserved {word : String} (hw : t.isReserved word = true) : t.lexeme = u.lexeme :=
  hm.lexeme_of_reserved h (Token.kind_of_isReserved hw)

theorem lexeme_of_isName (hn : t.isName = true) : t.lexeme = u.lexeme := by
  apply hm.lexeme h
  intro hk
  simp [Token.isName, hk] at hn

theorem lexeme_of_isKey (hkey : t.isKey = true) : t.lexeme = u.lexeme := by
  apply hm.lexeme h
  intro hk
  simp [Token.isKey, hk] at hkey

end Mirroring

namespace Document

open Reader

variable {α β : Type} {V : α → β → Prop} {t u : Token}

theorem startsBlock_eq (h : same t u) {rest rest' : List Token} (hrest : List.Forall₂ same rest rest') :
    startsBlock t rest = startsBlock u rest' := by
  unfold startsBlock
  rw [hm.isBlockKeyword_eq h]
  cases hrest with
  | nil => rfl
  | cons hnext _ => simp [hm.kind hnext]

theorem isPhaseKeyword_eq (h : same t u) : isPhaseKeyword t = isPhaseKeyword u := by
  unfold isPhaseKeyword
  by_cases hk : t.kind = .versus
  · simp [← hm.kind h, hk]
  · rw [hm.kind h, hm.lexeme h hk]

theorem mirrors_takeKind (kind : TokenKind) :
    Mirrors same lines (Option.Rel fun t u => same t u ∧ decide (t.kind = kind) = true)
      (takeKind kind) (takeKind kind) :=
  mirrors_takeIf fun t u h => by rw [hm.kind h]

theorem mirrors_colonAfter (hl : t.lexeme = u.lexeme) : Mirrors same lines Eq (colonAfter t) (colonAfter u) := by
  unfold colonAfter
  apply (mirrors_takeKind hm .colon).bind
  intro o o' ho
  rw [hl]
  cases ho with
  | none => exact mirrors_report _
  | some _ => exact mirrors_pure rfl

theorem mirrors_name (role : NameRole) : Mirrors same lines Eq (name role) (name role) := by
  unfold name
  apply (mirrors_takeIf fun t u h => hm.isName_eq h).bind
  intro o o' ho
  cases ho with
  | none => exact (mirrors_report _).map fun _ _ _ => rfl
  | some h =>
    apply mirrors_pure
    rw [hm.lexeme_of_isName h.1 h.2]

theorem mirrors_value (fence : Fence) {accepts : Token → Bool} (hsame : ∀ t u, same t u → accepts t = accepts u)
    (haccepts : ∀ t, accepts t = true → t.kind ≠ .versus) (hl : t.lexeme = u.lexeme) :
    Mirrors same lines Eq (value fence accepts t) (value fence accepts u) := by
  unfold value
  apply (mirrors_takeIf hsame).bind
  intro o o' ho
  rw [hl]
  cases ho with
  | some h =>
    apply mirrors_pure
    rw [hm.lexeme h.1 (haccepts _ h.2)]
  | none =>
    apply (mirrors_takeIf fun t u h => by rw [hm.kind h]).bind
    intro o o' ho
    cases ho with
    | none => exact (mirrors_report _).map fun _ _ _ => rfl
    | some h =>
      refine Mirrors.map (V := Eq) ?_ fun _ _ _ => rfl
      exact fun _ _ ht => ⟨rfl, .cons (.invalid _ h.1) .nil, ht⟩

theorem mirrors_anyValue (fence : Fence) (hl : t.lexeme = u.lexeme) :
    Mirrors same lines Eq (value fence Token.isValue t) (value fence Token.isValue u) :=
  mirrors_value hm fence (fun _ _ h => hm.isValue_eq h) (fun t ht hk => by simp [Token.isValue, hk] at ht) hl

theorem mirrors_list (fence : Fence) (context : Context) {item : Token → Option (Reader α)}
    {item' : Token → Option (Reader β)}
    (h : ∀ t u, same t u → Option.Rel (Mirrors same lines V) (item t) (item' u)) :
    Mirrors same lines (List.Forall₂ V) (list fence context item) (list fence context item') := by
  rw [list, list]
  refine mirrors_items (fun t u rest rest' htu hrest => ?_) _
  unfold listTurn
  rw [← hm.kind htu, ← startsBlock_eq hm htu hrest]
  split
  · exact .finish
  split
  · exact .pass
  split
  · exact .leave _
  have hitem := h t u htu
  generalize item t = x, item' u = y at hitem
  cases hitem with
  | none => exact .drop context
  | some hr => exact .enter hr

theorem mirrors_keyword_list (fence : Fence) (context : Context) (word : String) {entry : Token → Reader α}
    {entry' : Token → Reader β}
    (h : ∀ t u, same t u → t.lexeme = u.lexeme → Mirrors same lines V (entry t) (entry' u)) :
    Mirrors same lines (List.Forall₂ V)
      (list fence context fun t => if t.isReserved word then some (entry t) else none)
      (list fence context fun t => if t.isReserved word then some (entry' t) else none) := by
  refine mirrors_list hm fence context fun t u htu => ?_
  rw [← hm.isReserved_eq htu]
  split
  case isTrue hw =>
    exact .some (h t u htu (hm.lexeme_of_isReserved htu hw))
  case isFalse => exact .none

theorem mirrors_pairs (fence : Fence) (context : Context) {valueOf : Token → Reader (Option α)}
    {valueOf' : Token → Reader (Option β)}
    (h : ∀ t u, same t u → t.lexeme = u.lexeme → Mirrors same lines (Option.Rel V) (valueOf t) (valueOf' u)) :
    Mirrors same lines (List.Forall₂ V) (pairs fence context valueOf) (pairs fence context valueOf') := by
  unfold pairs
  refine Mirrors.map (V := List.Forall₂ (Option.Rel V)) ?_ fun xs ys hxy => List.rel_filterMap (fun _ _ h => h) hxy
  refine mirrors_list hm fence context fun t u htu => ?_
  rw [← hm.isKey_eq htu]
  split
  case isFalse => exact .none
  case isTrue hkey =>
    have hl := hm.lexeme_of_isKey htu hkey
    refine .some ?_
    apply (mirrors_takeKind hm .colon).bind
    intro o o' ho
    cases ho with
    | some _ => exact h t u htu hl
    | none =>
      rw [hl]
      apply (mirrors_report _).bind
      intro _ _ _
      exact Mirrors.map (mirrors_takeIf fun t u h => by rw [hm.kind h]) fun _ _ _ => .none

theorem mirrors_bracketed {content : Reader (List α)} {content' : Reader (List β)}
    (h : Mirrors same lines (List.Forall₂ V) content content') :
    Mirrors same lines (List.Forall₂ V) (bracketed content) (bracketed content') := by
  unfold bracketed
  apply (mirrors_takeKind hm .openBracket).bind
  intro o o' ho
  cases ho with
  | none => exact mirrors_pure .nil
  | some _ => exact h

theorem mirrors_labelled (fence : Fence) (hl : t.lexeme = u.lexeme) :
    Mirrors same lines (Option.Rel Eq) (labelled fence t) (labelled fence u) := by
  unfold labelled
  apply (mirrors_anyValue hm fence hl).map
  rintro x _ rfl
  exact rel_of_eq (by rw [hl])

theorem mirrors_named {content : Reader (List α)} {content' : Reader (List β)}
    (hc : Mirrors same lines (List.Forall₂ V) content content') (hl : t.lexeme = u.lexeme) (role : NameRole)
    {γ δ : Type} {W : γ → δ → Prop} {f : Option String → List α → γ} {f' : Option String → List β → δ}
    (hf : ∀ n xs ys, List.Forall₂ V xs ys → W (f n xs) (f' n ys)) :
    Mirrors same lines W
      (do
        colonAfter t
        let n ← name role
        let xs ← content
        pure (f n xs))
      (do
        colonAfter u
        let n ← name role
        let xs ← content'
        pure (f' n xs)) := by
  apply (mirrors_colonAfter hm hl).bind
  intro _ _ _
  apply (mirrors_name hm role).bind
  rintro n _ rfl
  exact hc.map (hf n)

theorem mirrors_player (hl : t.lexeme = u.lexeme) :
    Mirrors same lines (Option.Rel Eq) (player t) (player u) := by
  refine mirrors_named (V := Eq) hm (mirrors_bracketed hm ?_) hl _ fun n xs ys hxy => ?_
  · exact mirrors_pairs hm _ _ fun t u _ hl => mirrors_labelled hm _ hl
  · rw [List.forall₂_eq_eq_eq] at hxy
    exact rel_of_eq (by rw [hxy])

theorem mirrors_team (h : same t u) (hl : t.lexeme = u.lexeme) :
    Mirrors same lines (Option.Rel (Team.Mirrors lines)) (team t) (team u) := by
  refine mirrors_named (V := Option.Rel Eq) hm (mirrors_bracketed hm ?_) hl _ fun n xs ys hxy => ?_
  · exact mirrors_keyword_list hm _ _ _ fun t u _ hl => mirrors_player hm hl
  · have hplayers := List.rel_filterMap (R := Option.Rel (@Eq Player)) (fun _ _ h => h) hxy
    rw [List.forall₂_eq_eq_eq] at hplayers
    cases n with
    | none => exact .none
    | some _ => exact .some ⟨rfl, hplayers, hm.line h⟩

theorem mirrors_minute (h : same t u) (hl : t.lexeme = u.lexeme) :
    Mirrors same lines (Option.Rel Eq) (minute t) (minute u) := by
  have hvalue := mirrors_anyValue hm .bracket hl
  unfold minute
  rw [hl]
  split
  · intro tokens tokens' ht
    obtain ⟨hv, hrest⟩ := hvalue tokens tokens' ht
    exact ⟨rel_of_eq hv, hrest⟩
  · apply (mirrors_ignore h hl).bind
    intro _ _ _
    exact hvalue.map fun _ _ _ => .none

theorem mirrors_scorer (hl : t.lexeme = u.lexeme) : Mirrors same lines (Option.Rel Eq) (scorer t) (scorer u) := by
  refine mirrors_named (V := Eq) hm (mirrors_bracketed hm ?_) hl _ fun n xs ys hxy => ?_
  · exact mirrors_pairs hm _ _ fun t u h hl => mirrors_minute hm h hl
  · rw [List.forall₂_eq_eq_eq] at hxy
    exact rel_of_eq (by rw [hxy])

theorem mirrors_scorerItem (h : same t u) :
    Option.Rel (Mirrors same lines (Option.Rel Eq)) (scorerItem t) (scorerItem u) := by
  unfold scorerItem
  rw [← hm.isReserved_eq h, ← hm.isName_eq h]
  split
  case isTrue hw =>
    exact .some (mirrors_scorer hm (hm.lexeme_of_isReserved h hw))
  case isFalse =>
  split
  case isTrue hn =>
    refine .some (mirrors_pure (.some ?_))
    rw [hm.lexeme_of_isName h hn]
  case isFalse => exact .none

theorem mirrors_scorers (hl : t.lexeme = u.lexeme) : Mirrors same lines Eq (scorers t) (scorers u) := by
  unfold scorers
  apply (mirrors_takeKind hm .openBracket).bind
  intro o o' ho
  cases ho with
  | some _ =>
    refine (mirrors_list hm _ _ fun t u h => mirrors_scorerItem hm h).map fun xs ys hxy => ?_
    have hscorers := List.rel_filterMap (R := Option.Rel (@Eq Scorer)) (fun _ _ h => h) hxy
    rwa [List.forall₂_eq_eq_eq] at hscorers
  | none =>
    refine (mirrors_value hm _ (fun _ _ h => hm.isName_eq h) (fun t ht hk => ?_) hl).map fun x y hxy => ?_
    · simp [Token.isName, hk] at ht
    · rw [hxy]

theorem mirrors_fixtureAttribute (h : same t u) (hl : t.lexeme = u.lexeme) :
    Mirrors same lines (Option.Rel Eq) (fixtureAttribute t) (fixtureAttribute u) := by
  have hvalue := mirrors_anyValue hm .bracket hl
  unfold fixtureAttribute
  rw [hl]
  split
  · exact hvalue.map fun x y hxy => rel_of_eq (by rw [hxy])
  split
  · exact (mirrors_scorers hm hl).map fun x y hxy => .some (by rw [hxy])
  · apply (mirrors_ignore h hl).bind
    intro _ _ _
    exact hvalue.map fun _ _ _ => .none

theorem mirrors_fixture (h : same t u) (hl : t.lexeme = u.lexeme) :
    Mirrors same lines (Option.Rel (Fixture.Mirrors lines)) (fixture t) (fixture u) := by
  unfold fixture
  apply (mirrors_colonAfter hm hl).bind
  intro _ _ _
  apply (mirrors_name hm _).bind
  rintro home _ rfl
  apply (mirrors_takeKind hm .versus).bind
  intro _ _ _
  apply (mirrors_name hm _).bind
  rintro away _ rfl
  apply (mirrors_bracketed hm (mirrors_pairs hm _ _ fun t u h hl => mirrors_fixtureAttribute hm h hl)).map
  intro xs ys hxy
  rw [List.forall₂_eq_eq_eq] at hxy
  subst hxy
  cases home with
  | none => exact .none
  | some _ =>
    cases away with
    | none => exact .none
    | some _ => exact .some ⟨rfl, rfl, rfl, rfl, hm.line h⟩

theorem mirrors_phaseFence (hl : t.lexeme = u.lexeme) : Mirrors same lines Eq (phaseFence t) (phaseFence u) := by
  unfold phaseFence
  apply (mirrors_takeKind hm .openBracket).bind
  intro o o' ho
  cases ho with
  | some _ => exact mirrors_pure rfl
  | none =>
    apply (mirrors_takeKind hm .openBrace).bind
    intro o o' ho
    cases ho with
    | some _ => exact mirrors_pure rfl
    | none =>
      rw [hl]
      exact (mirrors_report _).map fun _ _ _ => rfl

theorem mirrors_phaseTurn (hl : t.lexeme = u.lexeme) (fence : Option Fence) {a b : Token} (hab : same a b)
    {rest rest' : List Token} (hrest : List.Forall₂ same rest rest') :
    Turn.Mirrors same lines (Option.Rel (Fixture.Mirrors lines)) (phaseTurn t fence a rest)
      (phaseTurn u fence b rest') := by
  unfold phaseTurn
  rw [← hm.kind hab, ← hm.isReserved_eq hab, ← isPhaseKeyword_eq hm hab, ← startsBlock_eq hm hab hrest, hl]
  split
  · exact .finish
  split
  · exact .pass
  split
  case isTrue hp =>
    exact .enter (mirrors_fixture hm hab (hm.lexeme_of_isReserved hab hp))
  case isFalse =>
  cases fence with
  | none => exact .leave _
  | some f =>
    dsimp only
    split
    · exact .leave _
    · exact .drop _

theorem mirrors_phase (h : same t u) (hl : t.lexeme = u.lexeme) : Mirrors same lines Eq (phase t) (phase u) := by
  unfold phase
  apply (mirrors_colonAfter hm hl).bind
  intro _ _ _
  apply (mirrors_phaseFence hm hl).bind
  rintro fence _ rfl
  rw [hl]
  apply (mirrors_items (fun a b rest rest' hab hrest => mirrors_phaseTurn hm hl fence hab hrest) _).bind
  intro xs ys hxy
  exact mirrors_declare (.phase h hl (List.rel_filterMap (fun _ _ h => h) hxy))

theorem mirrors_block {content : Reader (List α)} {content' : Reader (List β)}
    {last : List α → Reader Unit} {last' : List β → Reader Unit} (hl : t.lexeme = u.lexeme)
    (hc : Mirrors same lines (List.Forall₂ V) content content')
    (hlast : ∀ xs ys, List.Forall₂ V xs ys → Mirrors same lines Eq (last xs) (last' ys)) :
    Mirrors same lines Eq
      (opened t >>= fun b => if b = true then
        content >>= fun xs => takeKind .semicolon >>= fun _ => last xs else pure ())
      (opened u >>= fun b => if b = true then
        content' >>= fun xs => takeKind .semicolon >>= fun _ => last' xs else pure ()) := by
  have hopened : Mirrors same lines Eq (opened t) (opened u) := by
    unfold opened
    apply (mirrors_takeKind hm .openBrace).bind
    intro o o' ho
    cases ho with
    | some _ => exact mirrors_pure rfl
    | none =>
      rw [hl]
      exact (mirrors_report _).map fun _ _ _ => rfl
  apply hopened.bind
  rintro b _ rfl
  split
  · apply hc.bind
    intro xs ys hxy
    exact (mirrors_takeKind hm .semicolon).bind fun _ _ _ => hlast xs ys hxy
  · exact mirrors_pure rfl

theorem mirrors_block? (h : same t u) : Option.Rel (Mirrors same lines Eq) (block? t) (block? u) := by
  unfold block?
  simp only [← hm.isReserved_eq h]
  split
  case isTrue hw =>
    refine .some (mirrors_block hm (hm.lexeme_of_isReserved h hw)
      (mirrors_pairs hm _ _ fun t u _ hl => mirrors_labelled hm _ hl) ?_)
    intro xs ys hxy
    rw [List.forall₂_eq_eq_eq] at hxy
    rw [hxy]
    exact mirrors_declare (.info _ h (hm.lexeme_of_isReserved h hw))
  case isFalse =>
  split
  case isTrue hw =>
    refine .some (mirrors_block hm (hm.lexeme_of_isReserved h hw)
      (mirrors_keyword_list hm _ _ _ fun t u h hl => mirrors_team hm h hl) ?_)
    intro xs ys hxy
    exact mirrors_declare (.teams (List.rel_filterMap (fun _ _ h => h) hxy))
  case isFalse =>
  split
  case isTrue hw =>
    refine .some (mirrors_block (V := Eq) hm (hm.lexeme_of_isReserved h hw) (mirrors_list hm _ _ fun a b hab => ?_) ?_)
    · rw [← isPhaseKeyword_eq hm hab]
      split
      case isTrue hp =>
        simp only [isPhaseKeyword, Bool.and_eq_true, decide_eq_true_eq] at hp
        exact .some (mirrors_phase hm hab (hm.lexeme_of_reserved hab hp.1))
      case isFalse => exact .none
    · exact fun _ _ _ => mirrors_pure rfl
  case isFalse => exact .none

theorem mirrors_read {tokens tokens' : List Token} (h : List.Forall₂ same tokens tokens') :
    List.Forall₂ (Step.Mirrors same lines) (read tokens) (read tokens') := by
  have hturn (t u : Token) (rest rest' : List Token) (htu : same t u) (_ : List.Forall₂ same rest rest') :
      Turn.Mirrors same lines Eq (documentTurn t rest) (documentTurn u rest') := by
    unfold documentTurn
    have hb := mirrors_block? hm htu
    generalize block? t = x, block? u = y at hb
    cases hb with
    | none => exact .drop _
    | some hr => exact .enter hr
  exact (mirrors_items hturn none tokens tokens' h).2.1

end Document

end

end Knockout
