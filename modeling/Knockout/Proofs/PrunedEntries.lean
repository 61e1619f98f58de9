import Knockout.Proofs.BlockBoundaries
import Knockout.Proofs.Pruning

namespace Knockout

def Token.IsInert (t : Token) : Prop :=
  t.kind = .comma ∨ t.kind = .closeBrace ∨ t.kind = .closeBracket ∨ t.kind = .reserved

theorem Token.IsInert.ne {t : Token} (h : t.IsInert) {kind : TokenKind}
    (hk : kind ≠ .comma ∧ kind ≠ .closeBrace ∧ kind ≠ .closeBracket ∧ kind ≠ .reserved) : t.kind ≠ kind := by
  rcases h with h | h | h | h
  · rw [h]; exact hk.1.symm
  · rw [h]; exact hk.2.1.symm
  · rw [h]; exact hk.2.2.1.symm
  · rw [h]; exact hk.2.2.2.symm

theorem Token.IsInert.isName {t : Token} (h : t.IsInert) : t.isName = false := by
  have hs : t.kind ≠ .string := h.ne (by decide)
  have hi : t.kind ≠ .identifier := h.ne (by decide)
  simp [Token.isName, hs, hi]

theorem Fence.isInert_closer {fence : Fence} {t : Token} (h : t.kind = fence.closer) : t.IsInert := by
  cases fence with
  | brace => exact .inr (.inl h)
  | bracket => exact .inr (.inr (.inl h))

namespace Document

open Reader

def Ordinary (t : Token) (rest : List Token) : Prop := startsBlock t rest = false

abbrev Continues : List Token → List Token → Prop := Follows Ordinary fun _ => True

abbrev Resumes : List Token → List Token → Prop := Follows Ordinary Token.IsInert

abbrev ResumesPairs (fence : Fence) : List Token → List Token → Prop :=
  Follows (fun t rest => t.kind ≠ fence.closer ∧ t.kind ≠ .comma ∧ Ordinary t rest)
    fun u => u.kind ≠ .colon ∧ u.kind ≠ .openBracket

section

variable {α : Type}

theorem takesFirst_colonAfter (keyword : Token) : (colonAfter keyword).TakesFirst fun t => t.kind = .colon := by
  refine takesFirst_of_quiet fun o => ?_
  split
  · exact quiet_report (by simp [Cause.kind])
  · exact quiet_pure _

theorem takesFirst_name (role : NameRole) : (name role).TakesFirst Token.isName := by
  refine takesFirst_of_quiet fun o => ?_
  split
  · exact quiet_pure _
  · exact (quiet_report (by simp [Cause.kind])).bind fun _ => quiet_pure _

theorem takesFirst_opened (keyword : Token) : (opened keyword).TakesFirst fun t => t.kind = .openBrace := by
  refine takesFirst_of_quiet fun o => ?_
  split
  · exact quiet_pure _
  · exact (quiet_report (by simp [Cause.kind])).bind fun _ => quiet_pure _

theorem takesFirst_phaseFence (keyword : Token) :
    (phaseFence keyword).TakesFirst fun t => t.kind = .openBracket || t.kind = .openBrace := by
  refine takesFirst_takeIf_bind (fun t => quiet_pure _) (takesFirst_of_quiet fun o => ?_)
  split
  · exact quiet_pure _
  · exact (quiet_report (by simp [Cause.kind])).bind fun _ => quiet_pure _

theorem run_phaseFence_rejected {keyword : Token} {tokens : List Token}
    (h : ∀ t ∈ tokens.head?, (decide (t.kind = .openBracket) || decide (t.kind = .openBrace)) = false) :
    (phaseFence keyword).run tokens = ⟨none, [.report (.missingPhaseOpener keyword.lexeme) tokens.head?], tokens⟩ := by
  simp only [Bool.or_eq_false_iff] at h
  have hbracket : (takeKind .openBracket).run tokens = ⟨none, [], tokens⟩ := run_takeIf_rejected fun t ht => (h t ht).1
  have hbrace : (takeKind .openBrace).run tokens = ⟨none, [], tokens⟩ := run_takeIf_rejected fun t ht => (h t ht).2
  simp [phaseFence, hbracket, hbrace, report]

theorem prunes_of_takesFirst {fence : Fence} {accepts : Token → Bool} {r : Reader α} (h : r.TakesFirst accepts)
    (ha : ∀ t, t.kind ≠ fence.closer → t.kind ≠ .comma → accepts t = true) : r.Prunes (ResumesPairs fence) := by
  intro tokens rest hF
  refine h.keeps fun hr => ?_
  rw [(h.stays hr).2] at hF
  cases hF with
  | ended => exact hr
  | same => exact hr
  | @dropped t _ _ hd _ => exact absurd (ha t hd.1 hd.2.1) (by simp [hr t rfl])

def wrongValue (fence : Fence) (key : Token) : Reader (Option String) := do
  match ← takeIf fun t => t.kind ≠ fence.closer && t.kind ≠ .comma with
  | some t => reportAt t (.invalidValue t.lexeme key.lexeme)
  | none => report (.missingValue key.lexeme)
  return none

theorem takesFirst_value (fence : Fence) (accepts : Token → Bool) (key : Token) :
    (value fence accepts key).TakesFirst fun t => accepts t || (t.kind ≠ fence.closer && t.kind ≠ .comma) := by
  refine takesFirst_takeIf_bind (fun t => quiet_pure _) ?_
  have h : (wrongValue fence key).TakesFirst fun t => t.kind ≠ fence.closer && t.kind ≠ .comma := by
    refine takesFirst_of_quiet fun o => ?_
    split
    · exact (quiet_reportAt (by simp [Cause.kind])).bind fun _ => quiet_pure _
    · exact (quiet_report (by simp [Cause.kind])).bind fun _ => quiet_pure _
  exact h

theorem prunes_value (fence : Fence) (accepts : Token → Bool) (key : Token) :
    (value fence accepts key).Prunes (ResumesPairs fence) :=
  prunes_of_takesFirst (takesFirst_value fence accepts key) fun t hc hk => by simp [hc, hk]

theorem starts_of_takesFirst {accepts : Token → Bool} {r : Reader α} (h : r.TakesFirst accepts) : r.Starts := by
  have hb : (r >>= pure).Starts := h.starts_bind fun _ _ => starts_pure _
  intro tokens
  simpa using hb tokens

section Lists

variable {γ : Type} {fence : Fence} {context : Context} {item : Token → Option (Reader α)}
  {drops : Token → List Token → Prop} {resumes : Token → Prop} {view : α → List γ}

theorem listTurn_drop {t : Token} {rest : List Token} {other : Context}
    (h : listTurn fence context item t rest = .drop other) :
    t.kind ≠ fence.closer ∧ t.kind ≠ .comma ∧ Ordinary t rest ∧ item t = none := by
  refine ⟨fun hk => ?_, fun hk => ?_, ?_, ?_⟩
  · rw [listTurn_eq_finish_iff.mpr hk] at h
    cases h
  · rw [listTurn_eq_pass_iff.mpr hk] at h
    cases h
  · unfold Ordinary
    by_contra hb
    rw [listTurn_eq_leave_iff.mpr ⟨rfl, by simpa using hb⟩] at h
    cases h
  · have hv := listTurn_view fence context item t rest
    rw [h] at hv
    cases hv with
    | drop hi => exact hi

theorem listTurn_enter {t : Token} {rest : List Token} {reader : Reader α}
    (h : listTurn fence context item t rest = .enter reader) :
    t.kind ≠ fence.closer ∧ t.kind ≠ .comma ∧ Ordinary t rest := by
  refine ⟨fun hk => ?_, fun hk => ?_, ?_⟩
  · rw [listTurn_eq_finish_iff.mpr hk] at h
    cases h
  · rw [listTurn_eq_pass_iff.mpr hk] at h
    cases h
  · unfold Ordinary
    by_contra hb
    rw [listTurn_eq_leave_iff.mpr ⟨rfl, by simpa using hb⟩] at h
    cases h

theorem keeps_list
    (hp : Prunable (listTurn fence context item) (some (.unclosedList fence context)) drops resumes view)
    (hr : ∀ t, t.isBlockKeyword = true → resumes t) {tokens rest : List Token}
    (hF : Continues ((list fence context item).run tokens).rest rest) :
    ∃ ys, (list fence context item).Passes (kept ((list fence context item).run tokens).steps ++ rest) ys
      (declarations ((list fence context item).run tokens).steps) rest ∧
      ys.flatMap view = ((list fence context item).run tokens).value.flatMap view := by
  have hend : ∀ c ∈ some (Cause.unclosedList fence context), c.kind ≠ .unexpectedToken := by simp [Cause.kind]
  refine (hp.items tokens ⟨fun _ => rfl, ?_⟩).2.2
  rintro (hnil | ⟨t, tail, cause, hcons, ht⟩)
  · rw [list] at hF
    rw [hnil] at hF ⊢
    rw [hF.eq_nil]
    exact ⟨.ended, by simp, passes_items_nil hend⟩
  · obtain ⟨rfl, hb⟩ := listTurn_eq_leave_iff.mp ht
    rw [list] at hF
    rw [hcons] at hF ⊢
    cases hF with
    | dropped hd _ => exact absurd hb (by simp [show startsBlock t tail = false from hd])
    | @same _ _ tail' hs =>
      refine ⟨.same hs, ?_, passes_items_leave (listTurn_eq_leave_iff.mpr ⟨rfl, hs hb⟩) hend⟩
      rintro _ ⟨⟩
      exact hr t (isBlockKeyword_of_startsBlock hb)

theorem prunable_listTurn (hclose : ∀ t : Token, t.kind = fence.closer ∨ t.kind = .comma → resumes t)
    (hdrops : ∀ t rest, t.kind ≠ fence.closer → t.kind ≠ .comma → Ordinary t rest → item t = none → drops t rest)
    (henter : ∀ t reader, item t = some reader → resumes t)
    (hitem : ∀ {t reader rest rest' final xs ds}, listTurn fence context item t rest = .enter reader →
      Follows drops resumes (reader.run rest).rest rest' →
      (list fence context item).Passes rest' xs ds final →
      ∃ ys, (list fence context item).Passes (t :: (kept (reader.run rest).steps ++ rest')) ys
        (declarations (reader.run rest).steps ++ ds) final ∧
        ys.flatMap view = view (reader.run rest).value ++ xs.flatMap view) :
    Prunable (listTurn fence context item) (some (.unclosedList fence context)) drops resumes view where
  finish {t rest} h := by
    have hk := listTurn_eq_finish_iff.mp h
    refine ⟨hclose t (.inl hk), startsBlock_eq_false ?_ rest, fun _ => listTurn_eq_finish_iff.mpr hk⟩
    by_contra hb
    exact fence.closer_ne_reserved (hk.symm.trans (Token.kind_of_isBlockKeyword (by simpa using hb)))
  pass {t rest} h := by
    have hk := listTurn_eq_pass_iff.mp h
    refine ⟨hclose t (.inr hk), startsBlock_eq_false ?_ rest, fun _ => listTurn_eq_pass_iff.mpr hk⟩
    by_contra hb
    have hr := Token.kind_of_isBlockKeyword (show t.isBlockKeyword = true by simpa using hb)
    rw [hk] at hr
    cases hr
  drop {t rest other} h := by
    obtain ⟨hc, hk, hb, hi⟩ := listTurn_drop h
    exact hdrops t rest hc hk hb hi
  enter h := henter _ _ (item_of_listTurn_eq_enter h)
  block h hb := by
    have ho := (listTurn_enter h).2.2
    rw [Ordinary, hb] at ho
    cases ho
  item := hitem

theorem prunable_list (hclose : ∀ t : Token, t.kind = fence.closer ∨ t.kind = .comma → resumes t)
    (hdrops : ∀ t rest, t.kind ≠ fence.closer → t.kind ≠ .comma → Ordinary t rest → drops t rest)
    (hitem : ∀ t reader, item t = some reader → resumes t ∧ reader.Prunes (Follows drops resumes) ∧
      ∀ rest rest', Ordinary t rest → Follows drops resumes (reader.run rest).rest rest' →
        Ordinary t (kept (reader.run rest).steps ++ rest')) :
    Prunable (listTurn fence context item) (some (.unclosedList fence context)) drops resumes fun x => [x] := by
  refine prunable_listTurn hclose (fun t rest hc hk ho _ => hdrops t rest hc hk ho)
    (fun t reader hi => (hitem t reader hi).1) ?_
  intro t reader rest rest' final xs ds h hF hpass
  obtain ⟨hc, hk, hb⟩ := listTurn_enter h
  have hi := item_of_listTurn_eq_enter h
  obtain ⟨-, hp, ho⟩ := hitem t reader hi
  have ht : listTurn fence context item t (kept (reader.run rest).steps ++ rest') = .enter reader :=
    listTurn_of_item hi ⟨hc, hk⟩ (ho rest rest' hb hF)
  exact ⟨_, (passes_items_enter ht).mpr ⟨_, _, _, _, _, hp rest rest' hF, hpass, rfl, rfl⟩, rfl⟩

theorem prunes_list
    (hp : Prunable (listTurn fence context item) (some (.unclosedList fence context)) drops resumes fun x => [x])
    (hr : ∀ t, t.isBlockKeyword = true → resumes t) : (list fence context item).Prunes Continues := by
  intro tokens rest hF
  obtain ⟨ys, hpass, hv⟩ := keeps_list hp hr hF
  rw [List.flatMap_singleton', List.flatMap_singleton'] at hv
  rwa [hv] at hpass

end Lists

theorem isInert_of_isBlockKeyword (t : Token) (h : t.isBlockKeyword = true) : t.IsInert :=
  .inr (.inr (.inr (Token.kind_of_isBlockKeyword h)))

theorem prunable_keyword_list {fence : Fence} {context : Context} {word : String} {entry : Token → Reader α}
    (hword : word ≠ "torneo" ∧ word ≠ "equipos" ∧ word ≠ "eliminacion") (h : ∀ t, (entry t).Prunes Resumes) :
    Prunable (listTurn fence context fun t => if t.isReserved word then some (entry t) else none)
      (some (.unclosedList fence context)) Ordinary Token.IsInert fun x => [x] := by
  refine prunable_list ?_ (fun _ _ _ _ ho => ho) fun t reader hr => ?_
  · rintro t (hk | hk)
    · exact Fence.isInert_closer hk
    · exact .inl hk
  · split at hr
    case isFalse => cases hr
    case isTrue ht =>
      obtain rfl := Option.some.inj hr
      refine ⟨.inr (.inr (.inr (Token.kind_of_isReserved ht))), h t, fun _ _ _ _ => ?_⟩
      exact startsBlock_eq_false (Token.isBlockKeyword_eq_false ht hword) _

def pair (fence : Fence) (valueOf : Token → Reader (Option α)) (key : Token) : Reader (Option α) := do
  if (← takeKind .colon).isSome then
    valueOf key
  else
    report (.missingColon key.lexeme)
    let _ ← takeIf fun t => t.kind ≠ fence.closer
    return none

section Pairs

variable {fence : Fence} {context : Context} {valueOf : Token → Reader (Option α)} {key : Token}

theorem pairs_eq : pairs fence context valueOf =
    list fence context (fun key => if key.isKey then some (pair fence valueOf key) else none) >>= fun found =>
      pure (found.filterMap id) := rfl

theorem prunes_pair (h : ∀ key, (valueOf key).Prunes (ResumesPairs fence)) :
    (pair fence valueOf key).Prunes (ResumesPairs fence) := by
  have hcolon := takesFirst_takeIf fun t => t.kind = .colon
  have hmissing : (report (.missingColon key.lexeme) >>= fun _ => takeIf (fun t => t.kind ≠ fence.closer) >>=
      fun _ => (pure none : Reader (Option α))).TakesFirst fun t => t.kind ≠ fence.closer :=
    (quiet_report (by simp [Cause.kind])).takesFirst_bind fun _ => takesFirst_of_quiet fun _ => quiet_pure _
  refine hcolon.prunes_bind (fun u hu => by simpa using hu.1) ?_ fun o => ?_
  · intro tokens ht
    rw [run_takeIf_rejected ht]
    exact starts_of_takesFirst hmissing
  · split
    · exact h key
    · exact prunes_of_takesFirst hmissing fun t hc _ => by simpa using hc

theorem ordinary_pair {rest : List Token} (h : Ordinary key rest) (rest' : List Token) :
    Ordinary key (kept ((pair fence valueOf key).run rest).steps ++ rest') := by
  cases hb : key.isBlockKeyword with
  | false => exact startsBlock_eq_false hb _
  | true =>
    cases rest with
    | nil => simp [Ordinary, startsBlock, hb] at h
    | cons c tail =>
      have hc : c.kind = .colon := by simpa [Ordinary, startsBlock, hb] using h
      have hrun : (takeKind .colon).run (c :: tail) = ⟨some c, [.take c], tail⟩ :=
        run_takeIf_accepted (by simpa using hc) tail
      rw [pair, run_bind, hrun, kept_append]
      simp [Ordinary, startsBlock, hc]

theorem prunable_pairs (h : ∀ key, (valueOf key).Prunes (ResumesPairs fence)) :
    Prunable (listTurn fence context fun key => if key.isKey then some (pair fence valueOf key) else none)
      (some (.unclosedList fence context)) (fun t rest => t.kind ≠ fence.closer ∧ t.kind ≠ .comma ∧ Ordinary t rest)
      (fun u => u.kind ≠ .colon ∧ u.kind ≠ .openBracket) fun x => [x] := by
  refine prunable_list ?_ (fun t rest hc hk ho => ⟨hc, hk, ho⟩) fun key reader hr => ?_
  · rintro t (hk | hk)
    · rw [hk]
      cases fence <;> decide
    · rw [hk]
      decide
  · split at hr
    case isFalse => cases hr
    case isTrue hkey =>
      obtain rfl := Option.some.inj hr
      refine ⟨?_, prunes_pair h, fun rest rest' ho _ => ordinary_pair ho rest'⟩
      have hk : key.kind = .reserved ∨ key.kind = .identifier := by simpa [Token.isKey] using hkey
      rcases hk with hk | hk <;> rw [hk] <;> decide

theorem prunes_pairs (h : ∀ key, (valueOf key).Prunes (ResumesPairs fence)) :
    (pairs fence context valueOf).Prunes Continues := by
  rw [pairs_eq]
  refine (prunes_list (prunable_pairs h) fun t hb => ?_).map _
  rw [Token.kind_of_isBlockKeyword hb]
  decide

end Pairs

theorem prunes_labelled (fence : Fence) (key : Token) : (labelled fence key).Prunes (ResumesPairs fence) :=
  (prunes_value _ _ _).map _

theorem prunes_minute (key : Token) : (minute key).Prunes (ResumesPairs .bracket) := by
  unfold minute
  split
  · exact prunes_value _ _ _
  · refine prunes_of_takesFirst ((quiet_ignore key).takesFirst_bind fun _ =>
      (takesFirst_value .bracket Token.isValue key).bind_quiet fun _ => quiet_pure _) fun t hc hk => ?_
    simp [show t.kind ≠ .closeBracket from hc, hk, Fence.closer]

variable {resumes : Token → Prop}

theorem starts_bracketed (content : Reader (List α)) : (bracketed content).Starts := by
  refine (takesFirst_takeIf fun t => t.kind = .openBracket).starts_bind fun tokens ht => ?_
  rw [run_takeIf_rejected ht]
  exact starts_pure _

theorem prunes_bracketed {content : Reader (List α)} (hr : ∀ u, resumes u → u.kind ≠ .openBracket)
    (h : content.Prunes Continues) : (bracketed content).Prunes (Follows Ordinary resumes) := by
  refine (takesFirst_takeIf fun t => t.kind = .openBracket).prunes_bind
    (fun u hu => by simpa using hr u hu) ?_ fun o => ?_
  · intro tokens ht
    rw [run_takeIf_rejected ht]
    exact starts_pure _
  · split
    · exact h.mono fun _ _ hF => hF.mono (fun _ _ => id) fun _ _ => trivial
    · exact prunes_pure _

theorem prunes_named {β : Type} (keyword : Token) (role : NameRole) {content : Reader (List α)}
    (h : content.Prunes Continues) (f : Option String → List α → β) :
    Prunes Resumes (do
      colonAfter keyword
      let n ← name role
      let xs ← bracketed content
      pure (f n xs)) := by
  have hlast (n : Option String) : Prunes Resumes (bracketed content >>= fun xs => pure (f n xs)) :=
    (prunes_bracketed (fun u hu => hu.ne (by decide)) h).map _
  have hstarts (n : Option String) : Starts (bracketed content >>= fun xs => pure (f n xs)) :=
    (starts_bracketed content).bind fun _ => starts_pure _
  refine (takesFirst_colonAfter keyword).prunes_bind (fun u hu => by simpa using hu.ne (by decide)) ?_ fun _ => ?_
  · exact fun _ _ => (starts_of_takesFirst (takesFirst_name role)).bind hstarts
  · exact (takesFirst_name role).prunes_bind (fun u hu => hu.isName) (fun _ _ => hstarts _) hlast

theorem prunes_player (keyword : Token) : (player keyword).Prunes Resumes :=
  prunes_named keyword .player (prunes_pairs (prunes_labelled .bracket)) _

theorem prunes_team (keyword : Token) : (team keyword).Prunes Resumes :=
  prunes_named keyword .team
    (prunes_list (prunable_keyword_list (by decide) prunes_player) isInert_of_isBlockKeyword) _

abbrev ResumesScorers : List Token → List Token → Prop := Follows Ordinary fun u => u.IsInert ∨ u.isName = true

theorem ne_of_resumesScorers {u : Token} (h : u.IsInert ∨ u.isName = true) {kind : TokenKind}
    (hk : kind = .colon ∨ kind = .openBracket) : u.kind ≠ kind := by
  rcases h with h | h
  · rcases hk with rfl | rfl <;> exact h.ne (by decide)
  · have hn : u.kind = .string ∨ u.kind = .identifier := by simpa [Token.isName] using h
    rcases hk with rfl | rfl <;> rcases hn with hn | hn <;> rw [hn] <;> decide

def namedScorer : Reader (Option Scorer) := do
  let name ← name .scorer
  let minutes ← bracketed (pairs .bracket .scorer minute)
  return name.map fun name => ⟨name, minutes.getLast?⟩

theorem scorer_eq (keyword : Token) : scorer keyword = colonAfter keyword >>= fun _ => namedScorer := rfl

theorem starts_namedScorer : namedScorer.Starts :=
  (starts_of_takesFirst (takesFirst_name _)).bind fun _ => (starts_bracketed _).bind fun _ => starts_pure _

structure AdoptsName (r : Reader (Option Scorer)) (tokens : List Token) (name : Token) (more : List Token) : Prop where
  nameless : (r.run tokens).value = none
  undeclared : declarations (r.run tokens).steps = []
  adopts : (∀ u ∈ more.head?, u.kind ≠ .openBracket) →
    r.Passes (kept (r.run tokens).steps ++ name :: more) (some ⟨name.lexeme, none⟩) [] more

theorem run_namedScorer {tokens : List Token} (hname : ∀ t ∈ tokens.head?, t.isName = false)
    (hopen : ∀ t ∈ tokens.head?, t.kind ≠ .openBracket) :
    namedScorer.run tokens = ⟨none, [.report (.missingName .scorer) tokens.head?], tokens⟩ := by
  have hn := run_takeIf_rejected hname
  have ho : (takeKind .openBracket).run tokens = ⟨none, [], tokens⟩ :=
    run_takeIf_rejected fun t ht => by simpa using hopen t ht
  simp [namedScorer, name, bracketed, hn, ho, report]

theorem keeps_namedScorer {tokens rest : List Token} (hF : ResumesScorers (namedScorer.run tokens).rest rest) :
    namedScorer.Keeps tokens rest rest ∨
      ∃ n more, rest = n :: more ∧ n.isName = true ∧ AdoptsName namedScorer tokens n more := by
  have hname := takesFirst_name .scorer
  have hlast (n : Option String) : Prunes ResumesScorers (bracketed (pairs .bracket .scorer minute) >>= fun minutes =>
      pure (n.map fun name => (⟨name, minutes.getLast?⟩ : Scorer))) :=
    (prunes_bracketed (fun u hu => ne_of_resumesScorers hu (.inr rfl)) (prunes_pairs prunes_minute)).map _
  by_cases ht : ∀ t ∈ tokens.head?, t.isName = false
  case neg => exact .inl (Keeps.bind (hname.keeps fun h => absurd h ht) (hlast _ _ rest hF))
  by_cases ho : ∀ t ∈ tokens.head?, t.kind ≠ .openBracket
  case neg =>
    cases tokens with
    | nil => exact absurd (by simp) ho
    | cons t tail =>
      have hk : t.kind = .openBracket := by simpa using ho
      refine .inl (Keeps.bind (hname.keeps fun _ => ?_) (hlast _ _ rest hF))
      have hrun : (takeKind .openBracket).run (t :: tail) = ⟨some t, [.take t], tail⟩ :=
        run_takeIf_accepted (by simpa using hk) tail
      rw [(hname.stays ht).2]
      simp only [bracketed, run_bind, hrun, kept_append, kept_take, kept_nil, List.cons_append]
      exact ht
  case pos =>
  by_cases hr : ∀ u ∈ rest.head?, u.isName = false
  · refine .inl (Keeps.bind (hname.keeps fun _ => ?_) (hlast _ _ rest hF))
    have hs := (starts_bracketed (pairs .bracket .scorer minute)).bind fun minutes =>
      starts_pure (((name .scorer).run tokens).value.map fun name => (⟨name, minutes.getLast?⟩ : Scorer))
    rw [(hname.stays ht).2]
    exact hs.head_rejected ht fun _ => hr
  · cases rest with
    | nil => exact absurd (by simp) hr
    | cons n more =>
      have hn : n.isName = true := by simpa using hr
      refine .inr ⟨n, more, rfl, hn, ?_⟩
      have hrun := run_namedScorer ht ho
      refine ⟨by rw [hrun], by rw [hrun]; rfl, fun hmore => ?_⟩
      have hb : (takeKind .openBracket).run more = ⟨none, [], more⟩ :=
        run_takeIf_rejected fun u hu => by simpa using hmore u hu
      rw [hrun, kept_report, kept_nil, List.nil_append]
      simp [Passes, namedScorer, name, bracketed, run_takeIf_accepted hn, hb]

theorem declarations_colonAfter (keyword : Token) (tokens : List Token) :
    declarations ((colonAfter keyword).run tokens).steps = [] := by
  cases tokens with
  | nil => rfl
  | cons t tail =>
    by_cases h : t.kind = .colon
    · simp [colonAfter, takeKind, takeIf, h]
    · simp [colonAfter, takeKind, takeIf, h, report]

theorem keeps_scorer (keyword : Token) {tokens rest : List Token}
    (hF : ResumesScorers ((scorer keyword).run tokens).rest rest) :
    (scorer keyword).Keeps tokens rest rest ∨
      ∃ n more, rest = n :: more ∧ n.isName = true ∧ AdoptsName (scorer keyword) tokens n more := by
  have ht := takesFirst_colonAfter keyword
  have hr (u : Token) (hu : u.IsInert ∨ u.isName = true) : decide (u.kind = .colon) = false := by
    simpa using ne_of_resumesScorers hu (.inl rfl)
  rw [scorer_eq] at hF ⊢
  rcases keeps_namedScorer hF with hk | ⟨n, more, rfl, hn, ha⟩
  · exact .inl (ht.keeps_bind hr (fun _ => starts_namedScorer) hF hk)
  · refine .inr ⟨n, more, rfl, hn, ha.nameless, ?_, fun hmore => ?_⟩
    · rw [run_bind, declarations_append, declarations_colonAfter, ha.undeclared]
      rfl
    · rw [run_bind, kept_append, List.append_assoc]
      have hkeeps : (colonAfter keyword).Keeps tokens
          (kept (namedScorer.run ((colonAfter keyword).run tokens).rest).steps ++ n :: more)
          (kept (namedScorer.run ((colonAfter keyword).run tokens).rest).steps ++ n :: more) := by
        refine ht.keeps fun hcolon => ?_
        rw [run_bind, (ht.stays hcolon).2] at hF
        rw [(ht.stays hcolon).2]
        exact starts_namedScorer.head_rejected hcolon fun he => (he ▸ hF).head_rejected hcolon hr
      rw [Keeps, declarations_colonAfter] at hkeeps
      exact hkeeps.bind (ha.adopts hmore)

theorem scorerItem_cases {t : Token} {reader : Reader (Option Scorer)} (h : scorerItem t = some reader) :
    t.isReserved "goleador" = true ∧ reader = scorer t ∨ t.isName = true ∧ reader = pure (some ⟨t.lexeme, none⟩) := by
  unfold scorerItem at h
  split at h
  case isTrue hg => exact .inl ⟨hg, (Option.some.inj h).symm⟩
  case isFalse =>
    split at h
    case isTrue hn => exact .inr ⟨hn, (Option.some.inj h).symm⟩
    case isFalse => cases h

theorem listTurn_name {t : Token} (h : t.isName = true) (rest : List Token) :
    listTurn .bracket .scorers scorerItem t rest = .enter (pure (some ⟨t.lexeme, none⟩)) := by
  have hk : t.kind = .string ∨ t.kind = .identifier := by simpa [Token.isName] using h
  have hr : t.kind ≠ .reserved := by rcases hk with hk | hk <;> rw [hk] <;> decide
  refine listTurn_of_item ?_ (by rcases hk with hk | hk <;> rw [hk] <;> decide) ?_
  · simp [scorerItem, Token.isReserved, hr, h]
  · exact startsBlock_eq_false (by simp [Token.isBlockKeyword, Token.isReserved, hr]) rest

theorem listTurn_goleador {t : Token} (h : t.isReserved "goleador" = true) (rest : List Token) :
    listTurn .bracket .scorers scorerItem t rest = .enter (scorer t) := by
  have hk := Token.kind_of_isReserved h
  refine listTurn_of_item (by simp [scorerItem, h]) (by rw [hk]; decide) ?_
  exact startsBlock_eq_false (Token.isBlockKeyword_eq_false h (by decide)) rest

theorem listTurn_openBracket {t : Token} (h : t.kind = .openBracket) (rest : List Token) :
    listTurn .bracket .scorers scorerItem t rest = .drop .scorers := by
  simp [listTurn, h, Fence.closer, startsBlock, Token.isBlockKeyword, Token.isReserved, scorerItem, Token.isName]

theorem prunable_scorers : Prunable (listTurn .bracket .scorers scorerItem) (some (.unclosedList .bracket .scorers))
    Ordinary (fun u => u.IsInert ∨ u.isName = true) Option.toList := by
  refine prunable_listTurn ?_ (fun _ _ _ _ ho _ => ho) (fun t reader hi => ?_) ?_
  · rintro t (hk | hk)
    · exact .inl (Fence.isInert_closer hk)
    · exact .inl (.inl hk)
  · rcases scorerItem_cases hi with ⟨hg, -⟩ | ⟨hn, -⟩
    · exact .inl (.inr (.inr (.inr (Token.kind_of_isReserved hg))))
    · exact .inr hn
  · intro t reader rest rest' final xs ds h hF hpass
    rcases scorerItem_cases (item_of_listTurn_eq_enter h) with ⟨hg, rfl⟩ | ⟨hn, rfl⟩
    · have ht := listTurn_goleador hg (kept ((scorer t).run rest).steps ++ rest')
      rcases keeps_scorer t hF with hk | ⟨n, more, rfl, hn, ha⟩
      · exact ⟨_, (passes_items_enter ht).mpr ⟨_, _, _, _, _, hk, hpass, rfl, rfl⟩, rfl⟩
      · obtain ⟨x, d, middle, xs, ds, ⟨rfl, rfl, -, rfl⟩, hmore, rfl, rfl⟩ :=
          (passes_items_enter (listTurn_name hn more)).mp hpass
        have hopen : ∀ u ∈ more.head?, u.kind ≠ .openBracket := by
          intro u hu hk
          obtain ⟨tail, rfl⟩ : ∃ tail, more = u :: tail := by
            cases more with
            | nil => cases hu
            | cons v tail => cases hu; exact ⟨tail, rfl⟩
          exact not_passes_items_drop (listTurn_openBracket hk tail) hmore
        refine ⟨_, (passes_items_enter ht).mpr ⟨_, _, _, _, _, ha.adopts hopen, hmore, rfl, by rw [ha.undeclared]⟩, ?_⟩
        rw [ha.nameless]
        rfl
    · exact ⟨_, (passes_items_enter (listTurn_name hn _)).mpr ⟨_, _, _, _, _, ⟨rfl, rfl, orderly_nil, rfl⟩, hpass, rfl,
        rfl⟩, rfl⟩

theorem prunes_scorerList :
    (list .bracket .scorers scorerItem >>= fun l => pure (l.filterMap id)).Prunes Continues := by
  intro tokens rest hF
  obtain ⟨ys, hpass, hv⟩ := keeps_list prunable_scorers (fun t hb => .inl (isInert_of_isBlockKeyword t hb)) hF
  have hl : ys.filterMap id = ((list .bracket .scorers scorerItem).run tokens).value.filterMap id := by
    simpa [List.filterMap_eq_flatMap_toList] using hv
  unfold Keeps
  rw [run_bind, kept_append, declarations_append]
  change Passes _ (kept _ ++ [] ++ rest) (List.filterMap id _) (_ ++ []) rest
  rw [List.append_nil, ← hl]
  exact hpass.bind ⟨rfl, rfl, orderly_nil, rfl⟩

theorem prunes_scorers (key : Token) : (scorers key).Prunes (ResumesPairs .bracket) := by
  refine (takesFirst_takeIf fun t => t.kind = .openBracket).prunes_bind (fun u hu => by simpa using hu.2) ?_ fun o => ?_
  · intro tokens ht
    rw [run_takeIf_rejected ht]
    exact (starts_of_takesFirst (takesFirst_value _ _ _)).bind fun _ => starts_pure _
  · split
    · exact prunes_scorerList.mono fun _ _ hF => hF.mono (fun _ _ hd => hd.2.2) fun _ _ => trivial
    · exact (prunes_value _ _ _).map _

theorem prunes_fixtureAttribute (key : Token) : (fixtureAttribute key).Prunes (ResumesPairs .bracket) := by
  unfold fixtureAttribute
  split
  · exact (prunes_value _ _ _).map _
  · split
    · exact (prunes_scorers key).map _
    · refine prunes_of_takesFirst ((quiet_ignore key).takesFirst_bind fun _ =>
        (takesFirst_value .bracket Token.isValue key).bind_quiet fun _ => quiet_pure _) fun t hc hk => ?_
      simp [show t.kind ≠ .closeBracket from hc, hk, Fence.closer]

end

end Document

end Knockout
