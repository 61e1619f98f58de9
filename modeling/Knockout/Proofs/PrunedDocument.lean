import Knockout.Proofs.Acceptance
import Knockout.Proofs.PrunedEntries

namespace Knockout

namespace Document

open Reader

section Fixture

variable (keyword : Token) (home away : Option String)

def fixtureEnd : Reader (Option Fixture) := do
  let attributes ← bracketed (pairs .bracket .fixture fixtureAttribute)
  return home.bind fun home => away.map fun away => {
    home, away
    result := (attributes.filterMap FixtureAttribute.result?).getLast?
    scorers := attributes.flatMap FixtureAttribute.scorerList
    line := keyword.position.line }

def fixtureAway : Reader (Option Fixture) := name .secondTeam >>= fixtureEnd keyword home

theorem fixture_eq : fixture keyword =
    colonAfter keyword >>= fun _ => name .firstTeam >>= fun home =>
      takeKind .versus >>= fun _ => fixtureAway keyword home :=
  rfl

theorem starts_fixtureEnd : (fixtureEnd keyword home away).Starts :=
  (starts_bracketed _).bind fun _ => starts_pure _

theorem prunes_fixtureEnd : (fixtureEnd keyword home away).Prunes Resumes :=
  (prunes_bracketed (fun _ hu => hu.ne (by decide)) (prunes_pairs prunes_fixtureAttribute)).map _

theorem starts_fixtureAway : (fixtureAway keyword home).Starts :=
  (starts_of_takesFirst (takesFirst_name _)).bind (starts_fixtureEnd keyword home)

theorem prunes_fixtureAway : (fixtureAway keyword home).Prunes Resumes :=
  (takesFirst_name _).prunes_bind (fun _ hu => hu.isName) (fun _ _ => starts_fixtureEnd keyword home _)
    (prunes_fixtureEnd keyword home)

theorem prunes_fixture : (fixture keyword).Prunes Resumes := by
  have hversus := takesFirst_takeIf fun t => t.kind = .versus
  have hopponents (home : Option String) : (takeKind .versus >>= fun _ => fixtureAway keyword home).Prunes Resumes :=
    hversus.prunes_bind (fun _ hu => by simpa using hu.ne (by decide)) (fun _ _ => starts_fixtureAway keyword home)
      fun _ => prunes_fixtureAway keyword home
  have hstarts (home : Option String) : (takeKind .versus >>= fun _ => fixtureAway keyword home).Starts :=
    (starts_of_takesFirst hversus).bind fun _ => starts_fixtureAway keyword home
  rw [fixture_eq]
  refine (takesFirst_colonAfter keyword).prunes_bind (fun _ hu => by simpa using hu.ne (by decide)) ?_ fun _ => ?_
  · exact fun _ _ => (starts_of_takesFirst (takesFirst_name _)).bind hstarts
  · exact (takesFirst_name _).prunes_bind (fun _ hu => hu.isName) (fun _ _ => hstarts _) hopponents

end Fixture

section Phase

variable {keyword : Token}

theorem ordinary_of_phaseTurn {fence : Option Fence} {t : Token} {rest : List Token}
    (h : ∀ cause, phaseTurn keyword fence t rest ≠ .leave cause) : Ordinary t rest := by
  unfold Ordinary
  by_contra hb
  exact h _ (phaseTurn_of_startsBlock keyword fence (by simpa using hb))

theorem phaseTurn_leave_mono {fence : Option Fence} {t : Token} {rest rest' : List Token} {cause : Option Cause}
    (h : phaseTurn keyword fence t rest = .leave cause)
    (hs : startsBlock t rest = true → startsBlock t rest' = true) :
    phaseTurn keyword fence t rest' = .leave cause := by
  by_cases hb : startsBlock t rest' = true
  · rw [cause_of_phaseTurn h]
    exact phaseTurn_of_startsBlock keyword fence hb
  · have hb' : startsBlock t rest' = startsBlock t rest := by
      cases hr : startsBlock t rest with
      | true => exact absurd (hs hr) hb
      | false => simpa using hb
    rw [← h]
    cases fence with
    | none => rfl
    | some f => simp only [phaseTurn, hb']

theorem prunable_phase (keyword : Token) (fence : Option Fence) :
    Prunable (phaseTurn keyword fence) (fence.map (.unclosedPhase · keyword.lexeme)) Ordinary Token.IsInert
      fun x => [x] where
  finish {t rest} h := by
    have ho : Ordinary t rest := ordinary_of_phaseTurn fun cause hc => by rw [h] at hc; cases hc
    have hv := phaseTurn_view keyword fence t rest
    rw [h] at hv
    cases hv with
    | finish he hk =>
      subst he
      exact ⟨Fence.isInert_closer hk, ho, fun _ => phaseTurn_eq_finish_iff.mpr hk⟩
  pass {t rest} h := by
    have ho : Ordinary t rest := ordinary_of_phaseTurn fun cause hc => by rw [h] at hc; cases hc
    have hk := phaseTurn_eq_pass_iff.mp h
    exact ⟨.inl hk, ho, fun _ => phaseTurn_eq_pass_iff.mpr hk⟩
  drop h := ordinary_of_phaseTurn fun cause hc => by rw [h] at hc; cases hc
  enter h := .inr (.inr (.inr (Token.kind_of_isReserved (phaseTurn_eq_enter_iff.mp h).1)))
  block {t rest _ _} h hb := by
    have ho : Ordinary t rest := ordinary_of_phaseTurn fun cause hc => by rw [h] at hc; cases hc
    rw [Ordinary, hb] at ho
    cases ho
  item {t rest rest' final item xs ds} h hF hpass := by
    obtain ⟨hp, rfl⟩ := phaseTurn_eq_enter_iff.mp h
    have ht : phaseTurn keyword fence t (kept ((fixture t).run rest).steps ++ rest') = .enter (fixture t) :=
      phaseTurn_eq_enter_iff.mpr ⟨hp, rfl⟩
    exact ⟨_, (passes_items_enter ht).mpr ⟨_, _, _, _, _, prunes_fixture _ _ _ hF, hpass, rfl, rfl⟩, rfl⟩

def games (keyword : Token) (fence : Option Fence) : Reader Unit := do
  let fixtures ← items (phaseTurn keyword fence) (fence.map (.unclosedPhase · keyword.lexeme))
  declare (.phase keyword (fixtures.filterMap id))

theorem phase_eq (keyword : Token) :
    phase keyword = colonAfter keyword >>= fun _ => phaseFence keyword >>= games keyword := rfl

abbrev ResumesPhases : List Token → List Token → Prop :=
  Follows (fun t rest => t.kind ≠ .closeBrace ∧ Ordinary t rest ∧ isPhaseKeyword t = false) Token.IsInert

theorem keeps_games {fence : Option Fence} {tokens rest final : List Token}
    (hs : StopsAgain (phaseTurn keyword fence) (fence.map (.unclosedPhase · keyword.lexeme)) Ordinary Token.IsInert
      ((games keyword fence).run tokens).rest rest final) : (games keyword fence).Keeps tokens rest final := by
  obtain ⟨-, -, ys, hpass, hv⟩ := (prunable_phase keyword fence).items tokens hs
  rw [List.flatMap_singleton', List.flatMap_singleton'] at hv
  unfold Keeps
  rw [games, run_bind, kept_append, declarations_append, List.append_assoc]
  rw [hv] at hpass
  exact hpass.bind ⟨rfl, rfl, orderly_declare.mpr orderly_nil, rfl⟩

theorem partido_not_phase {t : Token} (h : isPhaseKeyword t = true) : t.isReserved "partido" = false := by
  by_contra hp
  have hl := Token.lexeme_of_isReserved (show t.isReserved "partido" = true by simpa using hp)
  rw [isPhaseKeyword, hl] at h
  simp [show Phase.ofName? "partido" = none by decide] at h

theorem kind_of_isPhaseKeyword {t : Token} (h : isPhaseKeyword t = true) : t.kind = .reserved := by
  simp only [isPhaseKeyword, Bool.and_eq_true, decide_eq_true_eq] at h
  exact h.1

section Resumed

variable (keyword : Token) {xs : List Unit} {ds : List Declaration} {final : List Token}

theorem head_of_phaseList {t : Token} {rest : List Token} (h : phaseList.Passes (t :: rest) xs ds final) :
    t.IsInert ∧ (t.kind = .comma ∨ phaseTurn keyword none t rest = .leave none) := by
  have hleave (hk : t.kind ≠ .comma) (hp : t.isReserved "partido" = false) :
      phaseTurn keyword none t rest = .leave none := by
    simp [phaseTurn, hk, hp]
  generalize ht : listTurn .brace .bracket phaseItem t rest = turn
  have hv := listTurn_view .brace .bracket phaseItem t rest
  rw [ht] at hv
  cases hv with
  | finish hk =>
    have hk : t.kind = .closeBrace := hk
    refine ⟨.inr (.inl hk), .inr (hleave (by rw [hk]; decide) ?_)⟩
    simp [Token.isReserved, hk]
  | pass hk => exact ⟨.inl hk, .inl hk⟩
  | leave hb =>
    exact ⟨.inr (.inr (.inr (kind_of_startsBlock hb))), .inr (phaseTurn_of_startsBlock keyword none hb)⟩
  | enter hi =>
    have hp := (item_of_isPhaseKeyword hi).1
    have hk := kind_of_isPhaseKeyword hp
    exact ⟨.inr (.inr (.inr hk)), .inr (hleave (by rw [hk]; decide) (partido_not_phase hp))⟩
  | drop => exact absurd h (not_passes_items_drop ht)

theorem passes_commas {rest : List Token} (h : phaseList.Passes rest xs ds final) :
    (items (phaseTurn keyword none) none).Passes rest [] [] (rest.dropWhile fun t => t.kind = .comma) ∧
      phaseList.Passes (rest.dropWhile fun t => t.kind = .comma) xs ds final := by
  induction rest with
  | nil => exact ⟨passes_items_nil nofun, h⟩
  | cons t rest ih =>
    by_cases hk : t.kind = .comma
    · rw [List.dropWhile_cons_of_pos (by simpa using hk)]
      have hlist := (passes_items_pass (listTurn_eq_pass_iff.mpr hk)).mp h
      exact ⟨(passes_items_pass (phaseTurn_eq_pass_iff.mpr hk)).mpr (ih hlist).1, (ih hlist).2⟩
    · rw [List.dropWhile_cons_of_neg (by simpa using hk)]
      exact ⟨passes_items_leave ((head_of_phaseList keyword h).2.resolve_left hk) nofun, h⟩

end Resumed

theorem starts_games : (games keyword none).Starts := by
  refine (starts_items fun t rest context h => ?_).bind fun _ => starts_of_takesFirst (quiet_declare _).takesFirst
  have hv := phaseTurn_view keyword none t rest
  rw [h] at hv
  cases hv with
  | drop he => cases he

theorem stopsAgain_opened {f : Fence} {rest rest' : List Token} (hF : ResumesPhases rest rest') :
    StopsAgain (phaseTurn keyword (some f)) (some (.unclosedPhase f keyword.lexeme)) Ordinary Token.IsInert
      rest rest' rest' where
  finished _ := rfl
  stopped hstop := by
    have hend (f : Fence) : ∀ c ∈ some (Cause.unclosedPhase f keyword.lexeme), c.kind ≠ .unexpectedToken := by
      simp [Cause.kind]
    rcases hstop with rfl | ⟨t, tail, cause, rfl, ht⟩
    · rw [hF.eq_nil]
      exact ⟨.ended, by simp, passes_items_nil (hend f)⟩
    · have hv := phaseTurn_view keyword (some f) t tail
      rw [ht] at hv
      cases hv with
      | stop he => cases he
      | leave he hleave =>
        simp only [Bool.or_eq_true, decide_eq_true_eq] at hleave
        cases hF with
        | dropped hd _ =>
          obtain ⟨hk, ho, hp⟩ := hd
          rw [hp, show startsBlock t tail = false from ho] at hleave
          simp [hk] at hleave
        | same hs =>
          refine ⟨.same hs, ?_, passes_items_leave (phaseTurn_leave_mono ht hs) (hend _)⟩
          rintro _ ⟨⟩
          rcases hleave with (hk | hp) | hb
          · exact .inr (.inl hk)
          · exact .inr (.inr (.inr (kind_of_isPhaseKeyword hp)))
          · exact .inr (.inr (.inr (kind_of_startsBlock hb)))

theorem stopsAgain_unopened {rest rest' final : List Token} {xs : List Unit} {ds : List Declaration}
    (hF : ResumesPhases rest rest') (hpass : phaseList.Passes rest' xs ds final) :
    StopsAgain (phaseTurn keyword none) none Ordinary Token.IsInert rest rest'
      (rest'.dropWhile fun t => t.kind = .comma) where
  finished {t tail} h := by
    have hv := phaseTurn_view keyword none t tail
    rw [h] at hv
    cases hv with
    | finish he => cases he
  stopped _ := by
    refine ⟨hF.mono (fun _ _ hd => hd.2.1) fun _ => id, fun u hu => ?_, (passes_commas keyword hpass).1⟩
    cases rest' with
    | nil => cases hu
    | cons v tail =>
      cases hu
      exact (head_of_phaseList keyword hpass).1

theorem keeps_phase {tokens rest final : List Token} {xs : List Unit} {ds : List Declaration}
    (hF : ResumesPhases ((phase keyword).run tokens).rest rest) (hpass : phaseList.Passes rest xs ds final) :
    ∃ middle, (phase keyword).Keeps tokens rest middle ∧ phaseList.Passes middle xs ds final := by
  have hcolon (u : Token) (hu : u.IsInert) : decide (u.kind = .colon) = false := by simpa using hu.ne (by decide)
  have hfence (u : Token) (hu : u.IsInert) :
      (decide (u.kind = .openBracket) || decide (u.kind = .openBrace)) = false := by
    simpa using ⟨hu.ne (by decide), hu.ne (by decide)⟩
  have hgames (tokens : List Token)
      (ht : ∀ t ∈ tokens.head?, (decide (t.kind = .openBracket) || decide (t.kind = .openBrace)) = false) :
      (games keyword ((phaseFence keyword).run tokens).value).Starts := by
    rw [run_phaseFence_rejected ht]
    exact starts_games
  rw [phase_eq] at hF ⊢
  have hlast (fence : Option Fence) (tokens : List Token)
      (h : ResumesPhases ((games keyword fence).run tokens).rest rest) :
      ∃ middle, (games keyword fence).Keeps tokens rest middle ∧ phaseList.Passes middle xs ds final := by
    cases fence with
    | some f => exact ⟨rest, keeps_games (stopsAgain_opened h), hpass⟩
    | none => exact ⟨_, keeps_games (stopsAgain_unopened h hpass), (passes_commas keyword hpass).2⟩
  obtain ⟨middle, hm, hp⟩ := hlast _ _ hF
  have hphaseFence := (takesFirst_phaseFence keyword).keeps_bind hfence (hgames _) hF hm
  refine ⟨middle, ?_, hp⟩
  exact (takesFirst_colonAfter keyword).keeps_bind hcolon
    (fun _ => (takesFirst_phaseFence keyword).starts_bind hgames) hF hphaseFence

theorem prunable_phases : Prunable (listTurn .brace .bracket phaseItem) (some (.unclosedList .brace .bracket))
    (fun t rest => t.kind ≠ .closeBrace ∧ Ordinary t rest ∧ isPhaseKeyword t = false) Token.IsInert fun x => [x] := by
  have hinert {t : Token} {reader : Reader Unit} (hi : phaseItem t = some reader) : t.IsInert :=
    .inr (.inr (.inr (kind_of_isPhaseKeyword (item_of_isPhaseKeyword hi).1)))
  refine prunable_listTurn ?_ (fun t rest hc _ ho hi => ⟨hc, ho, ?_⟩) (fun _ _ => hinert) ?_
  · rintro t (hk | hk)
    · exact Fence.isInert_closer hk
    · exact .inl hk
  · by_contra hp
    simp [phaseItem, hp] at hi
  · intro t reader rest rest' final xs ds h hF hpass
    have hi := item_of_listTurn_eq_enter h
    obtain ⟨hp, rfl⟩ := item_of_isPhaseKeyword hi
    obtain ⟨middle, hkeeps, hmiddle⟩ := keeps_phase hF hpass
    have hk := kind_of_isPhaseKeyword hp
    have hb : t.isBlockKeyword = false := by
      by_contra hb
      rw [isPhaseKeyword_eq_false (by simpa using hb)] at hp
      cases hp
    have ht : listTurn .brace .bracket phaseItem t (kept ((phase t).run rest).steps ++ rest') = .enter (phase t) :=
      listTurn_of_item hi (by rw [hk]; decide) (startsBlock_eq_false hb _)
    exact ⟨_, (passes_items_enter ht).mpr ⟨_, _, _, _, _, hkeeps, hmiddle, rfl, rfl⟩, rfl⟩

end Phase

section Block

variable {α : Type} {keyword : Token} {content : Reader (List α)} {last : List α → Reader Unit}

def block (keyword : Token) (content : Reader (List α)) (last : List α → Reader Unit) : Reader Unit := do
  if ← opened keyword then
    let xs ← content
    let _ ← takeKind .semicolon
    last xs

theorem starts_block : (block keyword content last).Starts := by
  refine (takesFirst_opened keyword).starts_bind fun tokens ht => ?_
  have hrun : (takeKind .openBrace).run tokens = ⟨none, [], tokens⟩ := run_takeIf_rejected ht
  simp only [opened, run_bind, hrun]
  exact starts_pure _

theorem prunes_block (h : content.Prunes Continues) (hl : ∀ xs, (last xs).Quiet) :
    (block keyword content last).Prunes Resumes := by
  have hend (xs : List α) : (takeKind .semicolon >>= fun _ => last xs).TakesFirst fun t => t.kind = .semicolon :=
    takesFirst_of_quiet fun _ => hl xs
  have hbody : (content >>= fun xs => takeKind .semicolon >>= fun _ => last xs).Prunes Resumes := by
    refine Prunes.bind_of_stays (h.mono fun _ _ hF => hF.mono (fun _ _ => id) fun _ _ => trivial) (fun xs => ?_)
      (fun xs => starts_of_takesFirst (hend xs)) fun xs => staysAtBlocks_semicolon.bind fun _ => (hl xs).staysAtBlocks
    intro tokens rest hF
    refine (hend xs).keeps fun hr => ?_
    rw [((hend xs).stays hr).2] at hF
    exact hF.head_rejected hr fun u hu => by simpa using hu.ne (by decide)
  refine (takesFirst_opened keyword).prunes_bind (fun _ hu => by simpa using hu.ne (by decide)) ?_ fun b => ?_
  · intro tokens ht
    have hrun : (takeKind .openBrace).run tokens = ⟨none, [], tokens⟩ := run_takeIf_rejected ht
    simp only [opened, run_bind, hrun]
    exact starts_pure _
  · split
    · exact hbody
    · exact prunes_pure _

theorem prunes_of_block? {t : Token} {reader : Reader Unit} (h : block? t = some reader) :
    t.IsInert ∧ reader.Starts ∧ reader.Prunes Resumes := by
  rcases block?_eq_some_iff.mp h with ⟨ht, rfl⟩ | ⟨ht, rfl⟩ | ⟨ht, rfl⟩
  · refine ⟨.inr (.inr (.inr (Token.kind_of_isReserved ht))), starts_block, ?_⟩
    exact prunes_block (prunes_pairs (prunes_labelled .brace)) fun _ => quiet_declare _
  · refine ⟨.inr (.inr (.inr (Token.kind_of_isReserved ht))), starts_block, ?_⟩
    exact prunes_block (prunes_list (prunable_keyword_list (by decide) prunes_team) isInert_of_isBlockKeyword)
      fun _ => quiet_declare _
  · refine ⟨.inr (.inr (.inr (Token.kind_of_isReserved ht))), starts_block, ?_⟩
    exact prunes_block (prunes_list prunable_phases isInert_of_isBlockKeyword) fun _ => quiet_pure _

end Block

theorem ordinary_of_block? {t : Token} (h : block? t = none) (rest : List Token) : Ordinary t rest := by
  unfold Ordinary
  by_contra hb
  obtain ⟨block, hblock⟩ := exists_block (show startsBlock t rest = true by simpa using hb)
  rw [h] at hblock
  cases hblock

theorem startsBlock_kept {t : Token} {rest rest' : List Token} {reader : Reader Unit} (hs : reader.Starts)
    (h : startsBlock t rest = true) (hF : Resumes (reader.run rest).rest rest') :
    startsBlock t (kept (reader.run rest).steps ++ rest') = true := by
  simp only [startsBlock, Bool.and_eq_true] at h ⊢
  have hcolon : ∀ u ∈ rest.head?, decide (u.kind = .colon) = false := by
    intro u hu
    rw [Option.mem_def.mp hu] at h
    simpa using h.2
  have hkept : ∀ u ∈ (kept (reader.run rest).steps ++ rest').head?, decide (u.kind = .colon) = false := by
    refine hs.head_rejected hcolon fun he => ?_
    rw [he] at hF
    exact hF.head_rejected hcolon fun u hu => by simpa using hu.ne (by decide)
  refine ⟨h.1, ?_⟩
  generalize (kept (reader.run rest).steps ++ rest').head? = next at hkept ⊢
  cases next with
  | none => rfl
  | some u => simpa using hkept u rfl

theorem prunable_document : Prunable documentTurn none Ordinary Token.IsInert fun x => [x] where
  finish {t rest} h := by
    have hv := documentTurn_view t rest
    rw [h] at hv
    cases hv
  pass {t rest} h := by
    have hv := documentTurn_view t rest
    rw [h] at hv
    cases hv
  drop {t rest _} h := by
    have hv := documentTurn_view t rest
    rw [h] at hv
    cases hv with
    | drop hb => exact ordinary_of_block? hb rest
  enter h := (prunes_of_block? (documentTurn_eq_enter_iff.mp h)).1
  block h hb hF := startsBlock_kept (prunes_of_block? (documentTurn_eq_enter_iff.mp h)).2.1 hb hF
  item {t rest rest' final reader xs ds} h hF hpass := by
    have hb := documentTurn_eq_enter_iff.mp h
    have ht : documentTurn t (kept (reader.run rest).steps ++ rest') = .enter reader :=
      documentTurn_eq_enter_iff.mpr hb
    have hkeeps := (prunes_of_block? hb).2.2 rest rest' hF
    exact ⟨_, (passes_items_enter ht).mpr ⟨_, _, _, _, _, hkeeps, hpass, rfl, rfl⟩, rfl⟩

theorem read_kept (tokens : List Token) :
    Orderly (read (kept (read tokens))) ∧ declarations (read (kept (read tokens))) = declarations (read tokens) := by
  have hrest := rest_documentTurn tokens
  have hstops : StopsAgain documentTurn none Ordinary Token.IsInert
      ((items documentTurn none).run tokens).rest [] [] := by
    rw [hrest]
    refine ⟨fun _ => rfl, fun _ => ⟨.ended, by simp, passes_items_nil nofun⟩⟩
  obtain ⟨-, -, ys, ⟨-, -, ho, hd⟩, -⟩ := prunable_document.items tokens hstops
  rw [List.append_nil] at ho hd
  exact ⟨ho, hd⟩

def skips (tokens : List Token) (i : Nat) : Bool :=
  ((moves (read tokens))[i]?).any Step.isSkip

end Document

namespace Steps

theorem tournament_congr (policy : Redeclaration) {a b : List Step} (h : declarations a = declarations b) :
    tournament policy a = tournament policy b := by
  simp only [tournament, infos_eq, teams_eq, phases_eq, h]

theorem kind_of_orderly {step : Step} (h : step.isOrderly = true) (strictness : Strictness) (last : Position)
    (m : Memory) : ∀ d ∈ diagnostics strictness last m step, d.kind ≠ .unexpectedToken := by
  intro d hd
  cases step with
  | take => cases hd
  | skip => cases h
  | report cause found =>
    have hc : cause.kind ≠ .unexpectedToken := by simpa [Step.isOrderly] using h
    cases found <;> obtain rfl := List.mem_singleton.mp hd <;> exact hc
  | ignore key =>
    simp only [diagnostics] at hd
    split at hd
    · obtain rfl := List.mem_singleton.mp hd
      intro he
      cases he
    · cases hd
  | declare declaration =>
    cases declaration with
    | info | phase =>
      simp only [diagnostics] at hd
      split at hd
      · obtain rfl := List.mem_singleton.mp hd
        intro he
        cases he
      · cases hd
    | teams => cases hd

theorem kind_of_mem_diagnosticsFrom {steps : List Step} (h : Orderly steps) (strictness : Strictness) (last : Position)
    (m : Memory) : ∀ d ∈ diagnosticsFrom strictness last m steps, d.kind ≠ .unexpectedToken := by
  induction steps generalizing m with
  | nil => exact nofun
  | cons step steps ih =>
    intro d hd
    rcases List.mem_append.mp hd with hd | hd
    · exact kind_of_orderly (h step List.mem_cons_self) strictness last m d hd
    · exact ih (fun s hs => h s (List.mem_cons_of_mem _ hs)) _ d hd

end Steps

/--
The tokens that are skipped could as well not be there: without them nothing is skipped, no token is reported to be
unexpected, and the tournament is the same.
-/
theorem assemble_without_skipped (options : Options) (tokens : List Token) :
    (∀ i, Document.skips (without (Document.skips tokens) tokens) i = false) ∧
      (∀ d ∈ (assemble options (without (Document.skips tokens) tokens)).diagnostics,
        d.kind ≠ .unexpectedToken) ∧
      (assemble options (without (Document.skips tokens) tokens)).tournament = (assemble options tokens).tournament := by
  have hkept : without (Document.skips tokens) tokens = kept (Document.read tokens) := by
    have hw := without_isSkip (Document.read tokens)
    rwa [Document.consumed_read] at hw
  obtain ⟨ho, hd⟩ := Document.read_kept tokens
  rw [hkept]
  refine ⟨fun i => ?_, Steps.kind_of_mem_diagnosticsFrom ho _ _ _, Steps.tournament_congr _ hd⟩
  exact ho.not_isSkip_move i

end Knockout
