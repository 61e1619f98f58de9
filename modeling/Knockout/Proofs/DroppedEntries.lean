import Knockout.Proofs.NamelessEntries
import Knockout.Proofs.SourcePositions

namespace Knockout

namespace Grammar

open Reader Document

variable {α β : Type} {deleted : Token → Bool} {tokens ts rest : List Token}

section Phases

variable {keyword : Token}

theorem recovers_fixtures (keyword : Token) (fence : Fence) : Recovers deleted (phaseTurn keyword (some fence))
    fence.closer OutlinesFixture FixtureOutline.names (FixtureOutline.without deleted) fun _ => [] where
  finish _ := phaseTurn_eq_finish_iff.mpr
  pass _ := phaseTurn_eq_pass_iff.mpr
  begins := by
    rintro _ _ ⟨hk, -⟩
    refine ⟨_, _, rfl, Token.kind_of_isReserved hk, ((List.Sublist.cons_cons _ ?_).cons _)⟩
    exact ((List.nil_sublist _).cons_cons _).trans (List.sublist_append_right _ _)
  item := by
    rintro _ _ rest _ ⟨hk, hc, hh, hm, ha, hts⟩ hl hd hrest
    simp only [lexical_cons, lexical_append] at hl
    exact ⟨_, phaseTurn_eq_enter_iff.mpr ⟨hk, rfl⟩, fixture_misses hc hh hm ha hl.2.2.2.2.2 hts hd hrest⟩

theorem phaseFence_accepts {fence : Fence} {l : Token} (h : l.kind = fence.opener) (tail : List Token) :
    (phaseFence keyword).Accepts (l :: tail) (some fence) [] tail := by
  have hbind : (phaseFence keyword >>= pure).Accepts (l :: tail) (some fence) [] tail :=
    accepts_phaseFence_bind.mpr ⟨fence, l, tail, rfl, h, accepts_pure.mpr ⟨rfl, rfl, rfl⟩⟩
  rwa [show phaseFence keyword >>= pure = phaseFence keyword from Reader.ext (by funext tokens; simp)] at hbind

theorem phase_misses {colon : Token} {fence : Fence} {fixtures : List FixtureOutline} (hc : colon.kind = .colon)
    (hl : Lexical ts) (he : Enclosed fence (Entries OutlinesFixture) ts fixtures)
    (hd : Deletes deleted (colon :: ts) (fixtures.flatMap FixtureOutline.names)) :
    (phase keyword).Misses (spared deleted (colon :: ts) ++ rest) () [Outline.without deleted (.phase keyword fixtures)]
      ((fixtures.flatMap FixtureOutline.names).countP deleted) rest := by
  have hr : Recovers deleted _ _ _ _ _ _ := recovers_fixtures keyword fence
  obtain ⟨hcolon, hd⟩ := hd.kept (he.names_sublist hr.sublist)
  obtain ⟨l, body, hs, hopen, hitems⟩ := he.misses hr (some (.unclosedPhase fence keyword.lexeme)) hl hd
  have hnil : fixtures.flatMap (fun _ => ([] : List Declaration)) = [] := by simp
  have hdeclare : (declare (.phase keyword ((fixtures.map (FixtureOutline.without deleted)).filterMap id))).Accepts
      rest () [Outline.without deleted (.phase keyword fixtures)] rest := by
    rw [List.filterMap_map]
    exact accepts_declare.mpr ⟨rfl, rfl⟩
  have hbody := (hitems rest).bind (f := fun xs => declare (.phase keyword (xs.filterMap id))) hdeclare.misses
  rw [hnil, List.nil_append, Nat.add_zero] at hbody
  rw [spared_cons hcolon, hs]
  exact ((colonAfter_takesOne keyword).accepts hc _).bind_misses ((phaseFence_accepts hopen _).bind_misses hbody)

theorem recovers_phases : Recovers deleted (listTurn .brace .bracket phaseItem) Fence.brace.closer OutlinesPhase
    Outline.names (fun _ => ()) fun o => [o.without deleted] := by
  apply recovers_list
  · rintro _ _ ⟨hk, -, he⟩
    exact ⟨_, _, rfl, Token.kind_of_isReserved hk, (he.names_sublist OutlinesFixture.names_sublist).cons _⟩
  · rintro _ _ rest _ ⟨hk, hc, he⟩ hl hd hrest
    simp only [lexical_cons] at hl
    have hcolon := (hd.kept (he.names_sublist OutlinesFixture.names_sublist)).1
    refine ⟨?_, _, if_pos ((isPhaseKeyword_iff hl.1).mpr ⟨_, hk⟩), phase_misses hc hl.2.2 he hd⟩
    rw [spared_cons hcolon]
    simp [startsBlock, hc]

end Phases

section Blocks

variable {turn : Token → List Token → Turn α} {entry : List Token → β → Prop} {names : β → List Token}
  {value : β → α} {declared : β → List Declaration} {ys : List β} {stop : List Token}

theorem block_misses (keyword : Token) (unfinished : Option Cause) (last : List α → Reader Unit)
    {made : List Declaration} (hr : Recovers deleted turn Fence.brace.closer entry names value declared)
    (hlast : ∀ tokens, (last (ys.map value)).Accepts tokens () made tokens) (hl : Lexical ts)
    (he : Enclosed .brace (Entries entry) ts ys) (hs : AtMostOne .semicolon stop)
    (hd : Deletes deleted (ts ++ stop) (ys.flatMap names)) (hrest : ∀ t ∈ rest.head?, t.kind = .reserved) :
    (opened keyword >>= fun b => if b = true then
      items turn unfinished >>= fun xs => takeKind .semicolon >>= fun _ => last xs else pure ()).Misses
        (spared deleted (ts ++ stop) ++ rest) () (ys.flatMap declared ++ made)
        ((ys.flatMap names).countP deleted) rest := by
  rw [← List.append_nil (ys.flatMap names)] at hd
  obtain ⟨hbody, hstop⟩ := hd.split (he.names_sublist hr.sublist) (List.nil_sublist _)
  obtain ⟨l, body, hspared, hopen, hitems⟩ := he.misses hr unfinished hl hbody
  have hnext : ∀ t ∈ rest.head?, t.kind ≠ .semicolon := fun t ht => by simp [hrest t ht]
  obtain ⟨o, hsemicolon⟩ := optional_accepts hs hnext
  have hcontent := (hitems (stop ++ rest)).bind (f := fun xs => takeKind .semicolon >>= fun _ => last xs)
    (hsemicolon.bind_misses (hlast rest).misses)
  rw [spared_append, hspared, hstop.spared_eq, List.append_assoc]
  exact ((opened_takesOne keyword).accepts hopen _).bind_misses hcontent

theorem OutlinesBlock.begins {os : List Outline} (h : OutlinesBlock ts os) :
    ∃ t tail block, ts = t :: tail ∧ block? t = some block ∧ (os.flatMap Outline.names).Sublist tail := by
  cases h with
  | info hk => exact ⟨_, _, _, rfl, block?_eq_some_iff.mpr (.inl ⟨hk, rfl⟩), List.nil_sublist _⟩
  | @teams _ _ _ teams hk he =>
    refine ⟨_, _, _, rfl, block?_eq_some_iff.mpr (.inr (.inl ⟨hk, rfl⟩)), ?_⟩
    rw [List.flatMap_singleton]
    exact (he.names_sublist OutlinesTeam.names_sublist).trans (List.sublist_append_left _ _)
  | bracket hk he =>
    refine ⟨_, _, _, rfl, block?_eq_some_iff.mpr (.inr (.inr ⟨hk, rfl⟩)), ?_⟩
    exact (he.names_sublist OutlinesPhase.names_sublist).trans (List.sublist_append_left _ _)

theorem OutlinesBlock.misses {t : Token} {tail : List Token} {os : List Outline} {block : Reader Unit}
    (h : OutlinesBlock (t :: tail) os) (hb : block? t = some block) (hl : Lexical tail)
    (hd : Deletes deleted tail (os.flatMap Outline.names)) (hrest : ∀ t ∈ rest.head?, t.kind = .reserved) :
    block.Misses (spared deleted tail ++ rest) () (os.map (Outline.without deleted))
      ((os.flatMap Outline.names).countP deleted) rest := by
  have hblock {other : Reader Unit} (ho : block? t = some other) : block = other := Option.some.inj (hb.symm.trans ho)
  cases h with
  | info hk hinfo =>
    obtain rfl := hblock (block?_eq_some_iff.mpr (.inl ⟨hk, rfl⟩))
    have huntouched : spared deleted tail = tail := Deletes.spared_eq hd
    rw [huntouched]
    exact ((infoBlock_reads hk).complete hl hinfo hrest).misses
  | @teams _ _ _ teams hk he hs =>
    obtain rfl := hblock (block?_eq_some_iff.mpr (.inr (.inl ⟨hk, rfl⟩)))
    have hnil : teams.flatMap (fun _ => ([] : List Declaration)) = [] := by simp
    rw [List.flatMap_singleton] at hd ⊢
    have hmisses := block_misses t (some (.unclosedList .brace .teams))
      (fun xs => declare (.teams (xs.filterMap id))) recovers_teams (fun _ => accepts_declare.mpr ⟨rfl, rfl⟩)
      (lexical_append.mp hl).1 he hs hd hrest
    rw [hnil, List.filterMap_map] at hmisses
    exact hmisses
  | bracket hk he hs =>
    obtain rfl := hblock (block?_eq_some_iff.mpr (.inr (.inr ⟨hk, rfl⟩)))
    have hmisses := block_misses t (some (.unclosedList .brace .bracket)) (fun _ => pure ()) recovers_phases
      (fun _ => accepts_pure.mpr ⟨rfl, rfl, rfl⟩) (lexical_append.mp hl).1 he hs hd hrest
    rw [← List.map_eq_flatMap, List.append_nil] at hmisses
    exact hmisses

theorem Outlines.head_reserved {os : List Outline} (h : Outlines tokens os)
    (hd : Deletes deleted tokens (os.flatMap Outline.names)) :
    ∀ t ∈ (spared deleted tokens).head?, t.kind = .reserved := by
  cases h with
  | nil => exact nofun
  | block hb hmore =>
    obtain ⟨t, tail, block, rfl, hblock, hs⟩ := hb.begins
    rw [List.flatMap_append] at hd
    obtain ⟨hfirst, -⟩ := hd.split (hs.cons t) hmore.names_sublist
    rw [List.cons_append, spared_cons (hfirst.kept hs).1]
    rintro _ ⟨⟩
    rcases block?_eq_some_iff.mp hblock with ⟨hk, -⟩ | ⟨hk, -⟩ | ⟨hk, -⟩
    · exact Token.kind_of_isReserved hk
    · exact Token.kind_of_isReserved hk
    · exact Token.kind_of_isReserved hk

theorem Outlines.misses {os : List Outline} (h : Outlines tokens os) (hl : Lexical tokens)
    (hd : Deletes deleted tokens (os.flatMap Outline.names)) :
    ∃ xs, (items documentTurn none).Misses (spared deleted tokens) xs (os.map (Outline.without deleted))
      ((os.flatMap Outline.names).countP deleted) [] := by
  induction h with
  | nil => exact ⟨[], (accepts_items_nil.mpr ⟨rfl, rfl, rfl, rfl⟩).misses⟩
  | block hb hmore ih =>
    rw [lexical_append] at hl
    obtain ⟨t, tail, block, rfl, hblock, hs⟩ := hb.begins
    rw [List.flatMap_append] at hd ⊢
    obtain ⟨hfirst, hrest⟩ := hd.split (hs.cons t) hmore.names_sublist
    obtain ⟨ht, htail⟩ := hfirst.kept hs
    obtain ⟨xs, hxs⟩ := ih hl.2 hrest
    have hread := hb.misses hblock (lexical_cons.mp hl.1).2 htail (hmore.head_reserved hrest)
    refine ⟨() :: xs, ?_⟩
    rw [spared_append, spared_cons ht, List.map_append, List.countP_append]
    exact misses_items_enter (documentTurn_eq_enter_iff.mpr hblock) hread hxs

end Blocks

end Grammar

namespace Steps

theorem causes_diagnosticsFrom {steps : List Step} (h : ∀ cause ∈ complaints steps, cause.kind ≠ .unexpectedToken)
    (last : Position) (m : Memory) :
    (diagnosticsFrom .lenient last m steps).map Diagnostic.cause = complaints steps := by
  induction steps generalizing m with
  | nil => rfl
  | cons step steps ih =>
    have hrest := fun hsteps m => ih (h := hsteps) (m := m)
    cases step with
    | skip t context => exact absurd rfl (h _ List.mem_cons_self)
    | report cause found =>
      have hcons := hrest (fun c hc => h c (List.mem_cons_of_mem _ hc)) (m.after (.report cause found))
      cases found with
      | none => exact congrArg (cause :: ·) hcons
      | some t => exact congrArg (cause :: ·) hcons
    | take t => exact hrest h _
    | ignore key => exact hrest h _
    | declare d => cases d <;> exact hrest h _

theorem kinds_diagnosticsFrom {steps : List Step} {roles : List NameRole}
    (h : complaints steps = roles.map .missingName) (last : Position) :
    (diagnosticsFrom .lenient last {} steps).map Diagnostic.kind = List.replicate roles.length .missingValue := by
  have hcauses : (diagnosticsFrom .lenient last {} steps).map Diagnostic.cause = roles.map .missingName := by
    rw [← h]
    refine causes_diagnosticsFrom (fun cause hc => ?_) last {}
    rw [h] at hc
    obtain ⟨role, -, rfl⟩ := List.mem_map.mp hc
    exact nofun
  have hkinds := congrArg (List.map Cause.kind) hcauses
  rw [List.map_map, List.map_map] at hkinds
  exact hkinds.trans (List.map_const ..)

theorem declarations_map_declare (ds : List Declaration) : declarations (ds.map .declare) = ds := by
  rw [declarations, List.filterMap_map]
  exact List.filterMap_some

end Steps

theorem Deletes.countP_eq {deleted : Token → Bool} {tokens names : List Token} (h : Deletes deleted tokens names)
    (hs : names.Sublist tokens) : names.countP deleted = tokens.countP deleted := by
  have hperm : (names.filter deleted).Perm (tokens.filter deleted) := by
    apply (List.perm_ext_iff_of_nodup ((h.nodup.sublist hs).filter _) (h.nodup.filter _)).mpr
    intro t
    rw [List.mem_filter, List.mem_filter]
    exact and_congr_left fun hd => ⟨fun ht => hs.subset ht, fun ht => h.only t ht hd⟩
  rw [List.countP_eq_length_filter, List.countP_eq_length_filter]
  exact hperm.length_eq

theorem assemble_outlined {tokens : List Token} {os : List Outline} (h : Grammar.Outlines tokens os)
    (hl : Lexical tokens) {deleted : Token → Bool} (hd : Deletes deleted tokens (os.flatMap Outline.names))
    (policy : Redeclaration) :
    (assemble ⟨policy, .lenient⟩ (spared deleted tokens)).tournament =
        Steps.tournament policy (os.map fun o => .declare (o.without deleted)) ∧
      (assemble ⟨policy, .lenient⟩ (spared deleted tokens)).diagnostics.map Diagnostic.kind =
        List.replicate (tokens.countP deleted) .missingValue := by
  obtain ⟨xs, -, -, hdeclared, roles, hlength, hcomplaints⟩ := h.misses hl hd
  constructor
  · apply Steps.tournament_congr
    refine hdeclared.trans ?_
    rw [← Steps.declarations_map_declare (os.map _), List.map_map]
    rfl
  · rw [← hd.countP_eq h.names_sublist, ← hlength]
    exact Steps.kinds_diagnosticsFrom hcomplaints _

theorem scan_nodup (text : String) : (scan text).tokens.Nodup := by
  refine (tokens_start text).imp ?_
  rintro t _ hstart rfl
  exact Nat.lt_irrefl _ hstart

/--
Where a source is read without a report and some of its names are deleted, just the teams and players with a deleted
name and the matches with a deleted side are lost before the rest is stored, and as many values are missing as names.
-/
theorem missing_names_drop_entries (policy : Redeclaration) (text : String)
    (h : (assemble ⟨policy, .lenient⟩ (scan text).tokens).diagnostics = []) :
    (∃ os, Grammar.Outlines (scan text).tokens os) ∧
      ∀ os, Grammar.Outlines (scan text).tokens os →
        (assemble ⟨policy, .lenient⟩ (scan text).tokens).tournament =
            Steps.tournament policy (os.map fun o => .declare o.declaration) ∧
          ∀ deleted : Token → Bool, (∀ t, deleted t = true → t ∈ os.flatMap Outline.names) →
            let rest := assemble ⟨policy, .lenient⟩ ((scan text).tokens.filter fun t => !deleted t)
            rest.tournament = Steps.tournament policy (os.map fun o => .declare (o.without deleted)) ∧
              rest.diagnostics.map Diagnostic.kind =
                List.replicate ((scan text).tokens.countP deleted) .missingValue := by
  have hl := scan_lexical text
  constructor
  · have hsilent : Silent (Document.read (scan text).tokens) :=
      (Steps.diagnosticsFrom_lenient_eq_nil_iff rfl).mp h
    exact ((Grammar.blocks_iff hl).mpr ⟨hsilent, rfl⟩).outlined
  · intro os hos
    have hread (deleted : Token → Bool) (hd : ∀ t, deleted t = true → t ∈ os.flatMap Outline.names) :=
      assemble_outlined hos hl ⟨scan_nodup text, fun t _ => hd t⟩ policy
    refine ⟨?_, hread⟩
    have hnone := (hread (fun _ => false) nofun).1
    have hspared : spared (fun _ => false) (scan text).tokens = (scan text).tokens :=
      List.filter_eq_self.mpr fun _ _ => rfl
    rwa [hspared, funext fun o : Outline => congrArg Step.declare o.without_none] at hnone

theorem missing_names_drop_entries_of_player_and_side :
    let text := "equipos\x7bequipo:A[jugador:B]\x7deliminacion\x7bfinal:[partido:A C]\x7d"
    let token (kind : TokenKind) (lexeme : String) (start stop : Nat) : Token :=
      ⟨kind, lexeme, 1, .ofNat (start + 1), start, stop⟩
    let player := token .identifier "B" 25 26
    let home := token .identifier "A" 55 56
    let os : List Outline := [.teams [⟨token .identifier "A" 15 16, [⟨player, "B", .empty⟩], 1⟩],
      .phase (token .reserved "final" 40 45) [⟨home, token .identifier "C" 57 58, "A", "C", none, [], 1⟩]]
    let deleted (t : Token) : Bool := t = player || t = home
    let rest := assemble ⟨.lastWins, .lenient⟩ ((scan text).tokens.filter fun t => !deleted t)
    (assemble ⟨.lastWins, .lenient⟩ (scan text).tokens).diagnostics = [] ∧ Grammar.Outlines (scan text).tokens os ∧
      (∀ t, deleted t = true → t ∈ os.flatMap Outline.names) ∧
      rest.tournament = ⟨.empty, [⟨"A", [], 1⟩], .ofList [("final", [])]⟩ ∧
      rest.diagnostics.map Diagnostic.kind = [.missingValue, .missingValue] := by
  intro text token player home os deleted rest
  have hread : (assemble ⟨.lastWins, .lenient⟩ (scan text).tokens).diagnostics = [] := by decide +kernel
  have hteam : Grammar.OutlinesTeam (token .reserved "equipo" 8 14 :: token .colon ":" 14 15 ::
      token .identifier "A" 15 16 :: token .openBracket "[" 16 17 ::
        (([token .reserved "jugador" 17 24, token .colon ":" 24 25, player] ++ []) ++
          [token .closeBracket "]" 26 27])) ⟨token .identifier "A" 15 16, [⟨player, "B", .empty⟩], 1⟩ :=
    .mk rfl rfl rfl (.present (.mk rfl (.entry (.mk (.mk rfl rfl rfl .absent fun _ => rfl)) .nil) rfl))
  have hfixture : Grammar.OutlinesFixture (token .reserved "partido" 47 54 :: token .colon ":" 54 55 :: home ::
      ([] ++ token .identifier "C" 57 58 :: [])) ⟨home, token .identifier "C" 57 58, "A", "C", none, [], 1⟩ :=
    .mk rfl rfl rfl .none rfl .absent
  have hfixtures : Grammar.Enclosed .bracket (Grammar.Entries Grammar.OutlinesFixture) _ _ :=
    .mk (rfl : (token .openBracket "[" 46 47).kind = _) (.entry hfixture .nil)
      (rfl : (token .closeBracket "]" 58 59).kind = _)
  have hphase := @Grammar.OutlinesPhase.mk (token .reserved "final" 40 45) (token .colon ":" 45 46) .final _ _ _
    rfl rfl hfixtures
  have hteams : Grammar.Enclosed .brace (Grammar.Entries Grammar.OutlinesTeam) _ _ :=
    .mk (rfl : (token .openBrace "\x7b" 7 8).kind = _) (.entry hteam .nil)
      (rfl : (token .closeBrace "\x7d" 27 28).kind = _)
  have hphases : Grammar.Enclosed .brace (Grammar.Entries Grammar.OutlinesPhase) _ _ :=
    .mk (rfl : (token .openBrace "\x7b" 39 40).kind = _) (.entry hphase .nil)
      (rfl : (token .closeBrace "\x7d" 59 60).kind = _)
  have hequipos : (token .reserved "equipos" 0 7).isReserved "equipos" = true := rfl
  have heliminacion : (token .reserved "eliminacion" 28 39).isReserved "eliminacion" = true := rfl
  have houtlines := Grammar.Outlines.block (.teams hequipos hteams .none)
    (.block (.bracket heliminacion hphases .none) .nil)
  have hos : Grammar.Outlines (scan text).tokens os := by
    refine cast (congrArg (Grammar.Outlines · os) ?_) houtlines
    decide +kernel
  have hdeleted : ∀ t, deleted t = true → t ∈ os.flatMap Outline.names := by
    intro t ht
    rcases (Bool.or_eq_true _ _).mp ht with ht | ht
    · rw [of_decide_eq_true ht]
      decide +kernel
    · rw [of_decide_eq_true ht]
      decide +kernel
  obtain ⟨ht, hk⟩ := ((missing_names_drop_entries .lastWins text hread).2 os hos).2 deleted hdeleted
  refine ⟨hread, hos, hdeleted, ht.trans ?_, hk.trans ?_⟩
  · decide +kernel
  · decide +kernel

end Knockout
