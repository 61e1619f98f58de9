import Knockout.Proofs.DeclaredParts
import Knockout.Proofs.EntrySources
import Knockout.Proofs.Redeclarations
import Knockout.Source

namespace Knockout

def Declaration.In (tokens : List Token) : Declaration → Prop
  | .info _ entries => ∀ e ∈ entries.entries, HasPair tokens e
  | .teams l => Spread Team.Written tokens l
  | .phase keyword games =>
    keyword ∈ tokens ∧ Document.isPhaseKeyword keyword = true ∧ Spread Fixture.Written tokens games

/-- The tournament says nothing but what the tokens say, each team and each match from a stretch of its own. -/
structure Tournament.In (tokens : List Token) (t : Tournament) : Prop where
  info : ∀ e ∈ t.info.entries, HasPair tokens e
  teams : Portioned Team.Written tokens t.teams
  phases : ∀ e ∈ t.bracket.entries, e.1 ∈ ["cuartos", "semifinal", "final"]
  games : ∃ entries : List (String × Fixture), Portioned (fun stretch e => e.2.Written stretch) tokens entries ∧
    ∀ phase, (t.bracket.find? phase).getD [] = (entries.filter fun e => e.1 = phase).map Prod.snd

namespace Reader

variable {α β : Type} {r : Reader α}

def Backs (r : Reader α) : Prop :=
  ∀ tokens, Spread Declaration.In (consumed (r.run tokens).steps) (declarations (r.run tokens).steps)

theorem Emits.backs (h : r.Emits Step.IsPlain) : r.Backs := by
  intro tokens
  rw [h.declarations_eq_nil]
  exact .none _ _

theorem Backs.bind {f : α → Reader β} (hr : r.Backs) (hf : ∀ x, (f x).Backs) : (r >>= f).Backs := by
  intro tokens
  rw [run_bind, consumed_append, declarations_append]
  exact (hr tokens).append (hf _ _)

theorem backs_pure (x : α) : (pure x : Reader α).Backs := fun _ => .nil

theorem backs_items {turn : Token → List Token → Turn α} {unfinished : Option Cause}
    (h : ∀ t rest item, turn t rest = .enter item → ∀ tokens,
      Spread Declaration.In (t :: consumed (item.run tokens).steps) (declarations (item.run tokens).steps)) :
    (items turn unfinished).Backs := by
  intro tokens
  change Spread Declaration.In (consumed (itemsFrom turn unfinished tokens).steps)
    (declarations (itemsFrom turn unfinished tokens).steps)
  fun_induction itemsFrom turn unfinished tokens with
  | case1 =>
    rw [declarations_reports]
    exact .none _ _
  | case2 => exact .none _ _
  | case3 =>
    rw [declarations_reports]
    exact .none _ _
  | case4 t rest _ more ih => exact .skip t ih
  | case5 t rest item ht first more ih =>
    rw [consumed_take, consumed_append, declarations_take, declarations_append, ← List.cons_append]
    exact (h t rest item ht rest).append ih
  | case6 t rest context _ more ih => exact .skip t ih

end Reader

namespace Document

open Reader

variable {α : Type}

theorem spread_phase {keyword : Token} (hk : isPhaseKeyword keyword = true) (tokens : List Token) :
    Spread Declaration.In (keyword :: consumed ((phase keyword).run tokens).steps)
      (declarations ((phase keyword).run tokens).steps) := by
  rw [declarations_phase, phase_eq_bind, run_bind, consumed_append]
  refine .single ⟨List.mem_cons_self, hk, .skip keyword ?_⟩
  exact (draws_fixtures keyword tokens).before _

theorem backs_phases : phaseList.Backs := by
  rw [phaseList, list]
  refine backs_items fun t rest reader ht tokens => ?_
  obtain ⟨hk, rfl⟩ := item_of_isPhaseKeyword (item_of_listTurn_eq_enter ht)
  exact spread_phase hk tokens

theorem backs_block (keyword : Token) {content : Reader Unit} (h : content.Backs) :
    (opened keyword >>= fun b => if b = true then content else pure ()).Backs := by
  apply (brief_opened (n := 0) keyword).emits.plain.backs.bind
  intro b
  split
  · exact h
  · exact backs_pure ()

theorem backs_declared {content : Reader α} (hplain : content.Emits Step.IsPlain) {P : List Token → α → Prop}
    (hd : Draws P content) {f : α → Declaration} (hf : ∀ stretch x, P stretch x → (f x).In stretch) :
    (content >>= fun x => takeKind .semicolon >>= fun _ => declare (f x)).Backs := by
  intro tokens
  simp only [run_bind, consumed_append, declarations_append, hplain.declarations_eq_nil, declarations_semicolon,
    List.nil_append]
  exact (Spread.single (hf _ _ (hd tokens))).before _

theorem backs_block? {t : Token} {block : Reader Unit} (h : block? t = some block) : block.Backs := by
  rcases block?_eq_some_iff.mp h with ⟨-, rfl⟩ | ⟨-, rfl⟩ | ⟨-, rfl⟩
  · have hplain := (entry_labelled_pairs (n := 0) .brace .info).plain
    refine backs_block t (backs_declared hplain (draws_labelledPairs .brace .info) ?_)
    intro stretch entries hs e he
    obtain ⟨part, hi, hpair⟩ := hs.exists_stretch (KeyMap.mem_of_mem_ofList he)
    exact hpair.mono hi
  · have hteams := draws_keyword (P := fun stretch (o : Option Team) => ∀ team ∈ o, team.Written stretch) .brace
      .teams fun _ => draws_team
    exact backs_block t (backs_declared (entry_teams (n := 0)).plain hteams fun _ _ hs => hs.somes)
  · have hsemicolon := (brief_takeKind (n := 0) (show TokenKind.semicolon ≠ .reserved by decide)).emits.plain.backs
    exact backs_block t (backs_phases.bind fun _ => hsemicolon.bind fun _ => backs_pure ())

theorem spread_read (tokens : List Token) : Spread Declaration.In tokens (declarations (read tokens)) := by
  have hitems : (items documentTurn none).Backs := by
    refine backs_items fun t rest block ht tokens => .skip t ?_
    exact backs_block? (documentTurn_eq_enter_iff.mp ht) tokens
  have := hitems tokens
  rwa [show consumed ((items documentTurn none).run tokens).steps = tokens from consumed_read tokens] at this

end Document

section Policies

theorem mem_combine_union {policy : Redeclaration} {m n : KeyMap String} {e : String × String}
    (h : e ∈ (policy.combine .union m n).entries) : e ∈ m.entries ∨ e ∈ n.entries := by
  obtain ⟨key, value⟩ := e
  cases policy with
  | lastWins => exact .inr h
  | keepFirst => exact .inl h
  | merge =>
    simp only [KeyMap.mem_entries_iff] at h ⊢
    rw [Redeclaration.combine, KeyMap.find?_union, Option.or_eq_some_iff] at h
    rcases h with h | ⟨-, h⟩
    · exact .inr h
    · exact .inl h

theorem mem_joinInfos {policy : Redeclaration} {maps : List (KeyMap String)} {e : String × String}
    (h : e ∈ (Steps.joinInfos policy maps).entries) : ∃ m ∈ maps, e ∈ m.entries := by
  have hfoldl (more : List (KeyMap String)) (first : KeyMap String)
      (h : e ∈ (more.foldl (policy.combine .union) first).entries) : ∃ m ∈ first :: more, e ∈ m.entries := by
    induction more generalizing first with
    | nil => exact ⟨first, List.mem_cons_self, h⟩
    | cons next more ih =>
      obtain ⟨m, hm, he⟩ := ih _ h
      rcases List.mem_cons.mp hm with rfl | hm
      · rcases mem_combine_union he with he | he
        · exact ⟨first, by simp, he⟩
        · exact ⟨next, by simp, he⟩
      · exact ⟨m, by simp [hm], he⟩
  cases maps with
  | nil => cases h
  | cons first more => exact hfoldl more first h

theorem exists_of_mem_joinPhases {policy : Redeclaration} {declared : List (String × List Fixture)}
    {e : String × List Fixture} (h : e ∈ (Steps.joinPhases policy declared).entries) : ∃ d ∈ declared, d.1 = e.1 := by
  obtain ⟨phase, games⟩ := e
  rw [KeyMap.mem_entries_iff, Steps.find?_joinPhases] at h
  have hne : (declared.filter fun d => d.1 = phase) ≠ [] := by
    intro hn
    rw [hn] at h
    cases h
  obtain ⟨d, hd⟩ := List.exists_mem_of_ne_nil _ hne
  obtain ⟨hd, hk⟩ := List.mem_filter.mp hd
  exact ⟨d, hd, of_decide_eq_true hk⟩

def gamesOf (phase : String) (entries : List (String × Fixture)) : List Fixture :=
  (entries.filter fun e => e.1 = phase).map Prod.snd

def tagged (d : String × List Fixture) : List (String × Fixture) := d.2.map fun game => (d.1, game)

theorem gamesOf_append (phase : String) (a b : List (String × Fixture)) :
    gamesOf phase (a ++ b) = gamesOf phase a ++ gamesOf phase b := by
  simp [gamesOf]

theorem gamesOf_tagged (phase : String) (d : String × List Fixture) :
    gamesOf phase (tagged d) = if phase = d.1 then d.2 else [] := by
  obtain ⟨key, games⟩ := d
  by_cases hp : phase = key
  · simp [gamesOf, tagged, hp, List.filter_map, Function.comp_def]
  · simp [gamesOf, tagged, hp, Ne.symm hp, List.filter_map, Function.comp_def]

theorem gamesOf_others (phase key : String) (entries : List (String × Fixture)) :
    gamesOf phase (entries.filter fun e => e.1 ≠ key) = if phase = key then [] else gamesOf phase entries := by
  split
  case isTrue h =>
    subst h
    simp [gamesOf]
  case isFalse h =>
    simp only [gamesOf, List.filter_filter]
    congr 2
    funext e
    by_cases he : e.1 = phase
    · simp [he, h]
    · simp [he]

theorem insertWith_entries (policy : Redeclaration) {m : KeyMap (List Fixture)} {entries : List (String × Fixture)}
    (hm : ∀ phase, (m.find? phase).getD [] = gamesOf phase entries) (d : String × List Fixture) :
    ∃ entries', entries'.Sublist (entries ++ tagged d) ∧ ∀ phase,
      ((m.insertWith (policy.combine (· ++ ·)) d.1 d.2).find? phase).getD [] = gamesOf phase entries' := by
  cases policy with
  | merge =>
    refine ⟨entries ++ tagged d, .refl _, fun phase => ?_⟩
    rw [KeyMap.find?_insertWith, gamesOf_append, gamesOf_tagged, ← hm phase]
    split
    case isTrue h =>
      subst h
      cases m.find? d.1 <;> rfl
    case isFalse => rw [List.append_nil]
  | lastWins =>
    refine ⟨(entries.filter fun e => e.1 ≠ d.1) ++ tagged d, List.filter_sublist.append (.refl _), fun phase => ?_⟩
    rw [KeyMap.find?_insertWith, gamesOf_append, gamesOf_tagged, gamesOf_others]
    split
    case isTrue h => cases m.find? d.1 <;> rfl
    case isFalse => rw [List.append_nil, hm]
  | keepFirst =>
    cases hd : m.find? d.1 with
    | some old =>
      refine ⟨entries, List.sublist_append_left _ _, fun phase => ?_⟩
      rw [KeyMap.find?_insertWith, ← hm phase]
      split
      case isTrue h =>
        rw [h, hd]
        rfl
      case isFalse => rfl
    | none =>
      refine ⟨entries ++ tagged d, .refl _, fun phase => ?_⟩
      rw [KeyMap.find?_insertWith, gamesOf_append, gamesOf_tagged, ← hm phase]
      split
      case isTrue h =>
        rw [h, hd]
        rfl
      case isFalse => rw [List.append_nil]

theorem joinPhases_entries (policy : Redeclaration) (declared : List (String × List Fixture)) :
    ∃ entries : List (String × Fixture), entries.Sublist (declared.flatMap tagged) ∧ ∀ phase,
      ((Steps.joinPhases policy declared).find? phase).getD [] = gamesOf phase entries := by
  have hfoldl (declared : List (String × List Fixture)) (m : KeyMap (List Fixture))
      (before : List (String × Fixture)) (hm : ∀ phase, (m.find? phase).getD [] = gamesOf phase before) :
      ∃ entries, entries.Sublist (before ++ declared.flatMap tagged) ∧ ∀ phase,
        ((declared.foldl (fun m e => m.insertWith (policy.combine (· ++ ·)) e.1 e.2) m).find? phase).getD [] =
          gamesOf phase entries := by
    induction declared generalizing m before with
    | nil => exact ⟨before, by simp, hm⟩
    | cons d declared ih =>
      obtain ⟨next, hs, hnext⟩ := insertWith_entries policy hm d
      obtain ⟨entries, hsub, hentries⟩ := ih _ next hnext
      refine ⟨entries, hsub.trans ?_, hentries⟩
      rw [List.flatMap_cons, ← List.append_assoc]
      exact hs.append (.refl _)
  exact hfoldl declared .empty [] fun phase => rfl

end Policies

section Assembly

variable (tokens : List Token)

theorem infos_in : ∀ m ∈ Steps.infos (Document.read tokens), ∀ e ∈ m.entries, HasPair tokens e := by
  intro m hm e he
  rw [Steps.infos_eq] at hm
  obtain ⟨d, hd, hdm⟩ := List.mem_filterMap.mp hm
  obtain ⟨stretch, hs, hin⟩ := (Document.spread_read tokens).exists_stretch hd
  cases d with
  | info keyword entries =>
    obtain rfl := Option.some.inj hdm
    exact (hin e he).mono hs
  | teams => cases hdm
  | phase => cases hdm

theorem spread_teams : Spread Team.Written tokens (Steps.teams (Document.read tokens)) := by
  rw [Steps.teams_eq]
  refine (Document.spread_read tokens).flatMap fun stretch d hd => ?_
  cases d with
  | teams ts => exact hd
  | info => exact .none _ _
  | phase => exact .none _ _

theorem spread_phases : Spread (fun stretch (e : String × List Fixture) => Spread Fixture.Written stretch e.2 ∧
    ∃ keyword ∈ stretch, Document.isPhaseKeyword keyword = true ∧ keyword.lexeme = e.1) tokens
      (Steps.phases (Document.read tokens)) := by
  rw [Steps.phases_eq]
  refine (Document.spread_read tokens).filterMap fun stretch d hd e he => ?_
  cases d with
  | phase keyword games =>
    obtain rfl := Option.some.inj he
    exact ⟨hd.2.2, keyword, hd.1, hd.2.1, rfl⟩
  | info => cases he
  | teams => cases he

theorem spread_games : Spread (fun stretch (e : String × Fixture) => e.2.Written stretch) tokens
    ((Steps.phases (Document.read tokens)).flatMap tagged) :=
  (spread_phases tokens).flatMap fun _ _ h => h.1.map fun _ _ hg => hg

variable {tokens} in
theorem phase_key_of_lexical (hl : Lexical tokens) {e : String × List Fixture}
    (he : e ∈ Steps.phases (Document.read tokens)) : e.1 ∈ ["cuartos", "semifinal", "final"] := by
  obtain ⟨stretch, hs, -, keyword, hk, hphase, hkey⟩ := (spread_phases tokens).exists_stretch he
  obtain ⟨p, hp⟩ := (Grammar.isPhaseKeyword_iff (hl keyword (hs.subset hk))).mp hphase
  rw [← hkey, Token.lexeme_of_isReserved hp]
  cases p <;> decide

end Assembly

theorem read_in_tokens (options : Options) (source : String) :
    (Source.read options source).tournament.In (scan source).tokens where
  info e he := by
    obtain ⟨m, hm, hmem⟩ := mem_joinInfos he
    exact infos_in _ m hm e hmem
  teams := (spread_teams _).portioned fun _ more _ h => h.append Team.In.mono more
  phases e he := by
    obtain ⟨d, hd, hk⟩ := exists_of_mem_joinPhases he
    rw [← hk]
    exact phase_key_of_lexical (scan_lexical source) hd
  games := by
    obtain ⟨entries, hs, hphases⟩ := joinPhases_entries options.redeclaration
      (Steps.phases (Document.read (scan source).tokens))
    refine ⟨entries, ?_, hphases⟩
    exact ((spread_games _).sublist hs).portioned fun _ more _ h => h.append Fixture.In.mono more

end Knockout
