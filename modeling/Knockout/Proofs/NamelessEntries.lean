import Knockout.Proofs.MissingNames

namespace Knockout

namespace Grammar

open Reader Document

variable {α β γ : Type} {deleted : Token → Bool} {tokens ts rest : List Token}

theorem misses_name (role : NameRole) (h : ∀ t ∈ tokens.head?, t.isName = false) :
    (name role).Misses tokens none [] 1 tokens := by
  have hrun : (name role).run tokens = ⟨none, [.report (.missingName role) tokens.head?], tokens⟩ := by
    simp [name, run_takeIf_rejected h, report]
  exact ⟨by rw [hrun], by rw [hrun], by rw [hrun]; rfl, [role], rfl, by rw [hrun]; rfl⟩

theorem name_spared (role : NameRole) {t : Token} (ht : t.isName = true)
    (h : deleted t = true → ∀ u ∈ tokens.head?, u.isName = false) :
    (name role).Misses (spared deleted [t] ++ tokens) (if deleted t then none else some t.lexeme) []
      ([t].countP deleted) tokens := by
  by_cases hd : deleted t = true
  · simpa [spared, hd] using misses_name role (h hd)
  · simpa [spared, hd] using ((name_takesOne role).accepts ht tokens).misses

theorem misses_named {keyword colon t : Token} {role : NameRole} {content : Reader (List α)} {xs : List α} {n : Nat}
    (f : List α → String → γ) (hc : colon.kind = .colon) (ht : t.isName = true)
    (hcontent : content.Misses ts xs [] n rest) (h : ∀ u ∈ ts.head?, u.isName = false) :
    Misses (do
      colonAfter keyword
      let n ← name role
      let xs ← content
      pure (n.map (f xs))) (colon :: (spared deleted [t] ++ ts)) (if deleted t then none else some (f xs t.lexeme)) []
        ([t].countP deleted + n) rest := by
  have hvalue : (if deleted t then none else some t.lexeme).map (f xs) =
      if deleted t then none else some (f xs t.lexeme) := by
    split <;> rfl
  have hnamed := (name_spared role ht fun _ => h).bind (f := fun n => content >>= fun xs => pure (n.map (f xs)))
    (hcontent.map fun xs => (if deleted t then none else some t.lexeme).map (f xs))
  rw [hvalue] at hnamed
  exact ((colonAfter_takesOne keyword).accepts hc _).bind_misses hnamed

section Lists

variable {turn : Token → List Token → Turn α} {entry : List Token → β → Prop} {names : β → List Token} {value : β → α}
  {declared : β → List Declaration} {ys : List β}

theorem Enclosed.misses {fence : Fence} (hr : Recovers deleted turn fence.closer entry names value declared)
    (unfinished : Option Cause) (hl : Lexical ts) (h : Enclosed fence (Entries entry) ts ys)
    (hd : Deletes deleted ts (ys.flatMap names)) : ∃ l body, spared deleted ts = l :: body ∧ l.kind = fence.opener ∧
      ∀ rest, (items turn unfinished).Misses (body ++ rest) (ys.map value) (ys.flatMap declared)
        ((ys.flatMap names).countP deleted) rest := by
  obtain ⟨hopen, hb, hclose⟩ := h
  have hs := hb.names_sublist hr.sublist
  obtain ⟨hopened, hd⟩ := hd.kept (hs.trans (List.sublist_append_left _ _))
  rw [← List.append_nil (ys.flatMap names)] at hd
  obtain ⟨hbody, hr'⟩ := hd.split hs (List.nil_sublist _)
  refine ⟨_, _, spared_cons hopened _, hopen, fun rest => ?_⟩
  have hitems := hr.items unfinished hclose (Fence.isInert_closer hclose) rest
    (lexical_append.mp (lexical_cons.mp hl).2).1 hb hbody
  rw [spared_append, hr'.spared_eq, List.append_assoc]
  exact hitems

theorem bracketed_misses (hr : Recovers deleted turn Fence.bracket.closer entry names value fun _ => [])
    (unfinished : Option Cause) (hl : Lexical ts)
    (h : Optionally (Enclosed .bracket (Entries entry)) ts ys) (hd : Deletes deleted ts (ys.flatMap names))
    (hrest : Delimited rest) :
    (bracketed (items turn unfinished)).Misses (spared deleted ts ++ rest) (ys.map value) []
        ((ys.flatMap names).countP deleted) rest ∧
      ∀ u ∈ (spared deleted ts ++ rest).head?, u.isName = false := by
  cases h with
  | absent =>
    have hnone := (accepts_takeKind_rejected hrest.unopened).bind_misses
      (f := fun o => if o.isSome = true then items turn unfinished else pure [])
      (accepts_pure.mpr ⟨rfl, rfl, rfl⟩).misses
    exact ⟨hnone, fun u hu => (hrest u hu).isName⟩
  | present he =>
    obtain ⟨l, body, hs, hopen, hitems⟩ := he.misses hr unfinished hl hd
    have hk : l.kind = .openBracket := hopen
    rw [hs]
    refine ⟨(accepts_takeKind hk _).bind_misses ?_, ?_⟩
    · have hnil : ys.flatMap (fun _ => ([] : List Declaration)) = [] := by simp
      have hcontent := hitems rest
      rwa [hnil] at hcontent
    · rintro _ ⟨⟩
      simp [Token.isName, hk]

theorem recovers_list {fence : Fence} {context : Context} {item : Token → Option (Reader α)}
    (hbegins : ∀ ts y, entry ts y → ∃ t tail, ts = t :: tail ∧ t.kind = .reserved ∧ (names y).Sublist tail)
    (hitem : ∀ t tail rest y, entry (t :: tail) y → Lexical (t :: tail) → Deletes deleted tail (names y) →
      Delimited rest → startsBlock t (spared deleted tail ++ rest) = false ∧ ∃ reader, item t = some reader ∧
        reader.Misses (spared deleted tail ++ rest) (value y) (declared y) ((names y).countP deleted) rest) :
    Recovers deleted (listTurn fence context item) fence.closer entry names value declared where
  finish _ := listTurn_eq_finish_iff.mpr
  pass _ := listTurn_eq_pass_iff.mpr
  begins := hbegins _ _
  item := by
    intro t tail rest y hy hl hd hrest
    obtain ⟨hs, reader, hi, hm⟩ := hitem t tail rest y hy hl hd hrest
    obtain ⟨_, _, ⟨⟩, hk, -⟩ := hbegins _ _ hy
    refine ⟨reader, listTurn_of_item hi ⟨?_, ?_⟩ hs, hm⟩
    · rw [hk]
      exact fence.closer_ne_reserved.symm
    · rw [hk]
      decide

theorem recovers_keyword_list {fence : Fence} {context : Context} {word : String} {reader : Token → Reader α}
    (hword : word ≠ "torneo" ∧ word ≠ "equipos" ∧ word ≠ "eliminacion")
    (hbegins : ∀ ts y, entry ts y → ∃ t tail, ts = t :: tail ∧ t.isReserved word = true ∧ (names y).Sublist tail)
    (hitem : ∀ t tail rest y, entry (t :: tail) y → Lexical (t :: tail) → Deletes deleted tail (names y) →
      Delimited rest →
        (reader t).Misses (spared deleted tail ++ rest) (value y) (declared y) ((names y).countP deleted) rest) :
    Recovers deleted (listTurn fence context fun t => if t.isReserved word then some (reader t) else none) fence.closer
      entry names value declared := by
  apply recovers_list
  · intro ts y hy
    obtain ⟨t, tail, rfl, hk, hs⟩ := hbegins ts y hy
    exact ⟨t, tail, rfl, Token.kind_of_isReserved hk, hs⟩
  · intro t tail rest y hy hl hd hrest
    obtain ⟨_, _, ⟨⟩, hk, -⟩ := hbegins _ _ hy
    refine ⟨startsBlock_eq_false (Token.isBlockKeyword_eq_false hk hword) _, _, if_pos hk, ?_⟩
    exact hitem t tail rest y hy hl hd hrest

end Lists

theorem Optionally.head {content : List Token → List α → Prop} {xs : List α}
    (h : Optionally (Enclosed .bracket content) ts xs) (hrest : Delimited rest) :
    ∀ u ∈ (ts ++ rest).head?, u.isName = false ∧ u.kind ≠ .versus := by
  cases h with
  | absent => exact fun u hu => ⟨(hrest u hu).isName, (hrest u hu).ne (by decide)⟩
  | present he =>
    obtain ⟨hl, -, -⟩ := he
    rintro _ ⟨⟩
    rw [Token.isName, hl]
    decide

section Named

variable {keyword colon t : Token}

theorem spared_first (t : Token) (ts : List Token) :
    spared deleted (t :: ts) = spared deleted [t] ++ spared deleted ts :=
  spared_append [t] ts

theorem spared_entry (hc : deleted colon = false) (t : Token) (ts : List Token) :
    spared deleted (colon :: t :: ts) ++ rest = colon :: (spared deleted [t] ++ (spared deleted ts ++ rest)) := by
  rw [spared_cons hc, ← List.append_assoc, ← spared_append]
  rfl

theorem countP_first (deleted : Token → Bool) (t : Token) (ts : List Token) :
    (t :: ts).countP deleted = [t].countP deleted + ts.countP deleted := by
  rw [← List.countP_append]
  rfl

theorem player_misses {pairs : List (Token × Token)} (hc : colon.kind = .colon) (ht : t.isName = true)
    (hl : Lexical ts) (hts : Optionally (Enclosed .bracket (Entries Pair)) ts pairs)
    (hd : Deletes deleted (colon :: t :: ts) [t]) (hrest : Delimited rest) :
    (player keyword).Misses (spared deleted (colon :: t :: ts) ++ rest)
      (if deleted t then none else some ⟨t.lexeme, .ofList (pairs.map fun p => (p.1.lexeme, p.2.lexeme))⟩) []
      ([t].countP deleted) rest := by
  obtain ⟨hcolon, hd⟩ := hd.kept ((List.nil_sublist _).cons_cons _)
  have hattributes := (attributes_reads .player).complete hl hts hrest.unopened
  rw [spared_entry hcolon, (hd.named (List.nil_sublist _)).spared_eq]
  exact misses_named (fun xs n => (⟨n, .ofList xs⟩ : Player)) hc ht hattributes.misses fun u hu =>
    (hts.head hrest u hu).1

theorem recovers_roster : Recovers deleted
    (listTurn .bracket .roster fun t => if t.isReserved "jugador" then some (player t) else none)
    Fence.bracket.closer OutlinesPlayer (fun p => [p.name]) (PlayerOutline.without deleted) fun _ => [] := by
  refine recovers_keyword_list (by decide) ?_ ?_
  · rintro _ _ ⟨⟨hk, -⟩⟩
    exact ⟨_, _, rfl, hk, ((List.nil_sublist _).cons_cons _).cons _⟩
  · rintro _ _ rest _ ⟨⟨-, hc, hn, hts, hm⟩⟩ hl hd hrest
    obtain rfl := collects_iff.mp hm
    simp only [lexical_cons] at hl
    exact player_misses hc hn hl.2.2.2 hts hd hrest

theorem team_misses {players : List PlayerOutline} (hc : colon.kind = .colon) (ht : t.isName = true) (hl : Lexical ts)
    (hts : Optionally (Enclosed .bracket (Entries OutlinesPlayer)) ts players)
    (hd : Deletes deleted (colon :: t :: ts) (t :: players.map PlayerOutline.name)) (hrest : Delimited rest) :
    (team keyword).Misses (spared deleted (colon :: t :: ts) ++ rest)
      (TeamOutline.without deleted ⟨t, players, keyword.position.line⟩) []
      ((t :: players.map PlayerOutline.name).countP deleted) rest := by
  obtain ⟨hcolon, hd⟩ := hd.kept (hts.players_sublist.cons_cons _)
  have hnames : players.map PlayerOutline.name = players.flatMap fun p => [p.name] := List.map_eq_flatMap
  have hplayers := hd.named hts.players_sublist
  rw [hnames] at hplayers
  obtain ⟨hroster, hhead⟩ := bracketed_misses recovers_roster (some (.unclosedList .bracket .roster)) hl hts hplayers
    hrest
  have hvalue : TeamOutline.without deleted ⟨t, players, keyword.position.line⟩ = if deleted t then none else
      some ⟨t.lexeme, (players.map (PlayerOutline.without deleted)).filterMap id, keyword.position.line⟩ := by
    rw [TeamOutline.without, List.filterMap_map]
    rfl
  rw [spared_entry hcolon, hvalue, countP_first, hnames]
  exact misses_named (fun xs n => (⟨n, xs.filterMap id, keyword.position.line⟩ : Team)) hc ht hroster hhead

theorem recovers_teams : Recovers deleted
    (listTurn .brace .teams fun t => if t.isReserved "equipo" then some (team t) else none)
    Fence.brace.closer OutlinesTeam TeamOutline.names (TeamOutline.without deleted) fun _ => [] := by
  refine recovers_keyword_list (by decide) ?_ ?_
  · rintro _ _ ⟨hk, -, -, hts⟩
    exact ⟨_, _, rfl, hk, (hts.players_sublist.cons_cons _).cons _⟩
  · rintro keyword _ rest _ ⟨-, hc, hn, hts⟩ hl hd hrest
    simp only [lexical_cons] at hl
    exact team_misses hc hn hl.2.2.2 hts hd hrest

end Named

section Fixture

variable {keyword colon home away : Token} {marker : List Token} {attributes : List (Option FixtureAttribute)}

theorem optional_accepts {kind : TokenKind} (hm : AtMostOne kind marker) (h : ∀ t ∈ tokens.head?, t.kind ≠ kind) :
    ∃ o, (takeKind kind).Accepts (marker ++ tokens) o [] tokens := by
  cases hm with
  | none => exact ⟨none, accepts_takeKind_rejected h⟩
  | one hk => exact ⟨_, accepts_takeKind hk tokens⟩

theorem fixtureEnd_accepts (first second : Option String) (hl : Lexical ts)
    (hts : Optionally (Enclosed .bracket (Entries AttributeEntry)) ts attributes) (hrest : Delimited rest) :
    (fixtureEnd keyword first second).Accepts (ts ++ rest)
      (first.bind fun first => second.map fun second =>
        ⟨first, second, lastResult? attributes, allScorers attributes, keyword.position.line⟩) [] rest := by
  have hpairs : Reads (pairs .bracket .fixture fixtureAttribute) _ _ _ :=
    pairs_reads id AttributeEntry.keyed fun key colon hl hk hc => fixtureAttribute_reads hl hk hc
  have hattributes := (bracketed_reads hpairs rfl).complete hl hts hrest.unopened
  rw [lastResult?_eq, allScorers_eq]
  exact accepts_bind.mpr ⟨_, _, _, _, hattributes, accepts_pure.mpr ⟨rfl, rfl, rfl⟩, rfl⟩

theorem fixtureAway_misses (first : Option String) (ha : away.isName = true) (hl : Lexical ts)
    (hts : Optionally (Enclosed .bracket (Entries AttributeEntry)) ts attributes) (hrest : Delimited rest) :
    (fixtureAway keyword first).Misses (spared deleted [away] ++ (ts ++ rest))
      (first.bind fun first => (if deleted away then none else some away.lexeme).map fun second =>
        ⟨first, second, lastResult? attributes, allScorers attributes, keyword.position.line⟩) []
      ([away].countP deleted) rest :=
  (name_spared .secondTeam ha fun _ u hu => (hts.head hrest u hu).1).bind
    (fixtureEnd_accepts first _ hl hts hrest).misses

theorem fixture_misses_first (keyword : Token) (ha : away.isName = true) (hl : Lexical ts)
    (hts : Optionally (Enclosed .bracket (Entries AttributeEntry)) ts attributes) (hrest : Delimited rest) :
    (name .firstTeam >>= fun first => takeKind .versus >>= fun _ => fixtureAway keyword first).Misses
      (away :: (ts ++ rest)) none [] 1 rest := by
  have hfirst := (name_takesOne .firstTeam).accepts ha (ts ++ rest)
  have hversus := accepts_takeKind_rejected fun u hu => (hts.head hrest u hu).2
  have hsecond := misses_name .secondTeam fun u hu => (hts.head hrest u hu).1
  exact hfirst.bind_misses (hversus.bind_misses (hsecond.bind (fixtureEnd_accepts _ none hl hts hrest).misses))

theorem head_spared_away (deleted : Token → Bool) (ha : away.isName = true)
    (hts : Optionally (Enclosed .bracket (Entries AttributeEntry)) ts attributes) (hrest : Delimited rest) :
    ∀ u ∈ (spared deleted [away] ++ (ts ++ rest)).head?,
      u.kind ≠ .versus ∧ (deleted away = true → u.isName = false) := by
  by_cases hd : deleted away = true
  · intro u hu
    rw [spared, List.filter_cons_of_neg (by simp [hd]), List.filter_nil, List.nil_append] at hu
    exact ⟨(hts.head hrest u hu).2, fun _ => (hts.head hrest u hu).1⟩
  · intro u hu
    rw [spared_cons (by simpa using hd)] at hu
    cases hu
    refine ⟨fun hk => ?_, fun h => absurd h hd⟩
    simp [Token.isName, hk] at ha

theorem without_of_sides (deleted : Token → Bool) (home away : Token) (build : String → String → Fixture) :
    FixtureOutline.without deleted ⟨home, away, build home.lexeme away.lexeme⟩ =
      (if deleted home then none else some home.lexeme).bind fun first =>
        (if deleted away then none else some away.lexeme).map fun second => build first second := by
  unfold FixtureOutline.without
  by_cases hhome : deleted home = true
  · simp [hhome]
  · by_cases haway : deleted away = true <;> simp [hhome, haway]

theorem fixture_misses (hc : colon.kind = .colon) (hh : home.isName = true) (hm : AtMostOne .versus marker)
    (ha : away.isName = true) (hl : Lexical ts)
    (hts : Optionally (Enclosed .bracket (Entries AttributeEntry)) ts attributes)
    (hd : Deletes deleted (colon :: home :: (marker ++ away :: ts)) [home, away]) (hrest : Delimited rest) :
    (fixture keyword).Misses (spared deleted (colon :: home :: (marker ++ away :: ts)) ++ rest)
      (FixtureOutline.without deleted ⟨home, away, home.lexeme, away.lexeme, lastResult? attributes,
        allScorers attributes, keyword.position.line⟩) []
      ([home, away].countP deleted) rest := by
  have hsublist : [away].Sublist (marker ++ away :: ts) :=
    ((List.nil_sublist _).cons_cons _).trans (List.sublist_append_right _ _)
  obtain ⟨hcolon, hd⟩ := hd.kept (hsublist.cons_cons _)
  obtain ⟨hmarker, hd⟩ := (hd.named hsublist).split (m := []) (List.nil_sublist _) ((List.nil_sublist _).cons_cons _)
  have htokens : spared deleted (colon :: home :: (marker ++ away :: ts)) ++ rest =
      colon :: (spared deleted [home] ++ (marker ++ (spared deleted [away] ++ (ts ++ rest)))) := by
    rw [spared_entry hcolon, spared_append, hmarker.spared_eq, spared_first away,
      (hd.named (List.nil_sublist _)).spared_eq, List.append_assoc, List.append_assoc]
  rw [htokens, fixture_eq]
  refine ((colonAfter_takesOne keyword).accepts hc _).bind_misses ?_
  by_cases hbare : deleted home = true ∧ marker = [] ∧ deleted away = false
  · obtain ⟨hhome, rfl, haway⟩ := hbare
    have hfirst := fixture_misses_first keyword ha hl hts hrest
    simpa [FixtureOutline.without, spared, hhome, haway] using hfirst
  · have hhead := head_spared_away deleted ha hts hrest
    obtain ⟨o, hversus⟩ := optional_accepts hm fun u hu => (hhead u hu).1
    have hhome : deleted home = true →
        ∀ u ∈ (marker ++ (spared deleted [away] ++ (ts ++ rest))).head?, u.isName = false := by
      intro hhome u hu
      cases hm with
      | none => exact (hhead u hu).2 (by simpa [hhome] using hbare)
      | one hk =>
        cases hu
        simp [Token.isName, hk]
    have hvalue := without_of_sides deleted home away fun first second =>
      ⟨first, second, lastResult? attributes, allScorers attributes, keyword.position.line⟩
    rw [hvalue, countP_first]
    exact (name_spared .firstTeam hh hhome).bind (hversus.bind_misses (fixtureAway_misses _ ha hl hts hrest))

end Fixture

end Grammar

end Knockout
