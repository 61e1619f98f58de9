import Knockout.Proofs.KeyLookups
import Knockout.Proofs.PlainReading
import Knockout.Proofs.Stretches

namespace Knockout

def HasPair (tokens : List Token) (e : String × String) : Prop :=
  ∃ key colon value : Token, [key, colon, value] <:+: tokens ∧ key.isKey = true ∧ colon.kind = .colon ∧
    value.isValue = true ∧ key.lexeme = e.1 ∧ value.lexeme = e.2

def IsValueText (stretch : List Token) (text : String) : Prop :=
  ∃ t : Token, stretch = [t] ∧ t.isValue = true ∧ t.lexeme = text

def Labelled {α : Type} (V : Token → List Token → α → Prop) (stretch : List Token) (x : α) : Prop :=
  ∃ key colon rest, stretch = key :: colon :: rest ∧ key.isKey = true ∧ colon.kind = .colon ∧ V key rest x

structure Player.In (tokens : List Token) (p : Player) : Prop where
  name : [p.name].Sublist (namesIn tokens)
  attributes : ∀ e ∈ p.attributes.entries, HasPair tokens e

structure Team.In (tokens : List Token) (team : Team) : Prop where
  names : (team.name :: team.players.map Player.name).Sublist (namesIn tokens)
  attributes : ∀ p ∈ team.players, ∀ e ∈ p.attributes.entries, HasPair tokens e

structure Scorer.In (tokens : List Token) (s : Scorer) : Prop where
  name : [s.player].Sublist (namesIn tokens)
  minute : ∀ text ∈ s.minute, HasPair tokens ("minuto", text)

structure Fixture.In (tokens : List Token) (game : Fixture) : Prop where
  names : (game.home :: game.away :: game.scorers.map Scorer.player).Sublist (namesIn tokens)
  result : ∀ text ∈ game.result, HasPair tokens ("resultado", text)
  minutes : ∀ s ∈ game.scorers, ∀ text ∈ s.minute, HasPair tokens ("minuto", text)

def Begins (word : String) (line : UInt32) (inside : List Token → Prop) (stretch : List Token) : Prop :=
  ∃ keyword rest, stretch = keyword :: rest ∧ keyword.isReserved word = true ∧
    keyword.position.line = line ∧ inside rest

def Team.Written (stretch : List Token) (team : Team) : Prop := Begins "equipo" team.line team.In stretch

def Fixture.Written (stretch : List Token) (game : Fixture) : Prop := Begins "partido" game.line game.In stretch

theorem HasPair.mono {tokens whole : List Token} {e : String × String} (h : HasPair tokens e) (hs : tokens <:+: whole) :
    HasPair whole e := by
  obtain ⟨key, colon, value, hi, hp⟩ := h
  exact ⟨key, colon, value, hi.trans hs, hp⟩

theorem Labelled.hasPair {α : Type} {V : Token → List Token → α → Prop} {stretch : List Token} {x : α}
    {e : String × String} (h : Labelled V stretch x)
    (hv : ∀ key rest, V key rest x → key.lexeme = e.1 ∧ IsValueText rest e.2) : HasPair stretch e := by
  obtain ⟨key, colon, rest, rfl, hkey, hcolon, hx⟩ := h
  obtain ⟨hk, value, rfl, hvalue, hl⟩ := hv key rest hx
  exact ⟨key, colon, value, List.infix_rfl, hkey, hcolon, hvalue, hk, hl⟩

theorem Team.In.mono {tokens whole : List Token} {team : Team} (h : team.In tokens) (hs : tokens <:+: whole) :
    team.In whole where
  names := h.names.trans (namesIn_sublist hs.sublist)
  attributes p hp e he := (h.attributes p hp e he).mono hs

theorem Fixture.In.mono {tokens whole : List Token} {game : Fixture} (h : game.In tokens) (hs : tokens <:+: whole) :
    game.In whole where
  names := h.names.trans (namesIn_sublist hs.sublist)
  result text ht := (h.result text ht).mono hs
  minutes s hm text ht := (h.minutes s hm text ht).mono hs

section Infix

variable (keyword : Token) (start inside : List Token)

theorem isInfix_start : start <:+: keyword :: (start ++ inside) :=
  (List.prefix_append start inside).isInfix.trans (List.suffix_cons keyword _).isInfix

theorem isInfix_inside : inside <:+: keyword :: (start ++ inside) :=
  (List.suffix_append start inside).isInfix.trans (List.suffix_cons keyword _).isInfix

end Infix

theorem Begins.append {word : String} {line : UInt32} {inside : List Token → Prop} {stretch : List Token}
    (h : Begins word line inside stretch) (hmono : ∀ {tokens whole}, inside tokens → tokens <:+: whole → inside whole)
    (more : List Token) : Begins word line inside (stretch ++ more) := by
  obtain ⟨keyword, rest, rfl, hk, hl, hi⟩ := h
  exact ⟨keyword, rest ++ more, rfl, hk, hl, hmono hi (List.prefix_append rest more).isInfix⟩

namespace Document

open Reader

section Readers

variable {α β : Type} {P : List Token → α → Prop}

theorem draws_name (role : NameRole) :
    Draws (fun stretch o => o.toList.Sublist (namesIn stretch)) (name role) := by
  refine (draws_takeIf _).bind fun stretch o ho => ?_
  obtain ⟨rfl, hname⟩ := ho
  cases o with
  | none => exact (draws_any _).map fun _ _ _ => List.nil_sublist _
  | some t =>
    apply draws_pure
    simp [namesIn, hname t rfl]

theorem draws_value (fence : Fence) (accepts : Token → Bool) (key : Token) :
    Draws (fun stretch o => ∀ text ∈ o, ∃ t : Token, stretch = [t] ∧ accepts t = true ∧ t.lexeme = text)
      (value fence accepts key) := by
  refine (draws_takeIf _).bind fun stretch o ho => ?_
  obtain ⟨rfl, haccepts⟩ := ho
  cases o with
  | some t =>
    apply draws_pure
    rintro text ⟨⟩
    exact ⟨t, rfl, haccepts t rfl, rfl⟩
  | none =>
    refine (draws_any _).bind fun _ o _ => ?_
    cases o with
    | some t =>
      refine (draws_any _).map fun _ _ _ => ?_
      rintro text ⟨⟩
    | none =>
      refine (draws_any _).map fun _ _ _ => ?_
      rintro text ⟨⟩

theorem draws_list (fence : Fence) (context : Context) {item : Token → Option (Reader α)}
    (h : ∀ t reader, item t = some reader → Draws (fun stretch x => P (t :: stretch) x) reader) :
    Draws (Spread P) (list fence context item) := by
  rw [list]
  exact draws_items fun t rest reader ht => h t reader (item_of_listTurn_eq_enter ht)

theorem draws_keyword (fence : Fence) (context : Context) {word : String} {entry : Token → Reader α}
    (h : ∀ t, t.isReserved word = true → Draws (fun stretch x => P (t :: stretch) x) (entry t)) :
    Draws (Spread P) (list fence context fun t => if t.isReserved word then some (entry t) else none) := by
  refine draws_list fence context fun t reader hr => ?_
  split at hr
  case isTrue ht =>
    obtain rfl := Option.some.inj hr
    exact h t ht
  case isFalse => cases hr

theorem draws_pairs (fence : Fence) (context : Context) {valueOf : Token → Reader (Option α)}
    {V : Token → List Token → α → Prop}
    (h : ∀ key, Draws (fun stretch o => ∀ x ∈ o, V key stretch x) (valueOf key)) :
    Draws (Spread (Labelled V)) (pairs fence context valueOf) := by
  refine (draws_list (P := fun stretch (o : Option α) => ∀ x ∈ o, Labelled V stretch x) fence context ?_).map
    fun _ _ hs => hs.somes
  intro key reader hr
  split at hr
  case isFalse => cases hr
  case isTrue hkey =>
  obtain rfl := Option.some.inj hr
  refine (draws_takeIf _).bind fun stretch o ho => ?_
  obtain ⟨rfl, hcolon⟩ := ho
  cases o with
  | some colon =>
    refine (h key).mono fun rest o hv x hx => ⟨key, colon, rest, rfl, hkey, ?_, hv x hx⟩
    exact of_decide_eq_true (hcolon colon rfl)
  | none =>
    refine (draws_any _).bind fun _ _ _ => (draws_any _).map fun _ _ _ => ?_
    rintro x ⟨⟩

theorem draws_bracketed {content : Reader (List α)} (h : Draws (Spread P) content) :
    Draws (Spread P) (bracketed content) := by
  refine (draws_any (takeKind .openBracket)).bind fun stretch o _ => ?_
  split
  · exact h.mono fun more xs hs => hs.after stretch
  · exact draws_pure (.none P _)

theorem draws_named (keyword : Token) (role : NameRole) {content : Reader (List α)} (h : Draws (Spread P) content)
    {Q : List Token → β → Prop} {f : Option String → List α → β}
    (hf : ∀ before inside name xs, name.toList.Sublist (namesIn before) → Spread P inside xs →
      Q (before ++ inside) (f name xs)) :
    Draws Q (do
      colonAfter keyword
      let n ← name role
      let xs ← content
      pure (f n xs)) := by
  refine (draws_any (colonAfter keyword)).bind fun colon _ _ => (draws_name role).bind fun stretch n hn => ?_
  refine h.map fun inside xs hs => ?_
  rw [← List.append_assoc]
  refine hf _ _ _ _ ?_ hs
  rw [namesIn_append]
  exact hn.trans (List.sublist_append_right _ _)

end Readers

theorem draws_anyValue (fence : Fence) (key : Token) :
    Draws (fun stretch o => ∀ text ∈ o, IsValueText stretch text) (value fence Token.isValue key) :=
  draws_value fence Token.isValue key

theorem draws_labelledPairs (fence : Fence) (context : Context) :
    Draws (Spread HasPair) (pairs fence context (labelled fence)) := by
  refine (draws_pairs fence context (V := fun key stretch e => key.lexeme = e.1 ∧ IsValueText stretch e.2)
    fun key => ?_).mono fun _ _ hs => hs.mono fun _ _ hl => hl.hasPair fun _ _ => id
  refine (draws_anyValue fence key).map fun stretch o ho e he => ?_
  obtain ⟨text, rfl, rfl⟩ := Option.map_eq_some_iff.mp he
  exact ⟨rfl, ho text rfl⟩

theorem draws_player (keyword : Token) :
    Draws (fun stretch o => ∀ p ∈ o, p.In (keyword :: stretch)) (player keyword) := by
  refine draws_named keyword .player (draws_bracketed (draws_labelledPairs .bracket .player)) ?_
  intro start inside name attributes hn ha p hp
  obtain ⟨text, rfl, rfl⟩ := Option.map_eq_some_iff.mp hp
  constructor
  · exact hn.trans (namesIn_sublist (isInfix_start keyword start inside).sublist)
  · intro e he
    obtain ⟨stretch, hs, hpair⟩ := ha.exists_stretch (KeyMap.mem_of_mem_ofList he)
    exact hpair.mono (hs.trans (isInfix_inside keyword start inside))

theorem draws_team {keyword : Token} (hk : keyword.isReserved "equipo" = true) :
    Draws (fun stretch o => ∀ t ∈ o, Team.Written (keyword :: stretch) t) (team keyword) := by
  refine draws_named keyword .team (draws_bracketed (draws_keyword
    (P := fun stretch (o : Option Player) => ∀ p ∈ o, p.In stretch) .bracket .roster fun t _ => draws_player t)) ?_
  intro start inside name players hn hp t ht
  obtain ⟨text, rfl, rfl⟩ := Option.map_eq_some_iff.mp ht
  have hplayers := hp.somes
  refine ⟨keyword, start ++ inside, rfl, hk, rfl, ?_, ?_⟩
  · have hnames := hplayers.names_sublist (f := fun p => [p.name]) fun _ _ h => h.name
    rw [← List.map_eq_flatMap] at hnames
    rw [namesIn_append]
    exact hn.append hnames
  · intro p hp e he
    obtain ⟨stretch, hs, hin⟩ := hplayers.exists_stretch hp
    exact (hin.attributes e he).mono (hs.trans (List.suffix_append start inside).isInfix)

theorem draws_minute (key : Token) :
    Draws (fun stretch o => ∀ text ∈ o, key.lexeme = "minuto" ∧ IsValueText stretch text) (minute key) := by
  unfold minute
  split
  case isTrue hk => exact (draws_anyValue .bracket key).mono fun _ _ hv text ht => ⟨hk, hv text ht⟩
  case isFalse =>
    refine (draws_any _).bind fun _ _ _ => (draws_any _).map fun _ _ _ => ?_
    rintro text ⟨⟩

theorem draws_scorer (keyword : Token) :
    Draws (fun stretch o => ∀ s ∈ o, s.In (keyword :: stretch)) (scorer keyword) := by
  refine draws_named keyword .scorer (draws_bracketed (draws_pairs .bracket .scorer draws_minute)) ?_
  intro start inside name minutes hn hm s hs
  obtain ⟨text, rfl, rfl⟩ := Option.map_eq_some_iff.mp hs
  constructor
  · exact hn.trans (namesIn_sublist (isInfix_start keyword start inside).sublist)
  · intro text ht
    obtain ⟨stretch, hi, hl⟩ := hm.exists_stretch (List.mem_of_getLast? ht)
    have hpair : HasPair stretch ("minuto", text) := hl.hasPair fun _ _ => id
    exact hpair.mono (hi.trans (isInfix_inside keyword start inside))

theorem scorer_in_of_name {t : Token} (h : t.isName = true) : Scorer.In [t] ⟨t.lexeme, none⟩ where
  name := by simp [namesIn, h]
  minute := by rintro text ⟨⟩

theorem draws_scorerItem {t : Token} {reader : Reader (Option Scorer)} (h : scorerItem t = some reader) :
    Draws (fun stretch o => ∀ s ∈ o, s.In (t :: stretch)) reader := by
  unfold scorerItem at h
  split at h
  case isTrue =>
    obtain rfl := Option.some.inj h
    exact draws_scorer t
  case isFalse =>
  split at h
  case isTrue hname =>
    obtain rfl := Option.some.inj h
    apply draws_pure
    rintro s ⟨⟩
    exact scorer_in_of_name hname
  case isFalse => cases h

theorem draws_scorers (key : Token) : Draws (Spread Scorer.In) (scorers key) := by
  refine (draws_any (takeKind .openBracket)).bind fun stretch o _ => ?_
  split
  · refine (draws_list (P := fun stretch (o : Option Scorer) => ∀ s ∈ o, s.In stretch) .bracket .scorers
      fun t reader => draws_scorerItem).map fun more os hs => ?_
    exact hs.somes.after stretch
  · refine (draws_value .bracket Token.isName key).map fun more o ho => ?_
    cases o with
    | none => exact .none _ _
    | some text =>
      obtain ⟨t, rfl, hname, rfl⟩ := ho text rfl
      exact (Spread.single (scorer_in_of_name hname)).after stretch

def FixtureAttribute.In (key : Token) (stretch : List Token) : FixtureAttribute → Prop
  | .result text => key.lexeme = "resultado" ∧ IsValueText stretch text
  | .scorers l => Spread Scorer.In stretch l

theorem draws_fixtureAttribute (key : Token) :
    Draws (fun stretch o => ∀ a ∈ o, FixtureAttribute.In key stretch a) (fixtureAttribute key) := by
  unfold fixtureAttribute
  split
  case isTrue hk =>
    refine (draws_anyValue .bracket key).map fun stretch o ho a ha => ?_
    obtain ⟨text, rfl, rfl⟩ := Option.map_eq_some_iff.mp ha
    exact ⟨hk, ho text rfl⟩
  case isFalse =>
  split
  case isTrue =>
    refine (draws_scorers key).map fun stretch l hs => ?_
    rintro a ⟨⟩
    exact hs
  case isFalse =>
    refine (draws_any _).bind fun _ _ _ => (draws_any _).map fun _ _ _ => ?_
    rintro a ⟨⟩

section Attributes

variable {inside : List Token} {attributes : List FixtureAttribute}

theorem spread_scorers (h : Spread (Labelled FixtureAttribute.In) inside attributes) :
    Spread Scorer.In inside (attributes.flatMap FixtureAttribute.scorerList) := by
  refine h.flatMap fun stretch x => ?_
  rintro ⟨key, colon, rest, rfl, -, -, hv⟩
  cases x with
  | result => exact .none _ _
  | scorers => exact hv.after [key, colon]

theorem result_hasPair (h : Spread (Labelled FixtureAttribute.In) inside attributes) {text : String}
    (ht : text ∈ (attributes.filterMap FixtureAttribute.result?).getLast?) : HasPair inside ("resultado", text) := by
  obtain ⟨x, hm, hr⟩ := List.mem_filterMap.mp (List.mem_of_getLast? ht)
  obtain ⟨stretch, hs, hl⟩ := h.exists_stretch hm
  cases x with
  | scorers => cases hr
  | result found =>
    obtain rfl := Option.some.inj hr
    have hpair : HasPair stretch ("resultado", found) := hl.hasPair fun _ _ => id
    exact hpair.mono hs

end Attributes

theorem draws_fixture {keyword : Token} (hk : keyword.isReserved "partido" = true) :
    Draws (fun stretch o => ∀ game ∈ o, Fixture.Written (keyword :: stretch) game) (fixture keyword) := by
  refine (draws_any (colonAfter keyword)).bind fun colon _ _ => ?_
  refine (draws_name .firstTeam).bind fun first home hhome => ?_
  refine (draws_any (takeKind .versus)).bind fun versus _ _ => ?_
  refine (draws_name .secondTeam).bind fun second away haway => ?_
  refine (draws_bracketed (draws_pairs .bracket .fixture draws_fixtureAttribute)).map fun inside attributes ha => ?_
  intro game hg
  obtain ⟨h, rfl, hg⟩ := Option.bind_eq_some_iff.mp hg
  obtain ⟨a, rfl, rfl⟩ := Option.map_eq_some_iff.mp hg
  have hinside : inside <:+: colon ++ (first ++ (versus ++ (second ++ inside))) := by
    simp only [← List.append_assoc]
    exact (List.suffix_append _ inside).isInfix
  have hscorers := spread_scorers ha
  refine ⟨keyword, _, rfl, hk, rfl, ?_, ?_, ?_⟩
  · have hnames := hscorers.names_sublist (f := fun s => [s.player]) fun _ _ h => h.name
    rw [← List.map_eq_flatMap] at hnames
    simp only [namesIn_append]
    refine List.Sublist.trans ?_ (List.sublist_append_right _ _)
    refine hhome.append (List.Sublist.trans ?_ (List.sublist_append_right _ _))
    exact haway.append hnames
  · exact fun text ht => (result_hasPair ha ht).mono hinside
  · intro s hm text ht
    obtain ⟨stretch, hs, hin⟩ := hscorers.exists_stretch hm
    exact (hin.minute text ht).mono (hs.trans hinside)

theorem draws_fixtures (keyword : Token) :
    Draws (Spread Fixture.Written) (fixtures keyword) := by
  refine (draws_any (colonAfter keyword)).bind fun colon _ _ => ?_
  refine (draws_any (phaseFence keyword)).bind fun opening fence _ => ?_
  refine (draws_items (P := fun stretch (o : Option Fixture) => ∀ game ∈ o, Fixture.Written stretch game) ?_).map
    fun stretch os hs => (hs.somes.after opening).after colon
  intro t rest reader ht
  obtain ⟨hp, rfl⟩ := phaseTurn_eq_enter_iff.mp ht
  exact draws_fixture hp

end Document

end Knockout
