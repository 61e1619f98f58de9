import Knockout.Assembly
import Knockout.Proofs.Grammar

namespace Knockout

structure PlayerOutline where
  name : Token
  player : Player

structure TeamOutline where
  name : Token
  players : List PlayerOutline
  line : UInt32

structure FixtureOutline where
  home : Token
  away : Token
  fixture : Fixture

/-- What a part of a document declares, with the tokens of the names in it. -/
inductive Outline where
  | info (keyword : Token) (entries : KeyMap String)
  | teams (teams : List TeamOutline)
  | phase (keyword : Token) (fixtures : List FixtureOutline)

namespace TeamOutline

def team (t : TeamOutline) : Team := ⟨t.name.lexeme, t.players.map PlayerOutline.player, t.line⟩

def names (t : TeamOutline) : List Token := t.name :: t.players.map PlayerOutline.name

end TeamOutline

def FixtureOutline.names (f : FixtureOutline) : List Token := [f.home, f.away]

namespace Outline

def declaration : Outline → Declaration
  | info keyword entries => .info keyword entries
  | teams ts => .teams (ts.map TeamOutline.team)
  | phase keyword fixtures => .phase keyword (fixtures.map FixtureOutline.fixture)

def names : Outline → List Token
  | info .. => []
  | teams ts => ts.flatMap TeamOutline.names
  | phase _ fixtures => fixtures.flatMap FixtureOutline.names

end Outline

section Without

variable (deleted : Token → Bool)

def PlayerOutline.without (p : PlayerOutline) : Option Player :=
  if deleted p.name then none else some p.player

def TeamOutline.without (t : TeamOutline) : Option Team :=
  if deleted t.name then none
  else some ⟨t.name.lexeme, t.players.filterMap (PlayerOutline.without deleted), t.line⟩

def FixtureOutline.without (f : FixtureOutline) : Option Fixture :=
  if deleted f.home || deleted f.away then none else some f.fixture

def Outline.without : Outline → Declaration
  | info keyword entries => .info keyword entries
  | teams ts => .teams (ts.filterMap (TeamOutline.without deleted))
  | phase keyword fixtures => .phase keyword (fixtures.filterMap (FixtureOutline.without deleted))

end Without

theorem Outline.without_none (o : Outline) : o.without (fun _ => false) = o.declaration := by
  have hplayers (ps : List PlayerOutline) :
      ps.filterMap (PlayerOutline.without fun _ => false) = ps.map PlayerOutline.player :=
    congrFun List.filterMap_eq_map ps
  have hteam (t : TeamOutline) : t.without (fun _ => false) = some t.team :=
    congrArg (fun players => some (⟨t.name.lexeme, players, t.line⟩ : Team)) (hplayers t.players)
  cases o with
  | info => rfl
  | teams ts =>
    rw [without, declaration, funext hteam]
    exact congrArg _ (congrFun List.filterMap_eq_map ts)
  | phase keyword fixtures => exact congrArg _ (congrFun List.filterMap_eq_map fixtures)

namespace Grammar

variable {α β : Type}

inductive OutlinesPlayer : List Token → PlayerOutline → Prop
  | mk {keyword colon name : Token} {ts : List Token} {p : Player} :
    PlayerEntry (keyword :: colon :: name :: ts) p → OutlinesPlayer (keyword :: colon :: name :: ts) ⟨name, p⟩

inductive OutlinesTeam : List Token → TeamOutline → Prop
  | mk {keyword colon name : Token} {ts : List Token} {players : List PlayerOutline} :
    keyword.isReserved "equipo" = true → colon.kind = .colon → name.isName = true →
    Optionally (Enclosed .bracket (Entries OutlinesPlayer)) ts players →
    OutlinesTeam (keyword :: colon :: name :: ts) ⟨name, players, keyword.position.line⟩

inductive OutlinesFixture : List Token → FixtureOutline → Prop
  | mk {keyword colon home away : Token} {marker ts : List Token}
    {attributes : List (Option Document.FixtureAttribute)} :
    keyword.isReserved "partido" = true → colon.kind = .colon → home.isName = true → AtMostOne .versus marker →
    away.isName = true → Optionally (Enclosed .bracket (Entries AttributeEntry)) ts attributes →
    OutlinesFixture (keyword :: colon :: home :: (marker ++ away :: ts))
      ⟨home, away, home.lexeme, away.lexeme, lastResult? attributes, allScorers attributes, keyword.position.line⟩

inductive OutlinesPhase : List Token → Outline → Prop
  | mk {keyword colon : Token} {phase : Phase} {fence : Fence} {ts : List Token} {fixtures : List FixtureOutline} :
    keyword.isReserved phase.key = true → colon.kind = .colon →
    Enclosed fence (Entries OutlinesFixture) ts fixtures →
    OutlinesPhase (keyword :: colon :: ts) (.phase keyword fixtures)

inductive OutlinesBlock : List Token → List Outline → Prop
  | info {keyword : Token} {ts : List Token} {entries : KeyMap String} :
    keyword.isReserved "torneo" = true → Block (keyword :: ts) [.info keyword entries] →
    OutlinesBlock (keyword :: ts) [.info keyword entries]
  | teams {keyword : Token} {ts stop : List Token} {teams : List TeamOutline} :
    keyword.isReserved "equipos" = true → Enclosed .brace (Entries OutlinesTeam) ts teams →
    AtMostOne .semicolon stop → OutlinesBlock (keyword :: (ts ++ stop)) [.teams teams]
  | bracket {keyword : Token} {ts stop : List Token} {phases : List Outline} :
    keyword.isReserved "eliminacion" = true → Enclosed .brace (Entries OutlinesPhase) ts phases →
    AtMostOne .semicolon stop → OutlinesBlock (keyword :: (ts ++ stop)) phases

inductive Outlines : List Token → List Outline → Prop
  | nil : Outlines [] []
  | block {ts rest : List Token} {os os' : List Outline} :
    OutlinesBlock ts os → Outlines rest os' → Outlines (ts ++ rest) (os ++ os')

section Exists

variable {entry : List Token → α → Prop} {outlines : List Token → β → Prop} {ts : List Token}

theorem Entries.outlined (h : ∀ ts x, entry ts x → ∃ o, outlines ts o) {xs : List α} (he : Entries entry ts xs) :
    ∃ os, Entries outlines ts os := by
  induction he with
  | nil => exact ⟨[], .nil⟩
  | comma ht _ ih =>
    obtain ⟨os, hos⟩ := ih
    exact ⟨os, .comma ht hos⟩
  | entry hx _ ih =>
    obtain ⟨o, ho⟩ := h _ _ hx
    obtain ⟨os, hos⟩ := ih
    exact ⟨o :: os, .entry ho hos⟩

theorem Enclosed.outlined {fence : Fence} (h : ∀ ts x, entry ts x → ∃ o, outlines ts o) {xs : List α}
    (he : Enclosed fence (Entries entry) ts xs) : ∃ os, Enclosed fence (Entries outlines) ts os := by
  obtain ⟨hl, hb, hr⟩ := he
  obtain ⟨os, hos⟩ := hb.outlined h
  exact ⟨os, .mk hl hos hr⟩

theorem PlayerEntry.outlined (ts : List Token) (p : Player) (h : PlayerEntry ts p) : ∃ o, OutlinesPlayer ts o := by
  obtain ⟨hk, hc, hn, ht, hm⟩ := h
  exact ⟨_, .mk (.mk hk hc hn ht hm)⟩

theorem TeamEntry.outlined (ts : List Token) (t : Team) (h : TeamEntry ts t) : ∃ o, OutlinesTeam ts o := by
  obtain ⟨hk, hc, hn, ht⟩ := h
  cases ht with
  | absent => exact ⟨_, .mk hk hc hn .absent⟩
  | present he =>
    obtain ⟨os, hos⟩ := he.outlined PlayerEntry.outlined
    exact ⟨_, .mk hk hc hn (.present hos)⟩

theorem FixtureEntry.outlined (ts : List Token) (f : Fixture) (h : FixtureEntry ts f) : ∃ o, OutlinesFixture ts o := by
  obtain ⟨hk, hc, hh, hm, ha, ht⟩ := h
  exact ⟨_, .mk hk hc hh hm ha ht⟩

theorem PhaseEntry.outlined (ts : List Token) (d : Declaration) (h : PhaseEntry ts d) : ∃ o, OutlinesPhase ts o := by
  obtain ⟨hk, hc, he⟩ := h
  obtain ⟨os, hos⟩ := he.outlined FixtureEntry.outlined
  exact ⟨_, .mk hk hc hos⟩

theorem Block.outlined {ds : List Declaration} (h : Block ts ds) : ∃ os, OutlinesBlock ts os := by
  cases h with
  | info hk he hc hs => exact ⟨_, .info hk (.info hk he hc hs)⟩
  | teams hk he hs =>
    obtain ⟨os, hos⟩ := he.outlined TeamEntry.outlined
    exact ⟨_, .teams hk hos hs⟩
  | bracket hk he hs =>
    obtain ⟨os, hos⟩ := he.outlined PhaseEntry.outlined
    exact ⟨_, .bracket hk hos hs⟩

theorem Blocks.outlined {ds : List Declaration} (h : Blocks ts ds) : ∃ os, Outlines ts os := by
  induction h with
  | nil => exact ⟨[], .nil⟩
  | block hb _ ih =>
    obtain ⟨os, hos⟩ := hb.outlined
    obtain ⟨os', hos'⟩ := ih
    exact ⟨os ++ os', .block hos hos'⟩

end Exists

section Names

variable {entry : List Token → β → Prop} {names : β → List Token} {ts : List Token}

theorem Entries.names_sublist (h : ∀ ts y, entry ts y → (names y).Sublist ts) {ys : List β}
    (he : Entries entry ts ys) : (ys.flatMap names).Sublist ts := by
  induction he with
  | nil => exact .slnil
  | comma _ _ ih => exact ih.cons _
  | entry hy _ ih => exact (h _ _ hy).append ih

theorem Enclosed.names_sublist {fence : Fence} (h : ∀ ts y, entry ts y → (names y).Sublist ts) {ys : List β}
    (he : Enclosed fence (Entries entry) ts ys) : (ys.flatMap names).Sublist ts := by
  obtain ⟨-, hb, -⟩ := he
  exact ((hb.names_sublist h).trans (List.sublist_append_left _ _)).cons _

theorem OutlinesPlayer.names_sublist (ts : List Token) (p : PlayerOutline) (h : OutlinesPlayer ts p) :
    [p.name].Sublist ts := by
  obtain ⟨-⟩ := h
  exact (((List.nil_sublist _).cons_cons _).cons _).cons _

theorem Optionally.players_sublist {ps : List PlayerOutline}
    (h : Optionally (Enclosed .bracket (Entries OutlinesPlayer)) ts ps) : (ps.map PlayerOutline.name).Sublist ts := by
  cases h with
  | absent => exact .slnil
  | present he =>
    rw [List.map_eq_flatMap]
    exact he.names_sublist OutlinesPlayer.names_sublist

theorem OutlinesTeam.names_sublist (ts : List Token) (t : TeamOutline) (h : OutlinesTeam ts t) :
    t.names.Sublist ts := by
  obtain ⟨-, -, -, ht⟩ := h
  exact ((ht.players_sublist.cons_cons _).cons _).cons _

theorem OutlinesFixture.names_sublist (ts : List Token) (f : FixtureOutline) (h : OutlinesFixture ts f) :
    f.names.Sublist ts := by
  obtain ⟨-⟩ := h
  refine ((List.Sublist.cons_cons _ ?_).cons _).cons _
  exact ((List.nil_sublist _).cons_cons _).trans (List.sublist_append_right _ _)

theorem OutlinesPhase.names_sublist (ts : List Token) (o : Outline) (h : OutlinesPhase ts o) : o.names.Sublist ts := by
  obtain ⟨-, -, he⟩ := h
  exact ((he.names_sublist OutlinesFixture.names_sublist).cons _).cons _

theorem OutlinesBlock.names_sublist {os : List Outline} (h : OutlinesBlock ts os) :
    (os.flatMap Outline.names).Sublist ts := by
  cases h with
  | info => exact List.nil_sublist _
  | @teams _ _ _ teams _ he =>
    rw [List.flatMap_singleton]
    exact ((he.names_sublist OutlinesTeam.names_sublist).trans (List.sublist_append_left _ _)).cons _
  | bracket _ he =>
    exact ((he.names_sublist OutlinesPhase.names_sublist).trans (List.sublist_append_left _ _)).cons _

theorem Outlines.names_sublist {os : List Outline} (h : Outlines ts os) : (os.flatMap Outline.names).Sublist ts := by
  induction h with
  | nil => exact .slnil
  | block hb _ ih =>
    rw [List.flatMap_append]
    exact hb.names_sublist.append ih

end Names

end Grammar

end Knockout
