import Knockout.Document

namespace Knockout.Grammar

variable {α : Type}

inductive AtMostOne (kind : TokenKind) : List Token → Prop
  | none : AtMostOne kind []
  | one {t : Token} : t.kind = kind → AtMostOne kind [t]

inductive Entries (entry : List Token → α → Prop) : List Token → List α → Prop
  | nil : Entries entry [] []
  | comma {t : Token} {ts : List Token} {xs : List α} :
    t.kind = .comma → Entries entry ts xs → Entries entry (t :: ts) xs
  | entry {ts rest : List Token} {x : α} {xs : List α} :
    entry ts x → Entries entry rest xs → Entries entry (ts ++ rest) (x :: xs)

inductive Enclosed (fence : Fence) (content : List Token → α → Prop) : List Token → α → Prop
  | mk {l r : Token} {body : List Token} {x : α} :
    l.kind = fence.opener → content body x → r.kind = fence.closer → Enclosed fence content (l :: (body ++ [r])) x

inductive Optionally (part : List Token → List α → Prop) : List Token → List α → Prop
  | absent : Optionally part [] []
  | present {ts : List Token} {xs : List α} : part ts xs → Optionally part ts xs

inductive Pair : List Token → Token × Token → Prop
  | mk {key colon value : Token} :
    key.isKey = true → colon.kind = .colon → value.isValue = true → Pair [key, colon, value] (key, value)

def lastValue? (pairs : List (Token × Token)) (key : String) : Option String :=
  (pairs.filter fun p => p.1.lexeme = key).getLast?.map fun p => p.2.lexeme

def Collects (pairs : List (Token × Token)) (m : KeyMap String) : Prop := ∀ key, m.find? key = lastValue? pairs key

inductive PlayerEntry : List Token → Player → Prop
  | mk {keyword colon name : Token} {ts : List Token} {pairs : List (Token × Token)} {attributes : KeyMap String} :
    keyword.isReserved "jugador" = true → colon.kind = .colon → name.isName = true →
    Optionally (Enclosed .bracket (Entries Pair)) ts pairs → Collects pairs attributes →
    PlayerEntry (keyword :: colon :: name :: ts) ⟨name.lexeme, attributes⟩

inductive TeamEntry : List Token → Team → Prop
  | mk {keyword colon name : Token} {ts : List Token} {players : List Player} :
    keyword.isReserved "equipo" = true → colon.kind = .colon → name.isName = true →
    Optionally (Enclosed .bracket (Entries PlayerEntry)) ts players →
    TeamEntry (keyword :: colon :: name :: ts) ⟨name.lexeme, players, keyword.position.line⟩

inductive ScorerEntry : List Token → Scorer → Prop
  | labelled {keyword colon name : Token} {ts : List Token} {pairs : List (Token × Token)} :
    keyword.isReserved "goleador" = true → colon.kind = .colon → name.isName = true →
    Optionally (Enclosed .bracket (Entries Pair)) ts pairs →
    ScorerEntry (keyword :: colon :: name :: ts) ⟨name.lexeme, lastValue? pairs "minuto"⟩
  | name {name : Token} : name.isName = true → ScorerEntry [name] ⟨name.lexeme, none⟩

inductive AttributeEntry : List Token → Option Document.FixtureAttribute → Prop
  | result {key colon value : Token} :
    key.isReserved "resultado" = true → colon.kind = .colon → value.isValue = true →
    AttributeEntry [key, colon, value] (some (.result value.lexeme))
  | scorer {key colon name : Token} :
    key.isReserved "goleadores" = true → colon.kind = .colon → name.isName = true →
    AttributeEntry [key, colon, name] (some (.scorers [⟨name.lexeme, none⟩]))
  | scorers {key colon : Token} {ts : List Token} {scorers : List Scorer} :
    key.isReserved "goleadores" = true → colon.kind = .colon → Enclosed .bracket (Entries ScorerEntry) ts scorers →
    AttributeEntry (key :: colon :: ts) (some (.scorers scorers))
  | other {key colon value : Token} :
    key.isKey = true → key.isReserved "resultado" = false → key.isReserved "goleadores" = false →
    colon.kind = .colon → value.isValue = true → AttributeEntry [key, colon, value] none

def lastResult? (attributes : List (Option Document.FixtureAttribute)) : Option String :=
  (attributes.filterMap fun
    | some (.result text) => some text
    | _ => none).getLast?

def allScorers (attributes : List (Option Document.FixtureAttribute)) : List Scorer :=
  attributes.flatMap fun
    | some (.scorers scorers) => scorers
    | _ => []

inductive FixtureEntry : List Token → Fixture → Prop
  | mk {keyword colon home away : Token} {marker ts : List Token}
    {attributes : List (Option Document.FixtureAttribute)} :
    keyword.isReserved "partido" = true → colon.kind = .colon → home.isName = true → AtMostOne .versus marker →
    away.isName = true → Optionally (Enclosed .bracket (Entries AttributeEntry)) ts attributes →
    FixtureEntry (keyword :: colon :: home :: (marker ++ away :: ts))
      ⟨home.lexeme, away.lexeme, lastResult? attributes, allScorers attributes, keyword.position.line⟩

inductive PhaseEntry : List Token → Declaration → Prop
  | mk {keyword colon : Token} {phase : Phase} {fence : Fence} {ts : List Token} {fixtures : List Fixture} :
    keyword.isReserved phase.key = true → colon.kind = .colon → Enclosed fence (Entries FixtureEntry) ts fixtures →
    PhaseEntry (keyword :: colon :: ts) (.phase keyword fixtures)

inductive Block : List Token → List Declaration → Prop
  | info {keyword : Token} {ts stop : List Token} {pairs : List (Token × Token)} {entries : KeyMap String} :
    keyword.isReserved "torneo" = true → Enclosed .brace (Entries Pair) ts pairs → Collects pairs entries →
    AtMostOne .semicolon stop → Block (keyword :: (ts ++ stop)) [.info keyword entries]
  | teams {keyword : Token} {ts stop : List Token} {teams : List Team} :
    keyword.isReserved "equipos" = true → Enclosed .brace (Entries TeamEntry) ts teams →
    AtMostOne .semicolon stop → Block (keyword :: (ts ++ stop)) [.teams teams]
  | bracket {keyword : Token} {ts stop : List Token} {phases : List Declaration} :
    keyword.isReserved "eliminacion" = true → Enclosed .brace (Entries PhaseEntry) ts phases →
    AtMostOne .semicolon stop → Block (keyword :: (ts ++ stop)) phases

inductive Blocks : List Token → List Declaration → Prop
  | nil : Blocks [] []
  | block {ts rest : List Token} {ds ds' : List Declaration} :
    Block ts ds → Blocks rest ds' → Blocks (ts ++ rest) (ds ++ ds')

def infos (ds : List Declaration) : List (KeyMap String) :=
  ds.filterMap fun
    | .info _ entries => some entries
    | _ => none

def teams (ds : List Declaration) : List Team :=
  ds.flatMap fun
    | .teams teams => teams
    | _ => []

def phases (ds : List Declaration) : List (String × List Fixture) :=
  ds.filterMap fun
    | .phase keyword fixtures => some (keyword.lexeme, fixtures)
    | _ => none

/-- The tournament that declarations stand for: the last data block counts, and the last phase of each name. -/
structure Denotes (ds : List Declaration) (t : Tournament) : Prop where
  info : t.info = (infos ds).getLast?.getD .empty
  teams : t.teams = teams ds
  bracket : ∀ key, t.bracket.find? key = ((phases ds).filter fun e => e.1 = key).getLast?.map Prod.snd

end Knockout.Grammar
