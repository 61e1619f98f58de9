import Knockout.Reader

namespace Knockout.Document

open Reader

variable {α : Type}

/-- A block keyword that a colon follows is a key, as `equipos: 8` in the tournament's own data. -/
def startsBlock (t : Token) (rest : List Token) : Bool :=
  t.isBlockKeyword && rest.head?.all fun next => next.kind ≠ .colon

def isPhaseKeyword (t : Token) : Bool :=
  t.kind = .reserved && (Phase.ofName? t.lexeme).isSome

def colonAfter (keyword : Token) : Reader Unit := do
  if (← takeKind .colon).isNone then
    report (.missingColon keyword.lexeme)

def name (role : NameRole) : Reader (Option String) := do
  match ← takeIf Token.isName with
  | some t => return some t.lexeme
  | none =>
    report (.missingName role)
    return none

/-- A wrong token in place of a value goes with its key, unless it is a comma or closes the list. -/
def value (fence : Fence) (accepts : Token → Bool) (key : Token) : Reader (Option String) := do
  match ← takeIf accepts with
  | some t => return some t.lexeme
  | none =>
    match ← takeIf fun t => t.kind ≠ fence.closer && t.kind ≠ .comma with
    | some t => reportAt t (.invalidValue t.lexeme key.lexeme)
    | none => report (.missingValue key.lexeme)
    return none

def listTurn (fence : Fence) (context : Context) (item : Token → Option (Reader α)) (t : Token) (rest : List Token) :
    Turn α :=
  if t.kind = fence.closer then .finish
  else if t.kind = .comma then .pass
  else if startsBlock t rest then .leave (some (.unclosedList fence context))
  else match item t with
    | some reader => .enter reader
    | none => .drop context

def list (fence : Fence) (context : Context) (item : Token → Option (Reader α)) : Reader (List α) :=
  items (listTurn fence context item) (some (.unclosedList fence context))

/-- Pairs `key: value`. Where the colon is missing, the token in its place goes with the key. -/
def pairs (fence : Fence) (context : Context) (valueOf : Token → Reader (Option α)) : Reader (List α) := do
  let found ← list fence context fun key =>
    if key.isKey then some do
      if (← takeKind .colon).isSome then
        valueOf key
      else
        report (.missingColon key.lexeme)
        let _ ← takeIf fun t => t.kind ≠ fence.closer
        return none
    else none
  return found.filterMap id

def labelled (fence : Fence) (key : Token) : Reader (Option (String × String)) := do
  return (← value fence Token.isValue key).map fun text => (key.lexeme, text)

def bracketed (content : Reader (List α)) : Reader (List α) := do
  if (← takeKind .openBracket).isSome then content else return []

def player (keyword : Token) : Reader (Option Player) := do
  colonAfter keyword
  let name ← name .player
  let attributes ← bracketed (pairs .bracket .player (labelled .bracket))
  return name.map fun name => ⟨name, .ofList attributes⟩

def team (keyword : Token) : Reader (Option Team) := do
  colonAfter keyword
  let name ← name .team
  let players ← bracketed (list .bracket .roster fun t =>
    if t.isReserved "jugador" then some (player t) else none)
  return name.map fun name => ⟨name, players.filterMap id, keyword.position.line⟩

def minute (key : Token) : Reader (Option String) := do
  if key.lexeme = "minuto" then
    value .bracket Token.isValue key
  else
    ignore key
    let _ ← value .bracket Token.isValue key
    return none

def scorer (keyword : Token) : Reader (Option Scorer) := do
  colonAfter keyword
  let name ← name .scorer
  let minutes ← bracketed (pairs .bracket .scorer minute)
  return name.map fun name => ⟨name, minutes.getLast?⟩

def scorerItem (t : Token) : Option (Reader (Option Scorer)) :=
  if t.isReserved "goleador" then some (scorer t)
  else if t.isName then some (pure (some ⟨t.lexeme, none⟩))
  else none

def scorers (key : Token) : Reader (List Scorer) := do
  if (← takeKind .openBracket).isSome then
    return (← list .bracket .scorers scorerItem).filterMap id
  else
    return (← value .bracket Token.isName key).toList.map fun name => ⟨name, none⟩

inductive FixtureAttribute where
  | result (text : String)
  | scorers (scorers : List Scorer)

namespace FixtureAttribute

def result? : FixtureAttribute → Option String
  | result text => some text
  | scorers _ => none

def scorerList : FixtureAttribute → List Scorer
  | result _ => []
  | scorers l => l

end FixtureAttribute

def fixtureAttribute (key : Token) : Reader (Option FixtureAttribute) := do
  if key.lexeme = "resultado" then
    return (← value .bracket Token.isValue key).map .result
  else if key.lexeme = "goleadores" then
    return some (.scorers (← scorers key))
  else
    ignore key
    let _ ← value .bracket Token.isValue key
    return none

def fixture (keyword : Token) : Reader (Option Fixture) := do
  colonAfter keyword
  let home ← name .firstTeam
  let _ ← takeKind .versus
  let away ← name .secondTeam
  let attributes ← bracketed (pairs .bracket .fixture fixtureAttribute)
  return home.bind fun home => away.map fun away => {
    home, away
    result := (attributes.filterMap FixtureAttribute.result?).getLast?
    scorers := attributes.flatMap FixtureAttribute.scorerList
    line := keyword.position.line }

def phaseFence (keyword : Token) : Reader (Option Fence) := do
  if (← takeKind .openBracket).isSome then
    return some .bracket
  else if (← takeKind .openBrace).isSome then
    return some .brace
  else
    report (.missingPhaseOpener keyword.lexeme)
    return none

/-- A phase that nothing opens runs up to the first token that is no match and no comma. -/
def phaseTurn (keyword : Token) (fence : Option Fence) (t : Token) (rest : List Token) : Turn (Option Fixture) :=
  if fence.any fun fence => t.kind = fence.closer then .finish
  else if t.kind = .comma then .pass
  else if t.isReserved "partido" then .enter (fixture t)
  else match fence with
    | none => .leave none
    | some fence =>
      if t.kind = .closeBrace || isPhaseKeyword t || startsBlock t rest then
        .leave (some (.unclosedPhase fence keyword.lexeme))
      else .drop .phase

def phase (keyword : Token) : Reader Unit := do
  colonAfter keyword
  let fence ← phaseFence keyword
  let fixtures ← items (phaseTurn keyword fence) (fence.map (.unclosedPhase · keyword.lexeme))
  declare (.phase keyword (fixtures.filterMap id))

def opened (keyword : Token) : Reader Bool := do
  if (← takeKind .openBrace).isSome then
    return true
  else
    report (.missingOpener keyword.lexeme)
    return false

def infoBlock (keyword : Token) : Reader Unit := do
  if ← opened keyword then
    let entries ← pairs .brace .info (labelled .brace)
    let _ ← takeKind .semicolon
    declare (.info keyword (.ofList entries))

def teamsBlock (keyword : Token) : Reader Unit := do
  if ← opened keyword then
    let teams ← list .brace .teams fun t => if t.isReserved "equipo" then some (team t) else none
    let _ ← takeKind .semicolon
    declare (.teams (teams.filterMap id))

def bracketBlock (keyword : Token) : Reader Unit := do
  if ← opened keyword then
    let _ ← list .brace .bracket fun t => if isPhaseKeyword t then some (phase t) else none
    let _ ← takeKind .semicolon

def block? (t : Token) : Option (Reader Unit) :=
  if t.isReserved "torneo" then some (infoBlock t)
  else if t.isReserved "equipos" then some (teamsBlock t)
  else if t.isReserved "eliminacion" then some (bracketBlock t)
  else none

def documentTurn (t : Token) (_ : List Token) : Turn Unit :=
  match block? t with
  | some block => .enter block
  | none => .drop .document

def read (tokens : List Token) : List Step :=
  ((items documentTurn none).run tokens).steps

theorem documentTurn_ne_leave (t : Token) (rest : List Token) (cause : Option Cause) :
    documentTurn t rest ≠ .leave cause := by
  unfold documentTurn
  split <;> simp

theorem rest_documentTurn (tokens : List Token) : ((items documentTurn none).run tokens).rest = [] := by
  apply items_rest_eq_nil
  refine fun t rest => ⟨?_, documentTurn_ne_leave t rest⟩
  unfold documentTurn
  split <;> simp

theorem consumed_read (tokens : List Token) : consumed (read tokens) = tokens := by
  have hr := rest_documentTurn tokens
  have ha := (items documentTurn none).accounts tokens
  rwa [hr, List.append_nil] at ha

end Knockout.Document
