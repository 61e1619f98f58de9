import Knockout.Document

namespace Knockout

inductive Redeclaration where
  | lastWins
  | keepFirst
  | merge
deriving DecidableEq, Repr

namespace Redeclaration

def combine {α : Type} (join : α → α → α) : Redeclaration → α → α → α
  | lastWins, _, new => new
  | keepFirst, old, _ => old
  | merge, old, new => join old new

end Redeclaration

inductive Strictness where
  | lenient
  | strict
deriving DecidableEq, Repr

structure Options where
  redeclaration : Redeclaration := .lastWins
  strictness : Strictness := .lenient
deriving DecidableEq, Repr

namespace Steps

def infos (steps : List Step) : List (KeyMap String) :=
  steps.filterMap fun
    | .declare (.info _ entries) => some entries
    | _ => none

def teams (steps : List Step) : List Team :=
  steps.flatMap fun
    | .declare (.teams teams) => teams
    | _ => []

def phases (steps : List Step) : List (String × List Fixture) :=
  steps.filterMap fun
    | .declare (.phase keyword fixtures) => some (keyword.lexeme, fixtures)
    | _ => none

def joinInfos (policy : Redeclaration) : List (KeyMap String) → KeyMap String
  | [] => .empty
  | first :: more => more.foldl (policy.combine .union) first

def joinPhases (policy : Redeclaration) (declared : List (String × List Fixture)) : KeyMap (List Fixture) :=
  declared.foldl (fun m e => m.insertWith (policy.combine (· ++ ·)) e.1 e.2) .empty

def tournament (policy : Redeclaration) (steps : List Step) : Tournament :=
  ⟨joinInfos policy (infos steps), teams steps, joinPhases policy (phases steps)⟩

/--
What earlier steps leave behind for reports: whether the last token was skipped, so that a run of skipped
tokens is reported once, and what has been declared.
-/
structure Memory where
  skipping : Bool := false
  info : Bool := false
  phases : List String := []

namespace Memory

def after (m : Memory) : Step → Memory
  | .take _ => { m with skipping := false }
  | .skip .. => { m with skipping := true }
  | .declare (.info ..) => { m with info := true }
  | .declare (.phase keyword _) => { m with phases := keyword.lexeme :: m.phases }
  | _ => m

end Memory

def diagnostics (strictness : Strictness) (last : Position) (m : Memory) : Step → List Diagnostic
  | .take _ => []
  | .skip t context => if m.skipping then [] else [.ofToken t (.unexpected t.lexeme context)]
  | .report cause (some t) => [.ofToken t cause]
  | .report cause none => [⟨cause, "end of input", last⟩]
  | .ignore key =>
    if strictness = .strict then [.ofToken key (.unknownAttribute key.lexeme)] else []
  | .declare (.info keyword _) =>
    if strictness = .strict ∧ m.info then [.ofToken keyword .redeclaredInfo] else []
  | .declare (.phase keyword _) =>
    if strictness = .strict ∧ keyword.lexeme ∈ m.phases then
      [.ofToken keyword (.redeclaredPhase keyword.lexeme)]
    else []
  | .declare (.teams _) => []

def diagnosticsFrom (strictness : Strictness) (last : Position) : Memory → List Step → List Diagnostic
  | _, [] => []
  | m, step :: rest =>
    diagnostics strictness last m step ++ diagnosticsFrom strictness last (m.after step) rest

def lastPosition (tokens : List Token) : Position :=
  match tokens.getLast? with
  | some t => { t.position with span := ⟨t.position.span.stop, t.position.span.stop⟩ }
  | none => ⟨1, 1, ⟨0, 0⟩⟩

end Steps

structure Assembly where
  tournament : Tournament
  diagnostics : List Diagnostic
deriving DecidableEq

def assemble (options : Options) (tokens : List Token) : Assembly :=
  let steps := Document.read tokens
  ⟨Steps.tournament options.redeclaration steps,
    Steps.diagnosticsFrom options.strictness (Steps.lastPosition tokens) {} steps⟩

end Knockout
