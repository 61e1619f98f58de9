namespace Knockout

inductive Format where
  | text
  | json
deriving DecidableEq, Repr

inductive Command where
  | tokens
  | check
  | model
  | stats
  | bracket (out : Option String) (topDown : Bool)
  | report
deriving DecidableEq, Repr

structure Request where
  command : Command
  file : String
  format : Format
  quiet : Bool
  settings : Option String
  verbosity : Nat
deriving DecidableEq, Repr

inductive Invocation where
  | version
  | run (request : Request)
deriving DecidableEq, Repr

namespace Arguments

inductive Word where
  | output (format : Format)
  | settings (path : String)
  | out (path : String)
  | quiet
  | topDown
  | verbose (times : Nat)
  | version
  | operand (text : String)
  | escaped (text : String)
deriving DecidableEq, Repr

def format? : String → Option Format
  | "text" => some .text
  | "json" => some .json
  | _ => none

def path? (value : String) : Option String :=
  if value.isEmpty then none else some value

def valued? (name value : String) : Option Word :=
  match name with
  | "--output" => (format? value).map .output
  | "--config" => (path? value).map .settings
  | "--out" => (path? value).map .out
  | _ => none

def takesValue (name : String) : Bool :=
  ["--output", "--config", "--out"].contains name

def plain? (name : String) : Option Word :=
  match name with
  | "--quiet" => some .quiet
  | "--top-down" => some .topDown
  | "--verbose" => some (.verbose 1)
  | "--version" => some .version
  | _ =>
    match name.toList with
    | '-' :: letters =>
      match letters.dropWhile (· = 'v') with
      | [] => some (.verbose letters.length)
      | 'V' :: _ => some .version
      | _ => none
    | _ => none

def isOption (word : String) : Bool :=
  word.startsWith "-" && word ≠ "-"

def joined? (word : String) : Option (String × String) :=
  let cs := word.toList
  match word.startsWith "--", cs.dropWhile (· ≠ '=') with
  | true, '=' :: value => some (String.ofList (cs.takeWhile (· ≠ '=')), String.ofList value)
  | _, _ => none

def words? : List String → Option (List Word)
  | [] => some []
  | [last] => do
    if last = "--" then return []
    else if isOption last then
      match joined? last with
      | some (name, value) => return [← valued? name value]
      | none => return [← plain? last]
    else return [.operand last]
  | first :: second :: rest => do
    if first = "--" then return (second :: rest).map .escaped
    else if isOption first then
      match joined? first with
      | some (name, value) => return (← valued? name value) :: (← words? (second :: rest))
      | none =>
        if takesValue first then
          if isOption second then none else return (← valued? first second) :: (← words? rest)
        else
          let word ← plain? first
          if word = .version then return [word] else return word :: (← words? (second :: rest))
    else return .operand first :: (← words? (second :: rest))

structure Flags where
  output : Option Format := none
  settings : Option String := none
  quiet : Bool := false
  verbosity : Option Nat := none
  out : Option String := none
  topDown : Bool := false
  file : Option String := none

def Flags.add? (flags : Flags) : Word → Option Flags
  | .output format => if flags.output.isNone then some { flags with output := some format } else none
  | .settings path => if flags.settings.isNone then some { flags with settings := some path } else none
  | .quiet => if flags.quiet then none else some { flags with quiet := true }
  | .verbose times => some { flags with verbosity := some (flags.verbosity.getD 0 + times) }
  | .out path => if flags.out.isNone then some { flags with out := some path } else none
  | .topDown => if flags.topDown then none else some { flags with topDown := true }
  | .operand path | .escaped path =>
    if flags.file.isNone then (path? path).map ({ flags with file := some · }) else none
  | .version => none

def command? (name : String) (flags : Flags) : Option Command :=
  let drawn := flags.out.isSome || flags.topDown
  match name with
  | "tokens" => if drawn then none else some .tokens
  | "check" => if drawn then none else some .check
  | "model" => if drawn then none else some .model
  | "stats" => if drawn then none else some .stats
  | "bracket" => some (.bracket flags.out flags.topDown)
  | "report" => if drawn then none else some .report
  | _ => none

def request? (front : Flags) (name : String) (words : List Word) : Option Request := do
  let flags ← words.foldlM Flags.add? {}
  return {
    command := ← command? name flags
    file := ← flags.file
    format := (flags.output <|> front.output).getD .text
    quiet := flags.quiet || front.quiet
    settings := flags.settings <|> front.settings
    verbosity := (flags.verbosity <|> front.verbosity).getD 0 }

def invocation? (front : Flags) : List Word → Option Invocation
  | [] => none
  | .version :: _ => some .version
  | .operand name :: rest => (request? front name rest).map .run
  | .out _ :: _ | .topDown :: _ | .escaped _ :: _ => none
  | word :: rest => do invocation? (← front.add? word) rest

def parse? (args : List String) : Option Invocation := do
  invocation? {} (← words? args)

end Arguments

end Knockout
