import Knockout.Assembly
import Knockout.Graph

namespace Knockout

structure Settings where
  options : Options := {}
  direction : Direction := .leftRight
deriving DecidableEq, Repr

namespace Settings

def redeclarationName : Redeclaration → String
  | .lastWins => "LastWins"
  | .keepFirst => "KeepFirst"
  | .merge => "Merge"

def strictnessName : Strictness → String
  | .lenient => "Lenient"
  | .strict => "Strict"

def directionName : Direction → String
  | .leftRight => "LeftRight"
  | .topBottom => "TopBottom"

def logText (s : Settings) : String :=
  let redeclaration := redeclarationName s.options.redeclaration
  let strictness := strictnessName s.options.strictness
  let options := s!"ParseOptions \x7b redeclaration: {redeclaration}, strictness: {strictness} \x7d"
  let graph := s!"GraphOptions \x7b rank_dir: {directionName s.direction} \x7d"
  s!"Config \x7b parser: {options}, graph: {graph} \x7d"

end Settings

end Knockout
