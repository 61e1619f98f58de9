import Knockout.Assembly
import Knockout.Log
import Knockout.Scan

namespace Knockout

structure Source where
  tokens : List Token
  lexical : List Diagnostic
  tournament : Tournament
  syntactic : List Diagnostic
deriving DecidableEq

namespace Source

def read (options : Options) (text : String) : Source :=
  let scanned := scan text
  let assembly := assemble options scanned.tokens
  ⟨scanned.tokens, scanned.diagnostics, assembly.tournament, assembly.diagnostics⟩

def diagnostics (s : Source) : List Diagnostic := s.lexical ++ s.syntactic

def hasErrors (s : Source) : Bool := !s.diagnostics.isEmpty

end Source

namespace Step

def logLine? : Step → Option LogLine
  | .skip t context => some ⟨.trace, .document, s!"skipping '{t.lexeme}' in {context.name}"⟩
  | .declare (.info _ entries) => some ⟨.debug, .info, s!"parsed 'torneo' block with {entries.size} entries"⟩
  | .declare (.teams teams) => some ⟨.debug, .teams, s!"parsed 'equipos' block with {teams.length} team(s)"⟩
  | .declare (.phase keyword fixtures) =>
    some ⟨.debug, .bracket, s!"parsed phase '{keyword.lexeme}' with {fixtures.length} match(es)"⟩
  | _ => none

end Step

def Source.log (s : Source) : List LogLine :=
  let teams := s.tournament.teams.length
  let phases := s.tournament.bracket.size
  let scanned := s!"scanned {s.tokens.length} token(s), {s.lexical.length} lexical diagnostic(s)"
  let built := s!"built model: {teams} team(s), {phases} phase(s), {s.syntactic.length} syntax diagnostic(s)"
  ⟨.debug, .scanner, scanned⟩ :: ((Document.read s.tokens).filterMap Step.logLine? ++ [⟨.debug, .document, built⟩])

end Knockout
