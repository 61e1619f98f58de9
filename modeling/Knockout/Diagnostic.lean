import Knockout.Token

namespace Knockout

inductive Context where
  | document
  | info
  | teams
  | roster
  | player
  | bracket
  | phase
  | fixture
  | scorers
  | scorer
deriving DecidableEq, Repr

def Context.name : Context → String
  | document => "document"
  | info => "'torneo' block"
  | teams => "'equipos' block"
  | roster => "team roster"
  | player => "player attributes"
  | bracket => "'eliminacion' block"
  | phase => "phase"
  | fixture => "match attributes"
  | scorers => "scorer list"
  | scorer => "scorer attributes"

inductive NameRole where
  | team
  | player
  | firstTeam
  | secondTeam
  | scorer
deriving DecidableEq, Repr

def NameRole.name : NameRole → String
  | team => "team name"
  | player => "player name"
  | firstTeam => "first team name"
  | secondTeam => "second team name"
  | scorer => "scorer name"

inductive Fence where
  | brace
  | bracket
deriving DecidableEq, Repr

namespace Fence

def opener : Fence → TokenKind
  | brace => .openBrace
  | bracket => .openBracket

def closer : Fence → TokenKind
  | brace => .closeBrace
  | bracket => .closeBracket

def closingSymbol : Fence → String
  | brace => "\x7d"
  | bracket => "]"

end Fence

inductive Cause where
  | unclosedComment
  | unterminatedString
  | invalidCharacter (c : Char)
  | missingColon (key : String)
  | missingOpener (keyword : String)
  | missingPhaseOpener (phase : String)
  | unclosedList (fence : Fence) (context : Context)
  | unclosedPhase (fence : Fence) (phase : String)
  | missingName (role : NameRole)
  | missingValue (key : String)
  | invalidValue (value key : String)
  | unexpected (lexeme : String) (context : Context)
  | unknownAttribute (key : String)
  | redeclaredInfo
  | redeclaredPhase (phase : String)
deriving DecidableEq, Repr

inductive DiagnosticKind where
  | unclosedComment
  | unterminatedString
  | invalidToken
  | missingDelimiter
  | missingValue
  | invalidValue
  | unexpectedToken
  | unknownAttribute
  | redeclaredBlock
deriving DecidableEq, Repr

inductive Category where
  | lexical
  | syntactic
deriving DecidableEq, Repr

def Category.name : Category → String
  | lexical => "lexical"
  | syntactic => "syntactic"

namespace DiagnosticKind

def category : DiagnosticKind → Category
  | unclosedComment | unterminatedString | invalidToken => .lexical
  | _ => .syntactic

def label : DiagnosticKind → String
  | unclosedComment => "unclosed comment"
  | unterminatedString => "unterminated string"
  | invalidToken => "invalid token"
  | missingDelimiter => "missing delimiter"
  | missingValue => "missing value"
  | invalidValue => "invalid value"
  | unexpectedToken => "unexpected token"
  | unknownAttribute => "unknown attribute"
  | redeclaredBlock => "redeclared block"

end DiagnosticKind

namespace Cause

def kind : Cause → DiagnosticKind
  | unclosedComment => .unclosedComment
  | unterminatedString => .unterminatedString
  | invalidCharacter _ => .invalidToken
  | missingColon _ | missingOpener _ | missingPhaseOpener _ | unclosedList .. | unclosedPhase .. =>
    .missingDelimiter
  | missingName _ | missingValue _ => .missingValue
  | invalidValue .. => .invalidValue
  | unexpected .. => .unexpectedToken
  | unknownAttribute _ => .unknownAttribute
  | redeclaredInfo | redeclaredPhase _ => .redeclaredBlock

def message : Cause → String
  | unclosedComment => "block comment without closing '*/'"
  | unterminatedString => "string without closing quote on the same line"
  | invalidCharacter c => s!"unrecognized character '{c}'"
  | missingColon key => s!"expected ':' after '{key}'"
  | missingOpener keyword => s!"expected '\x7b' after '{keyword}'"
  | missingPhaseOpener phase => s!"expected '[' or '\x7b' to open phase '{phase}'"
  | unclosedList fence context => s!"expected '{fence.closingSymbol}' to close {context.name}"
  | unclosedPhase fence phase => s!"expected '{fence.closingSymbol}' to close phase '{phase}'"
  | missingName role => s!"expected {role.name}"
  | missingValue key => s!"missing value for '{key}'"
  | invalidValue value key => s!"invalid value '{value}' for '{key}'"
  | unexpected lexeme context => s!"unexpected '{lexeme}' in {context.name}"
  | unknownAttribute key => s!"unknown attribute '{key}' ignored"
  | redeclaredInfo => "'torneo' block declared more than once"
  | redeclaredPhase phase => s!"phase '{phase}' declared more than once"

end Cause

structure Diagnostic where
  cause : Cause
  text : String
  position : Position
deriving DecidableEq, Repr

namespace Diagnostic

def ofToken (t : Token) (cause : Cause) : Diagnostic := ⟨cause, t.lexeme, t.position⟩

def kind (d : Diagnostic) : DiagnosticKind := d.cause.kind

def description (d : Diagnostic) : String := d.cause.message

def display (d : Diagnostic) : String :=
  s!"{d.position.line}:{d.position.column}: {d.kind.label}: {d.description} ('{d.text}')"

end Diagnostic

end Knockout
