import Knockout.Casing

namespace Knockout

inductive TokenKind where
  | reserved
  | identifier
  | string
  | number
  | versus
  | openBrace
  | closeBrace
  | openBracket
  | closeBracket
  | colon
  | comma
  | semicolon
deriving DecidableEq, Repr

namespace TokenKind

def symbol? : TokenKind → Option Char
  | openBrace => some '\x7b'
  | closeBrace => some '\x7d'
  | openBracket => some '['
  | closeBracket => some ']'
  | colon => some ':'
  | comma => some ','
  | semicolon => some ';'
  | _ => none

def ofSymbol? : Char → Option TokenKind
  | '\x7b' => some openBrace
  | '\x7d' => some closeBrace
  | '[' => some openBracket
  | ']' => some closeBracket
  | ':' => some colon
  | ',' => some comma
  | ';' => some semicolon
  | _ => none

theorem ofSymbol?_eq_some_iff (c : Char) (kind : TokenKind) : ofSymbol? c = some kind ↔ kind.symbol? = some c := by
  constructor
  · intro h
    unfold ofSymbol? at h
    split at h <;> cases h <;> rfl
  · intro h
    cases kind <;> cases h <;> rfl

def label : TokenKind → String
  | reserved => "reserved"
  | identifier => "identifier"
  | string => "string"
  | number => "number"
  | versus => "vs"
  | openBrace => "lbrace"
  | closeBrace => "rbrace"
  | openBracket => "lbracket"
  | closeBracket => "rbracket"
  | colon => "colon"
  | comma => "comma"
  | semicolon => "semicolon"

end TokenKind

structure Span where
  start : Nat
  stop : Nat
deriving DecidableEq, Repr

/-- Lines count from 1, and so do columns, which count characters, both in words that wrap around. -/
structure Position where
  line : UInt32
  column : UInt32
  span : Span
deriving DecidableEq, Repr

/--
The lexeme of a reserved word is in lowercase and that of a string is without its quotes; the span covers
the quotes too.
-/
structure Token where
  kind : TokenKind
  lexeme : String
  position : Position
deriving DecidableEq, Repr

def reservedWords : List String :=
  ["torneo", "equipos", "eliminacion", "equipo", "jugador", "partido", "resultado", "goleadores",
    "cuartos", "semifinal", "final", "nombre", "posicion", "numero", "edad", "vs", "goleador", "minuto", "sede"]

def isReserved (word : String) : Bool :=
  reservedWords.contains (lowered word)

namespace Token

def isReserved (t : Token) (word : String) : Bool :=
  t.kind = .reserved && t.lexeme = word

def isName (t : Token) : Bool :=
  t.kind = .string || t.kind = .identifier

def isValue (t : Token) : Bool :=
  t.kind = .string || t.kind = .number || t.kind = .identifier

def isKey (t : Token) : Bool :=
  t.kind = .reserved || t.kind = .identifier

def isBlockKeyword (t : Token) : Bool :=
  t.isReserved "torneo" || t.isReserved "equipos" || t.isReserved "eliminacion"

end Token

end Knockout
