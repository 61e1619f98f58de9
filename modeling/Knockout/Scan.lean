import Knockout.Diagnostic

namespace Knockout

def isLetter (c : Char) : Bool :=
  c.isAlpha || c = '_' || ['Á', 'É', 'Í', 'Ó', 'Ú', 'á', 'é', 'í', 'ó', 'ú', 'Ñ', 'ñ'].contains c

def isBlank (c : Char) : Bool :=
  [' ', '\t', '\n', '\r', '\x0c', '\x0b'].contains c

inductive Shape where
  | gap
  | token (kind : TokenKind) (lexeme : String)
  | fault (cause : Cause) (text : String)

/-- A stretch of source text that is read as one thing: blanks and comments are gaps. -/
structure Piece where
  text : List Char
  shape : Shape

def commentBody : List Char → Option (List Char × List Char)
  | [] => none
  | c :: rest =>
    if c = '*' ∧ rest.head? = some '/' then some (['*', '/'], rest.tail)
    else (commentBody rest).map fun split => (c :: split.1, split.2)

theorem commentBody_text {cs body rest : List Char} (h : commentBody cs = some (body, rest)) :
    body ++ rest = cs := by
  induction cs generalizing body with
  | nil => simp [commentBody] at h
  | cons c cs ih =>
    simp only [commentBody] at h
    split at h
    case isTrue hc =>
      obtain ⟨rfl, hd⟩ := hc
      obtain ⟨rfl, rfl⟩ := Prod.mk.inj (Option.some.inj h)
      cases cs <;> simp_all
    case isFalse =>
      obtain ⟨⟨b, r⟩, hb, he⟩ := Option.map_eq_some_iff.mp h
      obtain ⟨rfl, rfl⟩ := Prod.mk.inj he
      simp [ih hb]

def Shape.ofWord (word : String) : Shape :=
  if lowered word = "vs" then .token .versus word
  else if isReserved word then .token .reserved (lowered word)
  else .token .identifier word

def isWordPart (c : Char) : Bool := isLetter c || c.isDigit

def Piece.next (c : Char) (rest : List Char) : Piece × List Char :=
  if isBlank c then (⟨[c], .gap⟩, rest)
  else if c = '/' ∧ rest.head? = some '/' then
    (⟨c :: rest.takeWhile (· ≠ '\n'), .gap⟩, rest.dropWhile (· ≠ '\n'))
  else if c = '/' ∧ rest.head? = some '*' then
    match commentBody rest.tail with
    | some (body, after) => (⟨'/' :: '*' :: body, .gap⟩, after)
    | none => (⟨c :: rest, .fault .unclosedComment "/*"⟩, [])
  else if c = '"' then
    let body := rest.takeWhile fun d => d ≠ '"' ∧ d ≠ '\n'
    match rest.dropWhile fun d => d ≠ '"' ∧ d ≠ '\n' with
    | '"' :: after => (⟨c :: (body ++ ['"']), .token .string (String.ofList body)⟩, after)
    | after => (⟨c :: body, .fault .unterminatedString (String.ofList body)⟩, after)
  else if c.isDigit then
    let number := c :: rest.takeWhile Char.isDigit
    (⟨number, .token .number (String.ofList number)⟩, rest.dropWhile Char.isDigit)
  else if isLetter c then
    let word := c :: rest.takeWhile isWordPart
    (⟨word, .ofWord (String.ofList word)⟩, rest.dropWhile isWordPart)
  else
    match TokenKind.ofSymbol? c with
    | some kind => (⟨[c], .token kind c.toString⟩, rest)
    | none => (⟨[c], .fault (.invalidCharacter c) c.toString⟩, rest)

theorem Piece.next_text (c : Char) (rest : List Char) :
    (Piece.next c rest).1.text ++ (Piece.next c rest).2 = c :: rest := by
  unfold Piece.next
  split
  · simp
  · split
    · simp
    · split
      case isTrue hc =>
        split
        case h_1 body after hb =>
          have := commentBody_text hb
          obtain ⟨rfl, hd⟩ := hc
          cases rest <;> simp_all
        case h_2 => simp
      case isFalse =>
        split
        · have := @List.takeWhile_append_dropWhile _ (fun d => d ≠ '"' ∧ d ≠ '\n') rest
          dsimp only
          split
          case h_1 after hd => rw [hd] at this; simpa using this
          case h_2 => simp
        · split
          · simp
          · split
            · simp
            · split <;> simp

theorem Piece.next_text_ne_nil (c : Char) (rest : List Char) : (Piece.next c rest).1.text ≠ [] := by
  unfold Piece.next
  grind

theorem Piece.next_length (c : Char) (rest : List Char) : (Piece.next c rest).2.length ≤ rest.length := by
  have h := congrArg List.length (Piece.next_text c rest)
  have := List.length_pos_iff.mpr (Piece.next_text_ne_nil c rest)
  simp only [List.length_append, List.length_cons] at h
  omega

def pieces : List Char → List Piece
  | [] => []
  | c :: rest => (Piece.next c rest).1 :: pieces (Piece.next c rest).2
termination_by cs => cs.length
decreasing_by exact Nat.lt_succ_of_le (Piece.next_length c rest)

/-- A point between two characters: the line and column of the next one, and its offset in bytes. -/
structure Point where
  line : UInt32
  column : UInt32
  offset : Nat
deriving DecidableEq, Repr

namespace Point

def origin : Point := ⟨1, 1, 0⟩

def step (p : Point) (c : Char) : Point :=
  if c = '\n' then ⟨p.line + 1, 1, p.offset + c.utf8Size⟩ else ⟨p.line, p.column + 1, p.offset + c.utf8Size⟩

def after (p : Point) (text : List Char) : Point :=
  text.foldl step p

def position (p : Point) (text : List Char) : Position :=
  ⟨p.line, p.column, ⟨p.offset, (p.after text).offset⟩⟩

end Point

def located : Point → List Piece → List (Position × Piece)
  | _, [] => []
  | p, piece :: rest => (p.position piece.text, piece) :: located (p.after piece.text) rest

def Piece.token? (position : Position) (piece : Piece) : Option Token :=
  match piece.shape with
  | .token kind lexeme => some ⟨kind, lexeme, position⟩
  | _ => none

def Piece.diagnostic? (position : Position) (piece : Piece) : Option Diagnostic :=
  match piece.shape with
  | .fault cause text => some ⟨cause, text, position⟩
  | _ => none

structure Scan where
  tokens : List Token
  diagnostics : List Diagnostic
deriving DecidableEq, Repr

def scan (source : String) : Scan :=
  let found := located .origin (pieces source.toList)
  ⟨found.filterMap fun e => e.2.token? e.1, found.filterMap fun e => e.2.diagnostic? e.1⟩

end Knockout
