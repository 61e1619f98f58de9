import Knockout.Dot
import Mathlib.Data.List.Basic
import Mathlib.Data.List.Infix

namespace Knockout

namespace Dot

/-- What a reader of the text meets: a character outside the quoted strings, or a quoted string. -/
inductive Glyph where
  | code (c : Char)
  | quoted (text : List Char)
deriving DecidableEq

inductive Mode where
  | code
  | string (text : List Char)
  | escape (text : List Char)

def unescape? (c : Char) : Option Char :=
  if c = '"' then some '"' else if c = '\\' then some '\\' else if c = 'n' then some '\n' else none

def scan : Mode → List Char → Option (List Glyph)
  | .code, [] => some []
  | .string _, [] => none
  | .escape _, [] => none
  | .code, c :: rest => if c = '"' then scan (.string []) rest else (scan .code rest).map (.code c :: ·)
  | .string text, c :: rest =>
    if c = '"' then (scan .code rest).map (.quoted text :: ·)
    else if c = '\\' then scan (.escape text) rest
    else if c = '\n' then none
    else scan (.string (text ++ [c])) rest
  | .escape text, c :: rest => (unescape? c).bind fun d => scan (.string (text ++ [d])) rest

theorem scan_code {text : List Char} (h : '"' ∉ text) (rest : List Char) :
    scan .code (text ++ rest) = (scan .code rest).map (text.map .code ++ ·) := by
  induction text with
  | nil => simp
  | cons c text ih =>
    obtain ⟨hc, ht⟩ := not_or.mp (List.mem_cons.not.mp h)
    rw [List.cons_append, scan, if_neg (Ne.symm hc), ih ht, Option.map_map]
    rfl

theorem scan_escape (text seen rest : List Char) : scan (.string seen) (text.flatMap escapeChar ++ rest) =
    scan (.string (seen ++ text.filter (· ≠ '\r'))) rest := by
  induction text generalizing seen with
  | nil => simp
  | cons c text ih =>
    have hstep : ∀ tail, scan (.string seen) (escapeChar c ++ tail) =
        scan (.string (seen ++ if c = '\r' then [] else [c])) tail := by
      intro tail
      unfold escapeChar
      by_cases hquote : c = '"'
      · subst hquote
        rfl
      by_cases hslash : c = '\\'
      · subst hslash
        rfl
      by_cases hline : c = '\n'
      · subst hline
        rfl
      by_cases hreturn : c = '\r'
      · subst hreturn
        simp
      · simp [scan, hquote, hslash, hline, hreturn]
    rw [List.flatMap_cons, List.append_assoc, hstep, ih]
    by_cases hreturn : c = '\r' <;> simp [hreturn]

def spell (text : String) : List Glyph := text.toList.map .code

theorem spell_append (a b : String) : spell (a ++ b) = spell a ++ spell b := by
  rw [spell, String.toList_append, List.map_append]
  rfl

def shown (text : String) : List Char := text.toList.filter (· ≠ '\r')

namespace Part

def glyphs : Part → List Glyph
  | code text => spell text
  | quoted text => [.quoted (text.toList.filter (· ≠ '\r'))]

theorem glyphs_quoted (text : String) : (quoted text).glyphs = [.quoted (shown text)] := rfl

def IsPlain : Part → Prop
  | code text => '"' ∉ text.toList
  | quoted _ => True

theorem scan_text {p : Part} (h : p.IsPlain) (rest : List Char) :
    scan .code (p.text.toList ++ rest) = (scan .code rest).map (p.glyphs ++ ·) := by
  cases p with
  | code text => exact scan_code h rest
  | quoted text =>
    have htext : (Part.quoted text).text.toList = '"' :: (text.toList.flatMap escapeChar ++ ['"']) := by
      simp [Part.text, escape, toString]
    rw [htext, List.cons_append, List.append_assoc, scan, if_pos rfl, scan_escape]
    rfl

end Part

namespace Line

def glyphs (line : Line) : List Glyph := line.flatMap Part.glyphs ++ [.code '\n']

def IsPlain (line : Line) : Prop := ∀ p ∈ line, p.IsPlain

theorem scan_parts {line : Line} (h : line.IsPlain) (rest : List Char) :
    scan .code (line.flatMap (fun p => p.text.toList) ++ rest) =
      (scan .code rest).map (line.flatMap Part.glyphs ++ ·) := by
  induction line with
  | nil => simp
  | cons p line ih =>
    rw [List.flatMap_cons, List.append_assoc, Part.scan_text (h p List.mem_cons_self),
      ih fun q hq => h q (List.mem_cons_of_mem _ hq), Option.map_map]
    simp [Function.comp_def]

theorem scan_text {line : Line} (h : line.IsPlain) (rest : List Char) :
    scan .code (line.text.toList ++ rest) = (scan .code rest).map (line.glyphs ++ ·) := by
  have hline : line.text.toList = line.flatMap (fun p => p.text.toList) ++ ['\n'] := by
    simp [text, List.flatMap_map]
  rw [hline, List.append_assoc, scan_parts h, scan_code (by decide), Option.map_map]
  simp [Function.comp_def, glyphs]

end Line

theorem scan_lines {lines : List Line} (h : ∀ line ∈ lines, line.IsPlain) :
    scan .code (String.join (lines.map Line.text)).toList = some (lines.flatMap Line.glyphs) := by
  rw [String.toList_join, List.flatMap_map]
  induction lines with
  | nil => rfl
  | cons line lines ih =>
    rw [List.flatMap_cons, Line.scan_text (h line List.mem_cons_self),
      ih fun l hl => h l (List.mem_cons_of_mem _ hl)]
    rfl

inductive Sign where
  | word (text : List Char)
  | quoted (text : List Char)
  | mark (c : Char)
deriving DecidableEq

namespace Sign

def isBlank : Sign → Bool
  | mark c => c = ' ' || c = '\n'
  | _ => false

def endsClause : Sign → Bool
  | mark c => c = ';' || c = '\x7b' || c = '\x7d'
  | _ => false

end Sign

def isWordChar (c : Char) : Bool := c.isAlphanum || c = '_'

def joinWord (c : Char) : List Sign → List Sign
  | .word text :: rest => .word (c :: text) :: rest
  | rest => .word [c] :: rest

def signs : List Glyph → List Sign
  | [] => []
  | .quoted text :: rest => .quoted text :: signs rest
  | .code c :: rest => if isWordChar c then joinWord c (signs rest) else .mark c :: signs rest

def tokens (glyphs : List Glyph) : List Sign := (signs glyphs).filter fun sign => !sign.isBlank

def clauses : List Sign → List (List Sign)
  | [] => []
  | sign :: rest =>
    if sign.endsClause then [] :: clauses rest
    else match clauses rest with
      | [] => [[sign]]
      | clause :: more => (sign :: clause) :: more

inductive Item where
  | subgraph (name : String)
  | node (id : String)
  | mention (id : String)
  | edge (tail head : String) (attributes : List Sign)
deriving DecidableEq

def item? : List Sign → Option Item
  | [.word id] => some (.mention (.ofList id))
  | [.word keyword, .word name] => if keyword = "subgraph".toList then some (.subgraph (.ofList name)) else none
  | .word id :: .mark '[' :: _ =>
    if id ∈ ["graph".toList, "node".toList, "edge".toList] then none else some (.node (.ofList id))
  | .word tail :: .mark '-' :: .mark '>' :: .word head :: attributes =>
    some (.edge (.ofList tail) (.ofList head) attributes)
  | _ => none

def found (tokens : List Sign) : List Item := (clauses tokens).filterMap item?

def read (text : String) : Option (List Item) := (scan .code text.toList).map fun glyphs => found (tokens glyphs)

theorem tokens_word {word next : String} (hne : word.toList ≠ []) (hw : ∀ c ∈ word.toList, isWordChar c = true)
    (hnext : (next.toList.head?.any fun c => !isWordChar c) = true) (rest : List Glyph) :
    tokens (spell word ++ (spell next ++ rest)) = .word word.toList :: tokens (spell next ++ rest) := by
  obtain ⟨c, hc, hmark⟩ := (Option.any_eq_true _ _).mp hnext
  obtain ⟨more, hmore⟩ := List.head?_eq_some_iff.mp hc
  have hfirst : signs (spell next ++ rest) = .mark c :: signs (more.map .code ++ rest) := by
    rw [spell, hmore, List.map_cons, List.cons_append, signs, if_neg (by simpa using hmark)]
  have hsigns : signs (spell word ++ (spell next ++ rest)) = .word word.toList :: signs (spell next ++ rest) := by
    rw [spell]
    generalize word.toList = letters at hne hw
    induction letters with
    | nil => exact absurd rfl hne
    | cons d letters ih =>
      have hd := hw d List.mem_cons_self
      rw [List.map_cons, List.cons_append, signs, if_pos hd]
      cases letters with
      | nil =>
        rw [List.map_nil, List.nil_append, hfirst]
        rfl
      | cons e letters =>
        rw [ih (List.cons_ne_nil e letters) fun x hx => hw x (List.mem_cons_of_mem d hx)]
        rfl
  rw [tokens, hsigns, tokens]
  rfl

theorem clauses_clause (clause : List Sign) (h : ∀ sign ∈ clause, sign.endsClause = false) (rest : List Sign) :
    clauses (clause ++ .mark ';' :: rest) = clause :: clauses rest := by
  induction clause with
  | nil => rfl
  | cons first clause ih =>
    rw [List.cons_append, clauses, h first List.mem_cons_self, ih fun s hs => h s (List.mem_cons_of_mem _ hs)]
    rfl

def Spells (glyphs : List Glyph) (xs : List (List Sign)) : Prop :=
  ∀ more, clauses (tokens (glyphs ++ more)) = xs ++ clauses (tokens more)

theorem spells_nil : Spells [] [] := fun _ => rfl

theorem Spells.append {a b : List Glyph} {xs ys : List (List Sign)} (ha : Spells a xs) (hb : Spells b ys) :
    Spells (a ++ b) (xs ++ ys) := by
  intro more
  rw [List.append_assoc, ha, hb, List.append_assoc]

theorem spells_flatMap {α : Type} {f : α → List Glyph} {g : α → List (List Sign)} {l : List α}
    (h : ∀ x ∈ l, Spells (f x) (g x)) : Spells (l.flatMap f) (l.flatMap g) := by
  induction l with
  | nil => exact spells_nil
  | cons x l ih =>
    rw [List.flatMap_cons, List.flatMap_cons]
    exact (h x List.mem_cons_self).append (ih fun y hy => h y (List.mem_cons_of_mem x hy))

def clauses? (text : String) : Option (List (List Sign)) :=
  (scan .code text.toList).map fun glyphs => clauses (tokens glyphs)

theorem clauses?_lines {lines : List Line} (hp : ∀ line ∈ lines, line.IsPlain) {xs : List (List Sign)}
    (h : Spells (lines.flatMap Line.glyphs) xs) : clauses? (String.join (lines.map Line.text)) = some xs := by
  have hclauses := h []
  rw [List.append_nil] at hclauses
  rw [clauses?, scan_lines hp, Option.map_some, hclauses]
  simp [tokens, signs, clauses]

theorem read_eq (text : String) : read text = (clauses? text).map (List.filterMap item?) := by
  rw [read, clauses?, Option.map_map]
  rfl

end Dot

end Knockout
