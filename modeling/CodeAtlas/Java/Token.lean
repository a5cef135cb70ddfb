import CodeAtlas.Text.Blank
import CodeAtlas.Text.Identifier
import CodeAtlas.Text.Utf8

/-! # Tokens

The lexemes of Java source text. White space separates them and is dropped; comments are
lexemes of their own, so that the parser can leave them out and the tree can hold them.
A string that embeds expressions is cut into parts, with the lexemes of the expressions
between them. A character that begins no lexeme is a stray one.
-/

namespace CodeAtlas.Java

open CodeAtlas.Text (Glyph)

inductive LexemeKind where
  | word
  | number
  | string
  /-- A string up to its first embedded expression. -/
  | stringOpen
  /-- A string between two embedded expressions. -/
  | stringMiddle
  /-- A string after its last embedded expression. -/
  | stringClose
  | character
  | mark
  /-- A string that is not closed takes the rest of the file. -/
  | unclosed
  | stray
  | lineComment
  | blockComment
  deriving Repr, DecidableEq, Inhabited

/-- A lexeme with its text and the offsets it stands between. -/
structure Lexeme where
  kind : LexemeKind
  text : String
  start : Nat
  stop : Nat
  deriving Repr, DecidableEq, Inhabited

def Lexeme.isComment (l : Lexeme) : Bool :=
  l.kind == .lineComment || l.kind == .blockComment

def Lexeme.isMark (l : Lexeme) (text : String) : Bool := l.kind == .mark && l.text == text

/-- The marks of more than one character, longest first. A closing angle bracket is always
a mark of its own, so that type arguments can close one by one. The mark of an annotation
declaration is written without a gap. -/
def longMarks : List (List Char) :=
  ["@interface", "...", "<<=", "->", "::", "++", "--", "&&", "||", "==", "!=", "<=", ">=", "+=",
    "-=", "*=", "/=", "&=", "|=", "^=", "%=", "<<"].map String.toList

def isMark (c : Char) : Bool := "(){}[];,.@=<>!~?:+-*/&|^%".toList.contains c

def chars (gs : List Glyph) : List Char := gs.map Glyph.char

/-! ## Words and numbers -/

/-- The length of the word at the front. The one modifier with a hyphen is a single word. -/
def wordLength (cs : List Char) : Nat :=
  let n := (cs.takeWhile Text.isIdentifierPart).length
  if "non-sealed".toList.isPrefixOf cs then 10 else n

/-- The length of a run of digits at the front, underscores between them included. -/
def digitRun (digit : Char → Bool) (cs : List Char) : Nat :=
  if (cs.head?.map digit) == some true then
    let run := cs.takeWhile fun c => digit c || c == '_'
    (run.reverse.dropWhile (· == '_')).length
  else 0

def isHexDigit (c : Char) : Bool :=
  c.isDigit || ('a' ≤ c && c ≤ 'f') || ('A' ≤ c && c ≤ 'F')

/-- One when a letter at the front is among the given ones. -/
def letterLength (letters : String) (cs : List Char) : Nat :=
  if (cs.head?.map letters.toList.contains) == some true then 1 else 0

/-- The length of an exponent at the front: its letter, a sign, and digits. -/
def exponentLength (letters : String) (cs : List Char) : Nat :=
  if letterLength letters cs == 0 then 0
  else
    let sign := letterLength "+-" (cs.drop 1)
    let digits := digitRun Char.isDigit (cs.drop (1 + sign))
    if digits == 0 then 0 else 1 + sign + digits

/-- The length of the decimal number at the front. A point right after digits belongs to
them, and a point in front needs digits after it. -/
def decimalLength (cs : List Char) : Nat :=
  let whole := digitRun Char.isDigit cs
  let rest := cs.drop whole
  match rest with
  | '.' :: more =>
    let fraction := digitRun Char.isDigit more
    if whole + fraction == 0 then 0
    else
      let exponent := exponentLength "eE" (more.drop fraction)
      whole + 1 + fraction + exponent + letterLength "fFdD" (more.drop (fraction + exponent))
  | _ =>
    let exponent := exponentLength "eE" rest
    let letters := if exponent == 0 then "lLfFdD" else "fFdD"
    if whole == 0 then 0 else whole + exponent + letterLength letters (rest.drop exponent)

/-- The length of the digits in base sixteen after their mark, with a fraction only where a
binary exponent follows it. -/
def hexLength (cs : List Char) : Nat :=
  let whole := digitRun isHexDigit cs
  let rest := cs.drop whole
  let point := letterLength "." rest
  let fraction := if point == 1 then digitRun isHexDigit (rest.drop 1) else 0
  let exponent := exponentLength "pP" (rest.drop (point + fraction))
  if whole + fraction == 0 then 0
  else if exponent == 0 then whole + letterLength "lL" rest
  else
    let n := point + fraction + exponent
    whole + n + letterLength "fFdD" (rest.drop n)

/-- The length of the digits in a base other than ten, with the mark of the base. -/
def basedLength (cs : List Char) : Nat :=
  match cs with
  | '0' :: mark :: more =>
    let plain (digit : Char → Bool) : Nat :=
      let n := digitRun digit more
      if n == 0 then 0 else n + letterLength "lL" (more.drop n)
    let n :=
      if mark == 'x' || mark == 'X' then hexLength more
      else if mark == 'b' || mark == 'B' then plain fun c => c == '0' || c == '1'
      else if mark == 'o' || mark == 'O' then plain fun c => '0' ≤ c && c ≤ '7'
      else 0
    if n == 0 then 0 else n + 2
  | _ => 0

/-- The length of the number at the front, or zero where there is none. -/
def numberLength (cs : List Char) : Nat :=
  let based := basedLength cs
  if based == 0 then decimalLength cs else based

/-! ## Comments and quoted text -/

/-- How many glyphs a block comment takes after its opening mark. -/
def commentEnd? : List Char → Option Nat
  | '*' :: '/' :: _ => some 2
  | _ :: cs => (commentEnd? cs).map (· + 1)
  | [] => none

/-- How many glyphs a character literal takes after its opening quote. A backslash escapes
the character after it. -/
def tickEnd? : List Char → Option Nat
  | [] => none
  | '\\' :: _ :: more => (tickEnd? more).map (· + 2)
  | c :: more => if c == Char.ofNat 39 then some 1 else (tickEnd? more).map (· + 1)

/-- The length of a character literal at the front: it is not empty and stays on its line. -/
def characterLength? (cs : List Char) : Option Nat :=
  match cs with
  | c :: more =>
    if c == Char.ofNat 39 then
      match tickEnd? (more.takeWhile (· != '\n')) with
      | some n => if 1 < n then some (n + 1) else none
      | none => none
    else none
  | [] => none

/-- How a stretch of string text ends. -/
inductive StretchEnd where
  | quotes
  | expression
  deriving Repr, DecidableEq

/-- How many glyphs of string text stand before the closing quotes or before an embedded
expression, with these quotes or with the opening of the expression. Nothing when the text
runs to the end of the file. A backslash escapes any other character after it. -/
def stretch? (quotes : List Char) : List Char → Option (Nat × StretchEnd)
  | [] => none
  | '\\' :: c :: more =>
    if c == '\x7b' then some (2, .expression)
    else (stretch? quotes more).map fun e => (e.1 + 2, e.2)
  | c :: more =>
    if quotes.isPrefixOf (c :: more) then some (quotes.length, .quotes)
    else (stretch? quotes more).map fun e => (e.1 + 1, e.2)

def openingQuotes? (cs : List Char) : Option (List Char) :=
  if ['"', '"', '"'].isPrefixOf cs then some ['"', '"', '"']
  else if ['"'].isPrefixOf cs then some ['"']
  else none

/-! ## Lexemes -/

/-- The kind and the length, in characters, of the lexeme at the front, strings aside. -/
def classify (cs : List Char) : LexemeKind × Nat :=
  match cs with
  | [] => (.stray, 0)
  | c :: more =>
    if Text.isIdentifierStart c then (.word, wordLength cs)
    else if 0 < numberLength cs then (.number, numberLength cs)
    else if c == '/' && more.head? == some '/' then
      (.lineComment, (cs.takeWhile (· != '\n')).length)
    else
      match (if c == '/' && more.head? == some '*' then commentEnd? (more.drop 1) else none) with
      | some n => (.blockComment, n + 2)
      | none =>
        match characterLength? cs with
        | some n => (.character, n)
        | none =>
          match longMarks.find? (·.isPrefixOf cs) with
          | some m => (.mark, m.length)
          | none => (if isMark c then .mark else .stray, 1)

/-- A string whose embedded expression is being read: the quotes that close it, and how
many braces are open in the expression. -/
structure OpenString where
  quotes : List Char
  braces : Nat
  deriving Repr, DecidableEq

/-- The kind and the length of the lexeme at the front, inside the given strings, and the
strings that are open after it. -/
def classifyIn (strings : List OpenString) (cs : List Char) :
    LexemeKind × Nat × List OpenString :=
  match strings, cs with
  | s :: outer, '\x7b' :: _ => (.mark, 1, { s with braces := s.braces + 1 } :: outer)
  | s :: outer, '\x7d' :: more =>
    if s.braces == 0 then
      match stretch? s.quotes more with
      | some (n, .quotes) => (.stringClose, n + 1, outer)
      | some (n, .expression) => (.stringMiddle, n + 1, s :: outer)
      | none => (.unclosed, cs.length, outer)
    else (.mark, 1, { s with braces := s.braces - 1 } :: outer)
  | _, _ =>
    match openingQuotes? cs with
    | some quotes =>
      match stretch? quotes (cs.drop quotes.length) with
      | some (n, .quotes) => (.string, quotes.length + n, strings)
      | some (n, .expression) => (.stringOpen, quotes.length + n, ⟨quotes, 0⟩ :: strings)
      | none => (.unclosed, cs.length, strings)
    | none =>
      let (kind, length) := classify cs
      (kind, length, strings)

def widthOf (gs : List Glyph) : Nat := gs.foldl (fun n g => n + g.width) 0

/-- The lexemes of glyphs that start at an offset inside the given strings; `cs` are the
characters of `gs`. Every lexeme takes at least one glyph. -/
def lexFrom (pos : Nat) (strings : List OpenString) :
    (fuel : Nat) → (cs : List Char) → (gs : List Glyph) → List Lexeme
  | 0, _, _ => []
  | fuel + 1, c :: cs, g :: gs =>
    if Text.isBlank c then lexFrom (pos + g.width) strings fuel cs gs
    else
      let (kind, length, after) := classifyIn strings (c :: cs)
      let taken := (g :: gs).take (max 1 length)
      let stop := pos + widthOf taken
      ⟨kind, String.ofList (chars taken), pos, stop⟩
        :: lexFrom stop after fuel ((c :: cs).drop (max 1 length)) ((g :: gs).drop (max 1 length))
  | _, _, _ => []

/-- The lexemes of a byte string. A byte-order mark at the front is skipped. -/
def lex (bytes : List UInt8) : List Lexeme :=
  let gs := Text.glyphs bytes
  match gs with
  | g :: rest =>
    if g.char == Char.ofNat 0xFEFF then lexFrom g.width [] rest.length (chars rest) rest
    else lexFrom 0 [] gs.length (chars gs) gs
  | [] => []

/-- The lexemes that the grammar reads: neither comments nor stray characters. A stray
character stays where it takes the place of a name after a point. Elsewhere no node stands for
it: `(#x).m()` is read like `(x).m()`, and a tree that has an error node there is not among those
that are built from bytes. What is said of all trees holds of it. -/
def significant (afterPoint : Bool) : List Lexeme → List Lexeme
  | [] => []
  | l :: ls =>
    if l.isComment || (l.kind == .stray && !afterPoint) then
      significant afterPoint ls
    else l :: significant (l.isMark ".") ls

end CodeAtlas.Java
