import CodeAtlas.Java.Rule

/-! # Words of the language

The reserved words and the lookahead tests shared by the rules of types, expressions,
statements and declarations. Rules that refer to each other do so through a `Goal`: they
receive a way to read each goal and are tied together at the end.
-/

namespace CodeAtlas.Java

/-- The recursive parts of the grammar. -/
inductive Goal where
  | type
  | annotationUse
  | expression
  | operand
  | pattern
  | block
  | statement
  | typeDeclaration
  | classBody
  deriving Repr, DecidableEq

abbrev Grammar := Goal → Rule

def reserved : List String :=
  ["abstract", "assert", "boolean", "break", "byte", "case", "catch", "char", "class",
    "continue", "default", "do", "double", "else", "enum", "extends", "final", "finally", "float",
    "for", "if", "implements", "import", "instanceof", "int", "interface", "long",
    "native", "new", "package", "private", "protected", "public", "return", "short", "static",
    "strictfp", "super", "switch", "synchronized", "this", "throw", "throws", "transient", "try",
    "void", "volatile", "while", "true", "false", "null"]

def primitives : List String :=
  ["boolean", "byte", "short", "char", "int", "long", "float", "double", "void"]

def modifierWords : List String :=
  ["public", "protected", "private", "abstract", "static", "final", "strictfp", "default",
    "synchronized", "native", "transient", "volatile"]

/-- The words that begin a member of a type. Any other word is a name there. -/
def memberWords : List String := modifierWords ++ primitives ++ ["class", "interface", "enum"]

def isReserved (l : Lexeme) : Bool := reserved.contains l.text

def isName (l : Lexeme) : Bool := l.kind == .word && !isReserved l

/-- Whether a word is a name where a member of a type begins. -/
def isMemberName (l : Lexeme) : Bool := l.kind == .word && !memberWords.contains l.text

def isPrimitive (l : Lexeme) : Bool := l.kind == .word && primitives.contains l.text

/-- Whether the lexeme at a place ahead is the given token. -/
def tokenAt (text : String) (i : Nat) (ls : List Lexeme) : Bool := textAt ls i == some text

def nameAt (i : Nat) (ls : List Lexeme) : Bool := (ls[i]?.map isName) == some true

def name : Rule := Rule.lexeme isName .identifier

def anyWord : Rule := Rule.lexeme (fun l => l.kind == .word) .identifier

/-- Whether the lexeme at a place ahead is a word, reserved or not. -/
def wordAt (i : Nat) (ls : List Lexeme) : Bool := (ls[i]?.map fun l => l.kind == .word) == some true

/-- Whether the lexeme at a place ahead is a word of at least so many bytes. -/
def longWordAt (bytes i : Nat) (ls : List Lexeme) : Bool :=
  match ls[i]? with
  | some l => l.kind == .word && decide (bytes ≤ l.text.utf8ByteSize)
  | none => false

/-- Whether the lexeme at a place ahead is one of the given tokens. -/
def anyTokenAt (texts : List String) (i : Nat) (ls : List Lexeme) : Bool :=
  texts.any fun t => tokenAt t i ls

/-- Whether a parenthesis at the front closes right before an arrow. Braces inside it are
those of annotation values, which hold no semicolon. -/
def arrowAfterParens (depth braces : Nat) : List Lexeme → Bool
  | [] => false
  | l :: ls =>
    if l.kind != .mark then arrowAfterParens depth braces ls
    else if l.text == "(" then arrowAfterParens (depth + 1) braces ls
    else if l.text == ")" then
      if depth ≤ 1 then tokenAt "->" 0 ls else arrowAfterParens (depth - 1) braces ls
    else if l.text == "\x7b" then arrowAfterParens depth (braces + 1) ls
    else if l.text == "\x7d" then
      if braces == 0 then false else arrowAfterParens depth (braces - 1) ls
    else if l.text == ";" then false
    else arrowAfterParens depth braces ls

/-- How many lexemes there are before the first one outside braces that is one of the given
tokens or closes a brace that was not opened, or before the end. -/
def lengthUpTo (stops : List String) (braces : Nat) : List Lexeme → Nat
  | [] => 0
  | l :: ls =>
    if braces == 0 && (l.isMark "\x7d" || anyTokenAt stops 0 [l]) then 0
    else if l.isMark "\x7b" then 1 + lengthUpTo stops (braces + 1) ls
    else if l.isMark "\x7d" then 1 + lengthUpTo stops (braces - 1) ls
    else 1 + lengthUpTo stops braces ls

/-- Whether a word that is a modifier only in front of another word or an annotation stands
there. -/
def sealedAhead (ls : List Lexeme) : Bool :=
  tokenAt "sealed" 0 ls && !tokenAt "instanceof" 1 ls
    && (wordAt 1 ls || anyTokenAt ["@", "@interface"] 1 ls)

/-- Whether a word that introduces a declaration stands in front of a name. It is no type
then, even where the declaration does not go on. -/
def introduces (words : List String) (ls : List Lexeme) : Bool :=
  anyTokenAt words 0 ls && wordAt 1 ls && !tokenAt "instanceof" 1 ls

/-- A record declaration is told from a use of its word by the name and list after it. -/
def recordAhead (ls : List Lexeme) : Bool :=
  tokenAt "record" 0 ls && wordAt 1 ls && (tokenAt "(" 2 ls || tokenAt "<" 2 ls)

end CodeAtlas.Java
