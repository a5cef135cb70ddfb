import CodeAtlas.Pattern.Wildcard

/-! # LIKE patterns

In a LIKE pattern `%` stands for any run of characters and `_` for any one; a backslash
takes the character after it as it is. Letters compare without regard to ASCII case.
-/

namespace CodeAtlas

namespace Like

inductive Part where
  | anyRun
  | anyChar
  | char (c : Char)
  deriving Repr, DecidableEq

/-- The parts of a pattern; none when it ends in a lone backslash. -/
def parts? : List Char → Option (List Part)
  | [] => some []
  | ['\\'] => none
  | '\\' :: c :: cs => (parts? cs).map (.char c :: ·)
  | '%' :: cs => (parts? cs).map (.anyRun :: ·)
  | '_' :: cs => (parts? cs).map (.anyChar :: ·)
  | c :: cs => (parts? cs).map (.char c :: ·)

def sameLetter (a b : Char) : Bool := a.toLower == b.toLower

/-- From which ends of the text the empty pattern matches: only from the last. The ends of
a text are listed from the whole text to the empty one. -/
def emptyRow : List Char → List Bool
  | [] => [true]
  | _ :: cs => false :: emptyRow cs

/-- The row of a part that takes one character, from the row of the parts after it. -/
def charRow (p : Char → Bool) : List Char → List Bool → List Bool
  | c :: cs, _ :: row => (p c && row.headD false) :: charRow p cs row
  | _, _ => [false]

/-- The row of a run: the parts after it match from here or from a later end. -/
def runRow : List Bool → List Bool
  | [] => []
  | b :: row => (b || row.any id) :: runRow row

def row (text : List Char) : List Part → List Bool
  | [] => emptyRow text
  | .anyRun :: ps => runRow (row text ps)
  | .anyChar :: ps => charRow (fun _ => true) text (row text ps)
  | .char c :: ps => charRow (sameLetter c) text (row text ps)

def matchParts (ps : List Part) (text : List Char) : Bool := (row text ps).headD false

end Like

/-- What is seen of a text: what stands before its first NUL character, where the two
noncharacters at the end of the basic plane look like the replacement character. -/
def Like.seen (s : String) : List Char :=
  (s.toList.takeWhile fun c => c.toNat != 0).map fun c =>
    if c.toNat == 0xFFFE || c.toNat == 0xFFFF then Char.ofNat 0xFFFD else c

/-- The length in bytes up to which SQLite takes a LIKE pattern. -/
def Like.maxLength : Nat := 50000

def Like.IsShort (pattern : String) : Prop := pattern.utf8ByteSize ≤ maxLength

instance (pattern : String) : Decidable (Like.IsShort pattern) :=
  inferInstanceAs (Decidable (_ ≤ _))

/-- Whether a text is LIKE a pattern. SQLite gives an error instead where the pattern is not
short. -/
def like (text pattern : String) : Bool :=
  match Like.parts? (Like.seen pattern) with
  | some ps => Like.matchParts ps (Like.seen text)
  | none => false

/-- One character of a wildcard pattern in a LIKE pattern. -/
def likeChar (c : Char) : List Char :=
  if c == '*' then ['%']
  else if c == '?' then ['_']
  else if c == '%' || c == '_' || c == '\\' then ['\\', c]
  else [c]

def likeOfWildcard (pattern : String) : String :=
  String.ofList (pattern.toList.flatMap likeChar)

/-- The LIKE pattern of the texts that contain a text. -/
def likeContaining (text : String) : String := "%" ++ likeOfWildcard text ++ "%"

end CodeAtlas
