/-! # White space and splitting

Splitting a text at separators, and what the library does with white space: trimming,
collapsing runs to one space, and dropping it altogether.
-/

namespace CodeAtlas.Text

/-- The code points with the Unicode property `White_Space`. -/
def isBlank (c : Char) : Bool :=
  let n := c.toNat
  (0x9 ≤ n && n ≤ 0xD) || n == 0x20 || n == 0x85 || n == 0xA0 || n == 0x1680
    || (0x2000 ≤ n && n ≤ 0x200A) || n == 0x2028 || n == 0x2029 || n == 0x202F
    || n == 0x205F || n == 0x3000

/-- The pieces between the characters that satisfy `p`. There is always at least one. -/
def splitBy (p : Char → Bool) : List Char → List (List Char)
  | [] => [[]]
  | c :: cs =>
    if p c then [] :: splitBy p cs
    else
      match splitBy p cs with
      | [] => [[c]]
      | w :: ws => (c :: w) :: ws

/-- The pieces of a text between the occurrences of a character. -/
def pieces (sep : Char) (s : String) : List String :=
  (splitBy (· == sep) s.toList).map String.ofList

/-- The maximal runs of characters that are not blank. -/
def words (s : String) : List String :=
  ((splitBy isBlank s.toList).filter fun w => !w.isEmpty).map String.ofList

/-- The words of a text with one space between them. -/
def collapse (s : String) : String := " ".intercalate (words s)

def squeeze (s : String) : String := String.ofList (s.toList.filter fun c => !isBlank c)

/-- A list without the elements at its two ends that satisfy `p`. -/
def stripBoth (p : Char → Bool) (cs : List Char) : List Char :=
  ((cs.dropWhile p).reverse.dropWhile p).reverse

def trim (s : String) : String := String.ofList (stripBoth isBlank s.toList)

/-- ASCII letters in lower case, every other character unchanged. -/
def asciiLower (s : String) : String := s.map Char.toLower

/-- ASCII letters in upper case, every other character unchanged. -/
def asciiUpper (s : String) : String := s.map Char.toUpper

/-- What follows `start` in `cs`, when `cs` begins with it. -/
def afterPrefix? : (start cs : List Char) → Option (List Char)
  | [], cs => some cs
  | _ :: _, [] => none
  | a :: start, c :: cs => if a == c then afterPrefix? start cs else none

/-- What follows the first occurrence of `needle` in `cs`. -/
def afterFirst? (needle : List Char) : List Char → Option (List Char)
  | [] => afterPrefix? needle []
  | c :: cs =>
    match afterPrefix? needle (c :: cs) with
    | some rest => some rest
    | none => afterFirst? needle cs

def beginsWith (s start : String) : Bool := (afterPrefix? start.toList s.toList).isSome

def finishesWith (s stop : String) : Bool :=
  (afterPrefix? stop.toList.reverse s.toList.reverse).isSome

def occursIn (needle s : String) : Bool := (afterFirst? needle.toList s.toList).isSome

/-- A text without every leading occurrence of the non-empty `mark`. -/
def dropMarks (mark : List Char) (cs : List Char) : Nat → List Char
  | 0 => cs
  | fuel + 1 =>
    match afterPrefix? mark cs with
    | some rest => dropMarks mark rest fuel
    | none => cs

/-- A text without every occurrence of `mark` at its two ends: first those at the front,
then those at the back. -/
def stripMark (mark : String) (s : String) : String :=
  let cs := dropMarks mark.toList s.toList s.length
  let back := dropMarks mark.toList.reverse cs.reverse cs.length
  String.ofList back.reverse

/-- Texts compare by their UTF-8 encoding, which is the order of their code points. -/
def bytesLe (a b : String) : Bool := !decide (b < a)

end CodeAtlas.Text
