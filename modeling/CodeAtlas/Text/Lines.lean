import CodeAtlas.Text.Blank

/-! # Lines

A line ends in a line feed, or in a carriage return and a line feed. Text after the last
line feed is a line too.
-/

namespace CodeAtlas.Text

def lineFeed : UInt8 := 10

/-- The number of lines: line feeds, and one more for text after the last of them. It is not
cut to 32 bits, so it is the number that is stored for a text of fewer than 2 ^ 32 lines. -/
def lineCount (bytes : List UInt8) : Nat :=
  match bytes.getLast? with
  | none => 0
  | some b => bytes.count lineFeed + (if b == lineFeed then 0 else 1)

/-- A line without the carriage return in front of its line feed. -/
def dropReturn (line : List Char) : List Char :=
  if line.getLast? == some '\r' then line.dropLast else line

/-- The lines among the pieces between line feeds. The last piece is not ended by one: it
keeps a carriage return, and is no line when it is empty. -/
def linesOfPieces : List (List Char) → List (List Char)
  | [] => []
  | [last] => if last.isEmpty then [] else [last]
  | piece :: rest => dropReturn piece :: linesOfPieces rest

def linesOf (cs : List Char) : List (List Char) := linesOfPieces (splitBy (· == '\n') cs)

def lines (s : String) : List String := (linesOf s.toList).map String.ofList

/-- The lines from one number to another, both counted from one and included. -/
def sliceLines (s : String) (first last : Nat) : String :=
  let start := max first 1
  let stop := max last start
  "\n".intercalate (((lines s).drop (start - 1)).take (stop - start + 1))

end CodeAtlas.Text
