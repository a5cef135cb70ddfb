import CodeAtlas.Json.Basic
import CodeAtlas.Number.Reader

/-! # Reading JSON

A reader takes characters from the front of a list and returns the rest, or nothing when
the text is not JSON. Containers nest at most 127 deep. A whole number outside the
machine words is read as a double, and a number beyond the doubles is an error.
-/

namespace CodeAtlas.Json

open Number (digitsValue)

/-- The characters that may stand between two tokens. -/
def isGap (c : Char) : Bool := c == ' ' || c == '\t' || c == '\n' || c == '\r'

def skipGap (cs : List Char) : List Char := cs.dropWhile isGap

def hexValue? (c : Char) : Option Nat :=
  if c.isDigit then some (c.toNat - 48)
  else if 'a' ≤ c && c ≤ 'f' then some (c.toNat - 87)
  else if 'A' ≤ c && c ≤ 'F' then some (c.toNat - 55)
  else none

def readUnit : List Char → Option (Nat × List Char)
  | a :: b :: c :: d :: rest => do
    let w ← hexValue? a
    let x ← hexValue? b
    let y ← hexValue? c
    let z ← hexValue? d
    pure (((w * 16 + x) * 16 + y) * 16 + z, rest)
  | _ => none

/-- The character of a `\u` escape. Two escapes that form a surrogate pair are one
character; a surrogate alone is an error. -/
def readEscapedUnit (cs : List Char) : Option (Char × List Char) := do
  let (u, rest) ← readUnit cs
  if 0xD800 ≤ u && u ≤ 0xDBFF then
    match rest with
    | '\\' :: 'u' :: more =>
      let (v, rest) ← readUnit more
      if 0xDC00 ≤ v && v ≤ 0xDFFF then
        pure (Char.ofNat (0x10000 + (u - 0xD800) * 0x400 + (v - 0xDC00)), rest)
      else none
    | _ => none
  else if 0xDC00 ≤ u && u ≤ 0xDFFF then none
  else pure (Char.ofNat u, rest)

def simpleEscape? : Char → Option Char
  | '"' => some '"'
  | '\\' => some '\\'
  | '/' => some '/'
  | 'b' => some (Char.ofNat 8)
  | 'f' => some (Char.ofNat 12)
  | 'n' => some '\n'
  | 'r' => some '\r'
  | 't' => some '\t'
  | _ => none

/-- The rest of a string after its opening quote; `read` holds its characters, last first. -/
def readChars (read : List Char) : (fuel : Nat) → List Char → Option (String × List Char)
  | 0, _ => none
  | _, [] => none
  | fuel + 1, c :: cs =>
    if c == '"' then some (String.ofList read.reverse, cs)
    else if c == '\\' then
      match cs with
      | 'u' :: more => do
        let (d, rest) ← readEscapedUnit more
        readChars (d :: read) fuel rest
      | e :: more => do
        let d ← simpleEscape? e
        readChars (d :: read) fuel more
      | [] => none
    else if c.toNat < 0x20 then none
    else readChars (c :: read) fuel cs

def readString : List Char → Option (String × List Char)
  | '"' :: cs => readChars [] (cs.length + 1) cs
  | _ => none

/-- The digits after a decimal point, when there is one. -/
def readFraction : List Char → Option (List Char × List Char)
  | '.' :: cs =>
    let ds := cs.takeWhile Char.isDigit
    if ds.isEmpty then none else some (ds, cs.dropWhile Char.isDigit)
  | cs => some ([], cs)

def readExponent : List Char → Option (Option Int × List Char)
  | c :: cs =>
    if c == 'e' || c == 'E' then
      let (negative, cs) :=
        match cs with
        | '+' :: more => (false, more)
        | '-' :: more => (true, more)
        | _ => (false, cs)
      let ds := cs.takeWhile Char.isDigit
      if ds.isEmpty then none
      else
        let n : Int := digitsValue ds
        some (some (if negative then -n else n), cs.dropWhile Char.isDigit)
    else some (none, c :: cs)
  | [] => some (none, [])

/-- A whole number as a word of 64 bits, signed when negative, or as a double. -/
def wholeNumber (negative : Bool) (n : Nat) : Option Json :=
  if negative then
    if n == 0 then some (.decimal .zero)
    else if n ≤ Word.half64 then some (.integer (-(n : Int)))
    else decimalNumber (.ofDecimal true n 0)
  else if n < Word.bound64 then some (.integer n)
  else decimalNumber (.ofDecimal false n 0)
where
  /-- Refuses a number beyond the doubles. -/
  decimalNumber (x : Binary64) : Option Json := if x.isFinite then some (.decimal x) else none

def readNumber (cs : List Char) : Option (Json × List Char) := do
  let (negative, cs) :=
    match cs with
    | '-' :: more => (true, more)
    | _ => (false, cs)
  let whole := cs.takeWhile Char.isDigit
  if whole.isEmpty then none
  else if whole.head? == some '0' && 1 < whole.length then none
  else
    let (fraction, rest) ← readFraction (cs.dropWhile Char.isDigit)
    let (exponent, rest) ← readExponent rest
    if fraction.isEmpty && exponent.isNone then
      let j ← wholeNumber negative (digitsValue whole)
      pure (j, rest)
    else
      let x := Binary64.ofDecimal negative (digitsValue (whole ++ fraction))
        (exponent.getD 0 - fraction.length)
      if x.isFinite then pure (.decimal x, rest) else none

def readWord (word : String) (j : Json) (cs : List Char) : Option (Json × List Char) :=
  let w := word.toList
  if cs.take w.length == w then some (j, cs.drop w.length) else none

mutual

def readValue (depth : Nat) : (fuel : Nat) → List Char → Option (Json × List Char)
  | 0, _ => none
  | fuel + 1, cs =>
    match skipGap cs with
    | [] => none
    | '"' :: more => (readString ('"' :: more)).map fun r => (.string r.1, r.2)
    | '[' :: more =>
      if 126 < depth then none
      else
        match skipGap more with
        | ']' :: rest => some (.array [], rest)
        | more => (readItems (depth + 1) fuel more).map fun r => (.array r.1, r.2)
    | '\x7b' :: more =>
      if 126 < depth then none
      else
        match skipGap more with
        | '\x7d' :: rest => some (.object [], rest)
        | more => (readMembers (depth + 1) fuel more).map fun r => (.object r.1, r.2)
    | 't' :: more => readWord "true" (.bool true) ('t' :: more)
    | 'f' :: more => readWord "false" (.bool false) ('f' :: more)
    | 'n' :: more => readWord "null" .null ('n' :: more)
    | more => readNumber more

/-- The items of an array up to its closing bracket. -/
def readItems (depth : Nat) : (fuel : Nat) → List Char → Option (List Json × List Char)
  | 0, _ => none
  | fuel + 1, cs => do
    let (j, rest) ← readValue depth fuel cs
    match skipGap rest with
    | ']' :: rest => pure ([j], rest)
    | ',' :: rest =>
      let (js, rest) ← readItems depth fuel rest
      pure (j :: js, rest)
    | _ => none

/-- The members of an object up to its closing brace. -/
def readMembers (depth : Nat) :
    (fuel : Nat) → List Char → Option (List (String × Json) × List Char)
  | 0, _ => none
  | fuel + 1, cs => do
    let (name, rest) ← readString (skipGap cs)
    match skipGap rest with
    | ':' :: rest =>
      let (j, rest) ← readValue depth fuel rest
      match skipGap rest with
      | '\x7d' :: rest => pure ([(name, j)], rest)
      | ',' :: rest =>
        let (more, rest) ← readMembers depth fuel rest
        pure ((name, j) :: more, rest)
      | _ => none
    | _ => none

end

/-- The value at the front of a text and what follows it. -/
def readFront (cs : List Char) : Option (Json × List Char) := readValue 0 (2 * cs.length + 2) cs

def parse? (s : String) : Option Json :=
  match readFront s.toList with
  | some (j, rest) => if (skipGap rest).isEmpty then some j else none
  | none => none

end CodeAtlas.Json
