import CodeAtlas.Json.Parser

/-! # Skipping JSON

A value that nobody asks for is passed over. It has to be JSON, but it is not built: it may
nest as deep as it likes, its numbers may be of any size, and its strings may escape half of
a surrogate pair.
-/

namespace CodeAtlas.Json

/-- What follows a string, from the first character after its opening quote on. -/
def skipChars : List Char → Option (List Char)
  | [] => none
  | '"' :: cs => some cs
  | '\\' :: 'u' :: a :: b :: c :: d :: cs =>
    if [a, b, c, d].all fun h => (hexValue? h).isSome then skipChars cs else none
  | '\\' :: e :: cs => if (simpleEscape? e).isSome then skipChars cs else none
  | c :: cs => if c.toNat < 0x20 || c == '\\' then none else skipChars cs

def skipNumber (cs : List Char) : Option (List Char) := do
  let cs := if cs.head? == some '-' then cs.drop 1 else cs
  let whole := cs.takeWhile Char.isDigit
  if whole.isEmpty || (whole.head? == some '0' && 1 < whole.length) then none
  else
    let (_, rest) ← readFraction (cs.dropWhile Char.isDigit)
    let (_, rest) ← readExponent rest
    pure rest

def skipScalar (cs : List Char) : Option (List Char) :=
  match cs with
  | '"' :: rest => skipChars rest
  | 't' :: _ => (readWord "true" .null cs).map fun r => r.2
  | 'f' :: _ => (readWord "false" .null cs).map fun r => r.2
  | 'n' :: _ => (readWord "null" .null cs).map fun r => r.2
  | _ => skipNumber cs

/-- A container that has been entered. -/
inductive Frame where
  | array
  | object
  deriving Repr, DecidableEq, Inhabited

def Frame.closing : Frame → Char
  | .array => ']'
  | .object => '\x7d'

/-- What follows the name of a member and its colon. -/
def skipName (cs : List Char) : Option (List Char) :=
  match skipGap cs with
  | '"' :: rest => do
    match skipGap (← skipChars rest) with
    | ':' :: rest => pure rest
    | _ => none
  | _ => none

/-- What stands between the members of the containers around: as many closing brackets as there
are, and then a comma. What is left open comes with the text. -/
def skipClosings : List Frame → List Char → Option (List Frame × List Char)
  | [], cs => some ([], cs)
  | frame :: frames, cs =>
    match skipGap cs with
    | c :: rest =>
      if c == frame.closing then skipClosings frames rest
      else if c == ',' then some (frame :: frames, rest)
      else none
    | [] => none

/-- What follows the value in front of a text, inside containers; the innermost comes first. -/
def skipFrom (frames : List Frame) : (fuel : Nat) → List Char → Option (List Char)
  | 0, _ => none
  | fuel + 1, cs =>
    let value := if frames.head? == some .object then skipName cs else some cs
    match value.map skipGap with
    | none => none
    | some cs =>
      let entered : Option Frame :=
        match cs with
        | '[' :: _ => some .array
        | '\x7b' :: _ => some .object
        | _ => none
      match entered with
      | some frame =>
        let inside := skipGap (cs.drop 1)
        if inside.head? == some frame.closing then finish fuel (inside.drop 1)
        else skipFrom (frame :: frames) fuel inside
      | none =>
        match skipScalar cs with
        | some rest => finish fuel rest
        | none => none
where
  /-- Go on after a value. -/
  finish (fuel : Nat) (rest : List Char) : Option (List Char) :=
    match skipClosings frames rest with
    | some ([], rest) => some rest
    | some (frames, rest) => skipFrom frames fuel rest
    | none => none

def skipValue (cs : List Char) : Option (List Char) := skipFrom [] (cs.length + 1) cs

end CodeAtlas.Json
