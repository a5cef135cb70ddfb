import CodeAtlas.Number.Binary64
import CodeAtlas.Number.Word

/-! # Reading numbers

Whole numbers are decimal digits with an optional sign, within the bounds of a machine
word. Doubles also have a point, an exponent, and names for the values that are no numbers.
-/

namespace CodeAtlas.Number

def digitsValue (ds : List Char) : Nat := ds.foldl (fun n c => n * 10 + (c.toNat - 48)) 0

/-- A sign in front of a number, and whether it is negative. -/
def sign (cs : List Char) : Bool × List Char :=
  match cs with
  | '-' :: rest => (true, rest)
  | '+' :: rest => (false, rest)
  | _ => (false, cs)

/-- Why a text is no whole number within bounds. -/
inductive Fault where
  | empty
  | invalidDigit
  | tooLarge
  deriving Repr, DecidableEq, Inhabited

def Fault.message : Fault → String
  | .empty => "cannot parse integer from empty string"
  | .invalidDigit => "invalid digit found in string"
  | .tooLarge => "number too large to fit in target type"

/-- The digits of a number, read after the number `n`. The first character that is no digit,
or that takes the number to the bound, is at fault. -/
def readDigits (bound : Nat) (n : Nat) : List Char → Except Fault Nat
  | [] => .ok n
  | c :: cs =>
    if !c.isDigit then .error .invalidDigit
    else
      let m := n * 10 + (c.toNat - 48)
      if m < bound then readDigits bound m cs else .error .tooLarge

/-- A number that is below a bound, with an optional plus sign. -/
def readNat (bound : Nat) (s : String) : Except Fault Nat :=
  match s.toList with
  | [] => .error .empty
  | ['+'] => .error .invalidDigit
  | '+' :: cs => readDigits bound 0 cs
  | cs => readDigits bound 0 cs

/-- A number that is below a bound, if the text is one. -/
def nat? (bound : Nat) (s : String) : Option Nat := (readNat bound s).toOption

def word16? : String → Option Nat := nat? Word.bound16

def word32? : String → Option Nat := nat? Word.bound32

def word64? : String → Option Nat := nat? Word.bound64

def int64? (s : String) : Option Int :=
  let (negative, ds) := sign s.toList
  if ds.isEmpty || !ds.all Char.isDigit then none
  else
    let n := digitsValue ds
    if negative then (if n ≤ Word.half64 then some (-(n : Int)) else none)
    else if n < Word.half64 then some n
    else none

def exponent? (cs : List Char) : Option Int :=
  let (negative, ds) := sign cs
  if ds.isEmpty || !ds.all Char.isDigit then none
  else some (if negative then -(digitsValue ds : Int) else digitsValue ds)

/-- Digits with an optional point among them and an optional exponent after them. -/
def decimal? (negative : Bool) (cs : List Char) : Option Binary64 :=
  let whole := cs.takeWhile Char.isDigit
  let rest := cs.drop whole.length
  let (fraction, rest) :=
    match rest with
    | '.' :: more => (more.takeWhile Char.isDigit, more.dropWhile Char.isDigit)
    | _ => ([], rest)
  if whole.isEmpty && fraction.isEmpty then none
  else
    let digits := digitsValue (whole ++ fraction)
    let scaled (e : Int) : Binary64 := Binary64.ofDecimal negative digits (e - fraction.length)
    match rest with
    | [] => some (scaled 0)
    | c :: more =>
      if c == 'e' || c == 'E' then (exponent? more).map scaled else none

/-- A double; the names of infinity and NaN are read in any case. -/
def binary64? (s : String) : Option Binary64 :=
  let (negative, cs) := sign s.toList
  let word := String.ofList (cs.map Char.toLower)
  if word == "inf" || word == "infinity" then some (if negative then .negInf else .posInf)
  else if word == "nan" then some .nan
  else decimal? negative cs

end CodeAtlas.Number
