/-! # Double-precision values

A double is kept as the number it stands for. Every finite double is a whole multiple of
`2^-1074`, so it is an integer count of that unit, and the order of doubles is the order
of these counts. The two zeros are one value.
-/

namespace CodeAtlas

inductive Binary64 where
  | nan
  | negInf
  | finite (units : Int)
  | posInf
  deriving Repr, DecidableEq, Inhabited

namespace Binary64

def unitsPerOne : Nat := Nat.pow 2 1074

def unitLimit : Nat := Nat.pow 2 2098

def zero : Binary64 := .finite 0

def one : Binary64 := .finite unitsPerOne

def isFinite : Binary64 → Bool
  | .finite _ => true
  | _ => false

/-- The order of doubles; nothing compares with a NaN. -/
def le : Binary64 → Binary64 → Bool
  | .nan, _ => false
  | _, .nan => false
  | .negInf, _ => true
  | _, .posInf => true
  | .finite a, .finite b => decide (a ≤ b)
  | _, _ => false

def lt : Binary64 → Binary64 → Bool
  | .nan, _ => false
  | _, .nan => false
  | a, b => !le b a

/-- A value moved into the closed range from `lo` to `hi`. A NaN stays. -/
def clamp (x lo hi : Binary64) : Binary64 :=
  if lt x lo then lo else if lt hi x then hi else x

/-- The quotient rounded to the nearest whole number, a tie to the even one. -/
def divEven (num den : Nat) : Nat :=
  let q := num / den
  let r := num % den
  if 2 * r < den then q
  else if den < 2 * r then q + 1
  else if q % 2 == 0 then q else q + 1

def bitLength (n : Nat) : Nat := if n == 0 then 0 else n.log2 + 1

/-- The units of the double nearest to `num / den`, a tie to the even significand. -/
def roundUnits (num den : Nat) : Nat :=
  let scaled := num * unitsPerOne
  let extra := bitLength (scaled / den) - 53
  divEven scaled (den * Nat.pow 2 extra) * Nat.pow 2 extra

def ofFraction (negative : Bool) (num den : Nat) : Binary64 :=
  let u := roundUnits num den
  if unitLimit ≤ u then (if negative then .negInf else .posInf)
  else .finite (if negative then -(u : Int) else u)

/-- The double nearest to `± digits · 10^exponent`. -/
def ofDecimal (negative : Bool) (digits : Nat) (exponent : Int) : Binary64 :=
  if digits == 0 then zero
  else
    let size : Int := (Nat.toDigits 10 digits).length
    if 400 < exponent + size then (if negative then .negInf else .posInf)
    else if exponent + size < -400 then zero
    else if 0 ≤ exponent then ofFraction negative (digits * Nat.pow 10 exponent.toNat) 1
    else ofFraction negative digits (Nat.pow 10 (-exponent).toNat)

end Binary64

end CodeAtlas
