import CodeAtlas.Number.Binary64

/-! # Shortest decimal text

The text of a finite double is the decimal with the fewest digits that reads back to the
same double; of two such decimals the nearer one.
-/

namespace CodeAtlas.Binary64

/-- A decimal `digits · 10^exponent`. -/
structure Decimal where
  digits : Nat
  exponent : Int
  deriving Repr, DecidableEq

/-- `⌊num / den · 10^shift⌋` and whether the division left a remainder at least half. -/
def scaledFloor (num den : Nat) (shift : Int) : Nat × Bool :=
  let n := if 0 ≤ shift then num * Nat.pow 10 shift.toNat else num
  let d := if 0 ≤ shift then den else den * Nat.pow 10 (-shift).toNat
  (n / d, decide (d ≤ 2 * (n % d)))

/-- The power of ten of the leading digit of `num / den`. -/
def leadingPower (num den : Nat) : Int :=
  if den ≤ num then ((Nat.toDigits 10 (num / den)).length : Int) - 1
  else
    let rec search (k : Nat) : Nat → Int
      | 0 => -(k : Int)
      | fuel + 1 => if den ≤ num * Nat.pow 10 k then -(k : Int) else search (k + 1) fuel
    search 1 400

/-- A decimal of the given number of digits next to `units` that reads back to it. -/
def decimalOfLength? (units : Nat) (power : Int) (length : Nat) : Option Decimal :=
  let shift : Int := (length : Int) - 1 - power
  let (low, upper) := scaledFloor units unitsPerOne shift
  let readsBack (d : Nat) : Bool := ofDecimal false d (-shift) == .finite units
  let (near, far) := if upper then (low + 1, low) else (low, low + 1)
  if readsBack near then some ⟨near, -shift⟩
  else if readsBack far then some ⟨far, -shift⟩
  else none

/-- The shortest decimal that reads back to a positive count of units. -/
def shortest (units : Nat) : Decimal :=
  let power := leadingPower units unitsPerOne
  let rec search (length : Nat) : Nat → Decimal
    | 0 => ⟨(scaledFloor units unitsPerOne (16 - power)).1, power - 16⟩
    | fuel + 1 =>
      match decimalOfLength? units power length with
      | some d => d
      | none => search (length + 1) fuel
  search 1 17

def zeros (n : Nat) : String := String.ofList (List.replicate n '0')

/-- Decimals are positional while the point stands within five places before and sixteen
after the first digit, and always show a fraction or an exponent. -/
def Decimal.render (d : Decimal) : String :=
  let text := Nat.toDigits 10 d.digits
  let point : Int := (text.length : Int) + d.exponent
  if -5 < point ∧ point ≤ 16 then
    if 0 < point then
      let whole := text.take point.toNat ++ List.replicate (point.toNat - text.length) '0'
      let fraction := text.drop point.toNat
      String.ofList whole ++ "." ++ (if fraction.isEmpty then "0" else String.ofList fraction)
    else "0." ++ zeros (-point).toNat ++ String.ofList text
  else
    let fraction := text.drop 1
    String.ofList (text.take 1)
      ++ (if fraction.isEmpty then "" else "." ++ String.ofList fraction)
      ++ "e" ++ toString (point - 1)

/-- The text of a double; there is none for the values that are not numbers. -/
def render? : Binary64 → Option String
  | .finite units =>
    if units == 0 then some "0.0"
    else
      let text := (shortest units.natAbs).render
      some (if units < 0 then "-" ++ text else text)
  | _ => none

end CodeAtlas.Binary64
