import CodeAtlas.Number.Binary64

/-! # Decimals with a fixed number of places -/

namespace CodeAtlas.Binary64

/-- The text of a double with one decimal place, a tie to the even digit. -/
def tenths : Binary64 → String
  | .nan => "NaN"
  | .posInf => "inf"
  | .negInf => "-inf"
  | .finite units =>
    let n := divEven (units.natAbs * 10) unitsPerOne
    (if units < 0 then "-" else "") ++ s!"{n / 10}.{n % 10}"

end CodeAtlas.Binary64
