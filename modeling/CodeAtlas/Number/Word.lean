/-! # Machine words

The first numbers beyond the words of some widths.
-/

namespace CodeAtlas.Word

def bound16 : Nat := 0x10000

def bound32 : Nat := 0x100000000

def bound64 : Nat := 0x10000000000000000

/-- The first number beyond the signed words of 64 bits. -/
def half64 : Nat := 0x8000000000000000

end CodeAtlas.Word
