/-! # UTF-8

Reading bytes as text. A maximal ill-formed sequence reads as one replacement
character, so every byte string has a text.
-/

namespace CodeAtlas.Text

/-- What stands for bytes that are not well-formed. -/
def replacement : Char := Char.ofNat 0xFFFD

/-- A character read from bytes and the number of bytes it was read from. -/
structure Glyph where
  char : Char
  width : Nat
  deriving Repr, DecidableEq, Inhabited

def isTail (b : UInt8) : Bool := 0x80 ≤ b && b ≤ 0xBF

/-- The second byte that a three-byte sequence may have after its first. -/
def isSecondOfThree (a b : UInt8) : Bool :=
  (a == 0xE0 && 0xA0 ≤ b && b ≤ 0xBF) || (a == 0xED && 0x80 ≤ b && b ≤ 0x9F)
    || (0xE1 ≤ a && a ≤ 0xEF && a != 0xED && isTail b)

/-- The second byte that a four-byte sequence may have after its first. -/
def isSecondOfFour (a b : UInt8) : Bool :=
  (a == 0xF0 && 0x90 ≤ b && b ≤ 0xBF) || (a == 0xF4 && 0x80 ≤ b && b ≤ 0x8F)
    || (0xF1 ≤ a && a ≤ 0xF3 && isTail b)

/-- The code point of a sequence, from the payload of its first byte and its tails. -/
def codePoint (lead : Nat) (tails : List UInt8) : Char :=
  Char.ofNat (tails.foldl (fun n b => n * 64 + (b.toNat - 0x80)) lead)

/-- The characters of a byte string, each with the number of its bytes. -/
def glyphs : List UInt8 → List Glyph
  | [] => []
  | a :: rest =>
    if a < 0x80 then ⟨Char.ofNat a.toNat, 1⟩ :: glyphs rest
    else
      match rest with
      | [] => [⟨replacement, 1⟩]
      | b :: rest₁ =>
        if 0xC2 ≤ a && a ≤ 0xDF && isTail b then
          ⟨codePoint (a.toNat - 0xC0) [b], 2⟩ :: glyphs rest₁
        else if isSecondOfThree a b then
          match rest₁ with
          | [] => [⟨replacement, 2⟩]
          | c :: rest₂ =>
            if isTail c then ⟨codePoint (a.toNat - 0xE0) [b, c], 3⟩ :: glyphs rest₂
            else ⟨replacement, 2⟩ :: glyphs (c :: rest₂)
        else if isSecondOfFour a b then
          match rest₁ with
          | [] => [⟨replacement, 2⟩]
          | c :: rest₂ =>
            if isTail c then
              match rest₂ with
              | [] => [⟨replacement, 3⟩]
              | d :: rest₃ =>
                if isTail d then ⟨codePoint (a.toNat - 0xF0) [b, c, d], 4⟩ :: glyphs rest₃
                else ⟨replacement, 3⟩ :: glyphs (d :: rest₃)
            else ⟨replacement, 2⟩ :: glyphs (c :: rest₂)
        else ⟨replacement, 1⟩ :: glyphs (b :: rest₁)

def decode (bytes : List UInt8) : String := String.ofList ((glyphs bytes).map Glyph.char)

/-- The text of a byte string that is well-formed throughout. A replacement character that
the bytes spell out has three of them, and every ill-formed sequence fewer or other ones. -/
def decode? (bytes : List UInt8) : Option String :=
  let s := decode bytes
  if s.toUTF8.toList == bytes then some s else none

end CodeAtlas.Text
