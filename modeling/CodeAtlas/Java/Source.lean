import CodeAtlas.Text.Lines
import CodeAtlas.Text.Utf8

/-! # Source text

A source file is its bytes. Positions are byte offsets, and a row is the number of line
feeds before a position.
-/

namespace CodeAtlas.Java

structure Source where
  bytes : Array UInt8
  deriving Inhabited

namespace Source

def ofBytes (bytes : List UInt8) : Source := ⟨bytes.toArray⟩

def text (src : Source) (start stop : Nat) : String :=
  Text.decode (src.bytes.extract start stop).toList

def row (src : Source) (pos : Nat) : Nat :=
  (src.bytes.extract 0 pos).count Text.lineFeed

end Source

end CodeAtlas.Java
