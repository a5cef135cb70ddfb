import CodeAtlas.Files.Path
import CodeAtlas.Text.Utf8

/-! # Names on disk

The name of an entry of a directory is made of bytes, and nothing says that these spell a
text. Where a text is wanted all the same, a name that is none shows with replacement
characters in it, so two names can show as one, and the text leads to neither of them.
-/

namespace CodeAtlas

/-- The bytes of a name: those of a text, or some that spell none. -/
inductive FileName where
  | text (s : String)
  | raw (bytes : List UInt8) (ill : Text.decode? bytes = none)
  deriving Repr, DecidableEq

namespace FileName

instance : Coe String FileName := ⟨text⟩

instance : Inhabited FileName := ⟨text ""⟩

def bytes : FileName → List UInt8
  | .text s => s.toUTF8.toList
  | .raw bytes _ => bytes

/-- The text that stands for a name. -/
def shown : FileName → String
  | .text s => s
  | .raw bytes _ => Text.decode bytes

def size : FileName → Nat
  | .text s => s.utf8ByteSize
  | .raw bytes _ => bytes.length

def hasNul : FileName → Bool
  | .text s => s.toList.contains (Char.ofNat 0)
  | .raw bytes _ => bytes.contains 0

/-- The text that stands for names one below the other. -/
def shownPath (names : List FileName) : String := "/".intercalate (names.map shown)

end FileName

/-- A path of names: the pieces between its separators. An absolute path has an empty piece in
front. -/
structure DiskPath where
  pieces : List FileName
  deriving Repr, DecidableEq, Inhabited

namespace DiskPath

def ofText (path : String) : DiskPath := ⟨(Text.pieces '/' path).map .text⟩

instance : Coe String DiskPath := ⟨ofText⟩

def absolute (names : List FileName) : DiskPath :=
  ⟨.text "" :: if names.isEmpty then [.text ""] else names⟩

/-- The text that stands for a path. -/
def shown (p : DiskPath) : String := FileName.shownPath p.pieces

def size (p : DiskPath) : Nat :=
  p.pieces.foldr (fun piece n => piece.size + n) (p.pieces.length - 1)

end DiskPath

end CodeAtlas
