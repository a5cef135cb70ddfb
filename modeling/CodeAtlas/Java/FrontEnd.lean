import CodeAtlas.Java.Grammar.Declarations
import CodeAtlas.Java.Outline

/-! # Reading a Java file -/

namespace CodeAtlas.Java

/-- The outline of a Java file. A file without a package declaration belongs to the
fallback package. -/
def outlineOfBytes (bytes : List UInt8) (fallback : String) : Outline :=
  outlineOf bytes (parseTree bytes) fallback

end CodeAtlas.Java
