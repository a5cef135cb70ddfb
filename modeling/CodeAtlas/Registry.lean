import CodeAtlas.Error
import CodeAtlas.Files.Path
import CodeAtlas.Java.FrontEnd
import CodeAtlas.Symbol

/-! # Front ends

A front end reads the files of one language. The registry finds front ends by language, by
extension and by path, without regard to ASCII case; the first one for a language or an
extension keeps it.
-/

namespace CodeAtlas

/-- How a front end can end on a file. -/
inductive ReadResult where
  | ok (outline : Outline)
  | failed (error : Error)
  /-- The front end broke down. -/
  | crashed (reason : String)
  deriving Repr, Inhabited

structure FrontEnd where
  language : String
  extensions : List String
  /-- Reads the content of a file, given its path and a fallback package. -/
  read : (path : String) → (content : List UInt8) → (fallback : String) → ReadResult

def FrontEnd.java : FrontEnd where
  language := "java"
  extensions := ["java"]
  read := fun _ content fallback => .ok (Java.outlineOfBytes content fallback)

structure Registry where
  byLanguage : List (String × FrontEnd) := []
  byExtension : List (String × FrontEnd) := []

namespace Registry

def lookup (table : List (String × FrontEnd)) (key : String) : Option FrontEnd :=
  (table.find? fun e => e.1 == Text.asciiLower key).map fun e => e.2

def forLanguage (r : Registry) (language : String) : Option FrontEnd :=
  lookup r.byLanguage language

def forExtension (r : Registry) (extension : String) : Option FrontEnd :=
  lookup r.byExtension extension

def forPath (r : Registry) (path : String) : Option FrontEnd :=
  (Path.extension? path).bind r.forExtension

def claim (f : FrontEnd) (table : List (String × FrontEnd)) (extension : String) :
    List (String × FrontEnd) :=
  if (lookup table extension).isSome then table
  else table ++ [(Text.asciiLower extension, f)]

def register (r : Registry) (f : FrontEnd) : Registry :=
  if (r.forLanguage f.language).isSome then r
  else
    ⟨r.byLanguage ++ [(Text.asciiLower f.language, f)],
      f.extensions.foldl (claim f) r.byExtension⟩

def default : Registry := ({} : Registry).register .java

def languages (r : Registry) : List String :=
  (r.byLanguage.map fun e => e.1).mergeSort Text.bytesLe

end Registry

/-- Directories below which directories name packages. -/
def sourceRoots : List String := ["src/main/java/", "src/test/java/", "java/"]

/-- The package that the place of a file implies: the directories below the first source
root that occurs in its path. -/
def packageOfPath (path : String) : String :=
  match sourceRoots.findSome? fun root => Text.afterFirst? root.toList path.toList with
  | none => ""
  | some rest => ".".intercalate (Text.pieces '/' (String.ofList rest)).dropLast

end CodeAtlas
