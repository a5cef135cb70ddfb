import CodeAtlas.Java.Bindings
import CodeAtlas.Symbol
import CodeAtlas.Text.LetterCase

/-! # Types in scope

How the text of a type becomes a qualified name. There is no class path: a name is looked
up among the imports, the types the file declares, and the well-known types of the
platform, and otherwise belongs to the file's own package.
-/

namespace CodeAtlas.Java

def externalNamespaces : List String :=
  ["java.", "javax.", "jakarta.", "org.springframework.", "org.apache.", "org.slf4j.",
    "com.google.", "com.fasterxml.", "lombok."]

def isExternal (fqn : String) : Bool := externalNamespaces.any fun s => Text.beginsWith fqn s

/-- Types that need no import, and collection types that wildcard imports bring in. -/
def wellKnownTypes : List (String × String) :=
  ["Object", "String", "StringBuilder", "StringBuffer", "CharSequence", "Integer", "Long",
      "Short", "Byte", "Double", "Float", "Boolean", "Character", "Number", "Math", "System",
      "Thread", "Runtime", "Class", "Enum", "Iterable", "Runnable", "Throwable", "Exception",
      "RuntimeException", "IllegalArgumentException", "IllegalStateException"].map
    (fun n => (n, "java.lang." ++ n))
  ++ ["List", "ArrayList", "Map", "HashMap", "Set", "HashSet", "Optional", "Collections", "Arrays",
      "Objects"].map (fun n => (n, "java.util." ++ n))

def primitiveTypes : List String :=
  ["int", "long", "short", "byte", "char", "boolean", "float", "double", "void"]

/-- The name that a declared type is looked up by: no type arguments, no brackets, and the
last word of what is left. -/
def baseTypeName (declared : String) : String :=
  let front := declared.toList.takeWhile fun c => c != '<' && c != '['
  let pieces := Text.splitBy Text.isBlank (Text.stripBoth Text.isBlank front)
  String.ofList (pieces.getLast?.getD [])

/-- A type with its qualified name. -/
structure ResolvedType where
  fqn : String
  isExternal : Bool
  deriving Repr, DecidableEq, Inhabited

/-- What names mean throughout a file. -/
structure FileScope where
  package : String := ""
  imports : Bindings := {}
  declared : Bindings := {}
  deriving Repr, DecidableEq, Inhabited

def wellKnown? (name : String) : Option ResolvedType :=
  (wellKnownTypes.find? fun e => e.1 == name).map fun e => ⟨e.2, true⟩

def lastSegment (path : String) : String := (Text.pieces '.' path).getLast?.getD path

namespace FileScope

def addImport (scope : FileScope) (path : String) : FileScope :=
  { scope with imports := scope.imports.insert (lastSegment path) path }

def importType? (scope : FileScope) (name : String) : Option ResolvedType :=
  (scope.imports.find? name).map fun fqn => ⟨fqn, isExternal fqn⟩

def resolveSimple? (scope : FileScope) (name : String) : Option ResolvedType :=
  if name.isEmpty || name == "var" || primitiveTypes.contains name then none
  else
    match scope.importType? name with
    | some t => some t
    | none =>
      match scope.declared.find? name with
      | some fqn => some ⟨fqn, false⟩
      | none =>
        match wellKnown? name with
        | some t => some t
        | none => some ⟨qualify scope.package name, false⟩

/-- The type that a declared type stands for. A dotted name that starts in lower case is
qualified already; otherwise its first segment is resolved and the rest is appended. -/
def resolveType? (scope : FileScope) (declared : String) : Option ResolvedType :=
  let name := baseTypeName declared
  let head := name.toList.takeWhile (· != '.')
  match name.toList.dropWhile (· != '.') with
  | [] => scope.resolveSimple? name
  | _ :: rest =>
    if (head.head?.map Text.isLowercase) == some true then some ⟨name, isExternal name⟩
    else
      (scope.resolveSimple? (String.ofList head)).map fun outer =>
        ⟨outer.fqn ++ "." ++ String.ofList rest, outer.isExternal⟩

end FileScope

end CodeAtlas.Java
