import CodeAtlas.Number.Binary64
import CodeAtlas.Text.Blank

/-! # What a source file declares and uses

The records that a source file yields: symbols, call edges, annotations and imports. Each
closed vocabulary has a written form, and a reader for it.
-/

namespace CodeAtlas

/-- The kind of a declared symbol. -/
inductive SymbolKind where
  | classType
  | interfaceType
  | enumType
  | method
  | field
  | constructor
  deriving Repr, DecidableEq, Inhabited

namespace SymbolKind

def text : SymbolKind → String
  | .classType => "CLASS"
  | .interfaceType => "INTERFACE"
  | .enumType => "ENUM"
  | .method => "METHOD"
  | .field => "FIELD"
  | .constructor => "CONSTRUCTOR"

def all : List SymbolKind :=
  [.classType, .interfaceType, .enumType, .method, .field, .constructor]

def ofText? (s : String) : Option SymbolKind := all.find? fun k => k.text == s

/-- Reads the written form in any case of ASCII letters. -/
def parse? (s : String) : Option SymbolKind := ofText? (Text.asciiUpper s)

/-- Classes, interfaces and enums declare types; the other kinds are members. -/
def isType : SymbolKind → Bool
  | .classType | .interfaceType | .enumType => true
  | _ => false

/-- Methods and constructors have bodies that call. -/
def isCallable : SymbolKind → Bool
  | .method | .constructor => true
  | _ => false

end SymbolKind

/-- Who may name a symbol. -/
inductive Visibility where
  | publicAccess
  | protectedAccess
  | privateAccess
  | packageAccess
  deriving Repr, DecidableEq, Inhabited

namespace Visibility

def text : Visibility → String
  | .publicAccess => "public"
  | .protectedAccess => "protected"
  | .privateAccess => "private"
  | .packageAccess => "package-private"

def all : List Visibility := [.publicAccess, .protectedAccess, .privateAccess, .packageAccess]

def ofText? (s : String) : Option Visibility := all.find? fun v => v.text == s

/-- Any other text means access within the package. -/
def parse (s : String) : Visibility := (ofText? s).getD .packageAccess

/-- The first modifier that grants or limits access decides. -/
def ofModifiers (modifiers : List String) : Visibility :=
  (modifiers.findSome? fun m =>
    if m == "public" then some .publicAccess
    else if m == "protected" then some .protectedAccess
    else if m == "private" then some .privateAccess
    else none).getD .packageAccess

end Visibility

/-- Whether a call stays inside the indexed code. -/
inductive CallType where
  | internal
  | external
  deriving Repr, DecidableEq, Inhabited

namespace CallType

def text : CallType → String
  | .internal => "internal"
  | .external => "external"

def ofText? (s : String) : Option CallType :=
  [internal, external].find? fun t => t.text == s

/-- Any other text means an internal call. -/
def parse (s : String) : CallType := (ofText? s).getD .internal

def ofExternal (isExternal : Bool) : CallType := if isExternal then .external else .internal

end CallType

/-- What an annotation is attached to. -/
inductive AnnotationScope where
  | onType
  | onMethod
  | onField
  deriving Repr, DecidableEq, Inhabited

namespace AnnotationScope

def text : AnnotationScope → String
  | .onType => "CLASS"
  | .onMethod => "METHOD"
  | .onField => "FIELD"

def ofText? (s : String) : Option AnnotationScope :=
  [onType, onMethod, onField].find? fun a => a.text == s

/-- Reads the written form in any case of ASCII letters. -/
def parse? (s : String) : Option AnnotationScope := ofText? (Text.asciiUpper s)

/-- The scope of an annotation on a symbol of the given kind. -/
def ofSymbol : SymbolKind → AnnotationScope
  | .classType | .interfaceType | .enumType => .onType
  | .method | .constructor => .onMethod
  | .field => .onField

end AnnotationScope

/-- The form of an import declaration. -/
inductive ImportKind where
  | single
  | wildcard
  | static
  deriving Repr, DecidableEq, Inhabited

namespace ImportKind

def text : ImportKind → String
  | .single => "single"
  | .wildcard => "wildcard"
  | .static => "static"

def ofText? (s : String) : Option ImportKind :=
  [single, wildcard, static].find? fun k => k.text == s

/-- Any other text means an import of one name. -/
def parse (s : String) : ImportKind := (ofText? s).getD .single

end ImportKind

/-- A declared type, method, constructor or field. -/
structure Symbol where
  fqn : String
  name : String
  kind : SymbolKind
  lineStart : Nat
  lineEnd : Nat
  signature : String
  /-- The name of the enclosing type, empty at the top level. -/
  parent : String
  visibility : Visibility
  deriving Repr, DecidableEq, Inhabited

/-- A call from one named routine to another, with the trust put in its target. -/
structure CallEdge where
  caller : String
  callee : String
  callType : CallType
  line : Nat
  confidence : Binary64
  deriving Repr, DecidableEq, Inhabited

/-- An annotation with its arguments, sorted by name. A lone argument is named `value`. -/
structure Annotation where
  symbol : String
  name : String
  scope : AnnotationScope
  params : List (String × String)
  deriving Repr, DecidableEq, Inhabited

structure Import where
  path : String
  kind : ImportKind
  deriving Repr, DecidableEq, Inhabited

/-- Everything a source file yields, in the order of the text. -/
structure Outline where
  symbols : List Symbol := []
  calls : List CallEdge := []
  annotations : List Annotation := []
  imports : List Import := []
  deriving Repr, DecidableEq, Inhabited

namespace Outline

/-- The records of one outline followed by those of another. -/
def append (a b : Outline) : Outline :=
  ⟨a.symbols ++ b.symbols, a.calls ++ b.calls, a.annotations ++ b.annotations,
    a.imports ++ b.imports⟩

instance : Append Outline := ⟨append⟩

end Outline

/-- A name inside a scope; a scope without a name adds nothing. -/
def qualify (scope name : String) : String :=
  if scope.isEmpty then name else scope ++ "." ++ name

end CodeAtlas
