import CodeAtlas.Error
import CodeAtlas.Text.Blank

/-! # Faults of a query

A query that makes no sense, or misses, is answered with the reason; it does not fail.
-/

namespace CodeAtlas

inductive QueryFault where
  | emptyPattern
  | unknownKind (text : String)
  | emptyName
  | unknownDirection (text : String)
  | unknownMode (text : String)
  | emptyAnnotationName
  | unknownScope (text : String)
  | symbolNotFound (fqn : String)
  | unreadable (path : String) (fault : FileFault)
  deriving Repr, DecidableEq, Inhabited

namespace QueryFault

def quoted (s : String) : String := "'" ++ s ++ "'"

def message : QueryFault → String
  | .emptyPattern => "pattern must not be empty"
  | .unknownKind text => "unknown symbol_type " ++ quoted text
  | .emptyName => "fqn must not be empty"
  | .unknownDirection text =>
    "invalid direction " ++ quoted text ++ ": expected downstream or upstream"
  | .unknownMode text => "invalid mode " ++ quoted text ++ ": expected bfs or dfs"
  | .emptyAnnotationName => "annotation must not be empty"
  | .unknownScope text => "unknown scope " ++ quoted text
  | .symbolNotFound fqn => "symbol " ++ quoted fqn ++ " not found"
  | .unreadable path fault => s!"cannot read {path}: {fault.message}"

end QueryFault

/-- A requested limit moved into the range from one to `most`. -/
def clampLimit (requested : Option Nat) (default most : Nat) : Nat :=
  min (max (requested.getD default) 1) most

/-- The trimmed text of an optional choice; a blank one is no choice. -/
def chosen? (choice : Option String) : Option String :=
  (choice.map Text.trim).filter fun t => !t.isEmpty

end CodeAtlas
