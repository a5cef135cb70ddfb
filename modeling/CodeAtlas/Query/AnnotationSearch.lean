import CodeAtlas.Query.Fault
import CodeAtlas.Store.Lookup

/-! # Annotation search

Annotations are found by name, and may be narrowed by scope and by a value that one of
their parameters has, exactly or up to wildcards. Results come in pages.
-/

namespace CodeAtlas

structure AnnotationQuery where
  name : String
  value : Option String := none
  scope : Option String := none
  codebase : Option Int := none
  limit : Option Nat := none
  offset : Option Nat := none
  deriving Repr, DecidableEq, Inhabited

/-- An annotation with the place of its symbol, while that is indexed. -/
structure AnnotationHit where
  row : Row (Owned Annotation)
  place : Option PlacedSymbol
  deriving Repr, DecidableEq, Inhabited

structure AnnotationAnswer where
  name : String
  results : List AnnotationHit := []
  /-- The number of matches on all pages. -/
  total : Nat := 0
  limit : Nat
  offset : Nat
  fault : Option QueryFault := none
  deriving Repr, DecidableEq, Inhabited

namespace AnnotationSearch

def defaultLimit : Nat := 50

def maxLimit : Nat := 500

/-- The name that a query asks for, without the marks in front of it. -/
def nameOf (q : AnnotationQuery) : String :=
  Text.trim (String.ofList ((Text.trim q.name).toList.dropWhile (· == '@')))

def scopeOf (q : AnnotationQuery) : Except QueryFault (Option AnnotationScope) :=
  match chosen? q.scope with
  | none => .ok none
  | some text =>
    match AnnotationScope.parse? text with
    | some scope => .ok (some scope)
    | none => .error (.unknownScope text)

/-- Whether a parameter value passes a value test. -/
def valuePasses (test value : String) : Bool :=
  if hasWildcards test then wildcardMatch test value else value == test

/-- Whether one of the parameters passes the value test of a query. -/
def hasValue (test : Option String) (a : Annotation) : Bool :=
  match test.filter fun v => !v.isEmpty with
  | none => true
  | some v => a.params.any fun p => valuePasses v p.2

def placeOf (s : Store) (a : Row (Owned Annotation)) : Option PlacedSymbol :=
  (s.symbolsNamed a.data.item.symbol (some a.data.owner)).head?

def hits (s : Store) (q : AnnotationQuery) (name : String) (scope : Option AnnotationScope) :
    List (Row (Owned Annotation)) :=
  (s.annotationsNamed name scope q.codebase).filter fun a => hasValue q.value a.data.item

end AnnotationSearch

namespace Store

open AnnotationSearch in
def searchAnnotations (s : Store) (q : AnnotationQuery) : AnnotationAnswer :=
  let name := nameOf q
  let limit := clampLimit q.limit defaultLimit maxLimit
  let offset := q.offset.getD 0
  let invalid (fault : QueryFault) : AnnotationAnswer :=
    { name := name, limit := limit, offset := offset, fault := some fault }
  if name.isEmpty then invalid .emptyAnnotationName
  else
    match scopeOf q with
    | .error fault => invalid fault
    | .ok scope =>
      let all := hits s q name scope
      { name := name
        results := ((all.drop offset).take limit).map fun a => ⟨a, placeOf s a⟩
        total := all.length
        limit := limit
        offset := offset }

end Store

end CodeAtlas
