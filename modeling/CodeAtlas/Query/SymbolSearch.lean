import CodeAtlas.Query.Fault
import CodeAtlas.Store.FullText
import CodeAtlas.Text.LetterCase

/-! # Symbol search

A pattern with wildcards is matched against names. Any other pattern is a term for the
full-text search, and when that finds nothing, a part of a name. Results are scored by how
close the name comes to the longest literal part of the pattern.
-/

namespace CodeAtlas

structure SymbolQuery where
  pattern : String
  kind : Option String := none
  language : Option String := none
  limit : Option Nat := none
  codebase : Option Int := none
  deriving Repr, DecidableEq, Inhabited

structure SymbolHit where
  symbol : PlacedSymbol
  score : Binary64
  deriving Repr, DecidableEq, Inhabited

structure SymbolAnswer where
  pattern : String
  results : List SymbolHit := []
  fault : Option QueryFault := none
  deriving Repr, DecidableEq, Inhabited

namespace SymbolSearch

def defaultLimit : Nat := 20

def maxLimit : Nat := 200

/-- How close a name comes to a needle. -/
inductive Closeness where
  | exact
  | leading
  | inside
  | elsewhere
  deriving Repr, DecidableEq, Inhabited

def Closeness.score : Closeness → Binary64
  | .exact => .one
  | .leading => .ofDecimal false 9 (-1)
  | .inside => .ofDecimal false 7 (-1)
  | .elsewhere => .ofDecimal false 5 (-1)

/-- The later of two texts unless the first is longer in UTF-8. -/
def longer (a b : List Char) : List Char :=
  if (String.ofList b).utf8ByteSize < (String.ofList a).utf8ByteSize then a else b

/-- The longest literal part of a pattern in lower case; the last of several. -/
def needle (pattern : String) : String :=
  Text.lowercase (String.ofList
    ((Text.splitBy (fun c => c == '*' || c == '?') pattern.toList).foldl longer []))

def closeness (name needle : String) : Closeness :=
  let name := Text.lowercase name
  if needle.isEmpty then .elsewhere
  else if name == needle then .exact
  else if Text.beginsWith name needle then .leading
  else if Text.occursIn needle name then .inside
  else .elsewhere

def score (name needle : String) : Binary64 := (closeness name needle).score

def candidates (s : Store) (pattern : String) (filter : SymbolFilter) (limit : Nat) :
    Except Error (List PlacedSymbol) :=
  if hasWildcards pattern then .ok (s.symbolsLike (likeOfWildcard pattern) filter limit)
  else
    (s.symbolsMatching pattern filter limit).map fun hits =>
      if hits.isEmpty then s.symbolsLike (likeContaining pattern) filter limit else hits

/-- Candidates with their scores, the highest first. -/
def scored (needle : String) (symbols : List PlacedSymbol) : List SymbolHit :=
  (symbols.map fun p => (⟨p, score p.symbol.name needle⟩ : SymbolHit)).mergeSort
    fun a b => Binary64.le b.score a.score

def kindOf (q : SymbolQuery) : Except QueryFault (Option SymbolKind) :=
  match chosen? q.kind with
  | none => .ok none
  | some text =>
    match SymbolKind.parse? text with
    | some kind => .ok (some kind)
    | none => .error (.unknownKind text)

def languageOf (q : SymbolQuery) : Option String :=
  q.language.filter fun l => !(Text.trim l).isEmpty

end SymbolSearch

namespace Store

open SymbolSearch in
def searchSymbols (s : Store) (q : SymbolQuery) : Except Error SymbolAnswer :=
  let pattern := Text.trim q.pattern
  if pattern.isEmpty then .ok { pattern := pattern, fault := some .emptyPattern }
  else
    match kindOf q with
    | .error fault => .ok { pattern := pattern, fault := some fault }
    | .ok kind =>
      let filter : SymbolFilter := ⟨kind, languageOf q, q.codebase⟩
      let limit := clampLimit q.limit defaultLimit maxLimit
      (candidates s pattern filter limit).map fun symbols =>
        { pattern := pattern, results := scored (needle pattern) symbols }

end Store

end CodeAtlas
