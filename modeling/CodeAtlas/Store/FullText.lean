import CodeAtlas.Store.Lookup
import CodeAtlas.Text.SearchToken

/-! # Full-text search

A symbol is a document with three columns: its name, its qualified name and its signature.
A term is a phrase, whose tokens must stand next to each other in one column. Hits are
ranked by BM25 over all documents of the store, before any filter. A NUL character cuts a term
off, which is an error.
-/

namespace CodeAtlas

namespace FullText

abbrev Token := List Char

/-- Whether a phrase stands at the front of a column. -/
def startsAt : (phrase column : List Token) → Bool
  | [], _ => true
  | _ :: _, [] => false
  | p :: phrase, c :: column => p == c && startsAt phrase column

/-- The number of places in a column where a phrase stands. -/
def occurrences (phrase : List Token) : List Token → Nat
  | [] => 0
  | c :: column =>
    (if startsAt phrase (c :: column) then 1 else 0) + occurrences phrase column

def columns (s : Symbol) : List (List Token) :=
  [Text.searchTokens s.name, Text.searchTokens s.fqn, Text.searchTokens s.signature]

/-- How a document fares: how often it has the phrase, and how many tokens it has. -/
structure Tally where
  hits : Nat
  size : Nat
  deriving Repr, DecidableEq, Inhabited

def total (ns : List Nat) : Nat := ns.foldr (· + ·) 0

def tally (phrase : List Token) (s : Symbol) : Tally :=
  let cols := columns s
  ⟨total (cols.map (occurrences phrase)), total (cols.map List.length)⟩

/-- How much a phrase tells that `found` of `total` documents have. -/
def inverseFrequency (total found : Nat) : Float :=
  let idf := Float.log ((total.toFloat - found.toFloat + 0.5) / (found.toFloat + 0.5))
  if idf ≤ 0.0 then 1e-6 else idf

/-- The rank of a document; a lower one is better. -/
def rank (idf average : Float) (t : Tally) : Float :=
  let frequency := t.hits.toFloat
  let length := 0.25 + 0.75 * t.size.toFloat / average
  let score := idf * ((frequency * 2.2) / (frequency + 1.2 * length))
  Float.neg score

end FullText

namespace Store

open FullText in
/-- The symbols that have a phrase, the best first. -/
def symbolsWith (s : Store) (phrase : List Token) (filter : SymbolFilter) (limit : Int) :
    List PlacedSymbol :=
  if phrase.isEmpty then []
  else
    let documents : List (PlacedSymbol × Tally) :=
      s.placedSymbols.map fun p => (p, tally phrase p.symbol)
    let hits := documents.filter fun d => 0 < d.2.hits
    let size := total (documents.map fun d => d.2.size)
    let average := size.toFloat / documents.length.toFloat
    let idf := inverseFrequency documents.length hits.length
    let ranked := (hits.map fun d => (d.1, rank idf average d.2)).mergeSort
      fun a b => !(b.2 < a.2)
    takeLimit limit ((ranked.map fun d => d.1).filter filter.accepts)

/-- The symbols that match a term, the best first. -/
def symbolsMatching (s : Store) (term : String) (filter : SymbolFilter) (limit : Int) :
    Except Error (List PlacedSymbol) :=
  if term.toList.contains (Char.ofNat 0) then .error .unterminatedTerm
  else .ok (s.symbolsWith (Text.searchTokens term) filter limit)

end Store

end CodeAtlas
