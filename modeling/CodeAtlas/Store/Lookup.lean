import CodeAtlas.Pattern.Like
import CodeAtlas.Store.Basic

/-! # Looking things up

Reads of the store. Each has a fixed order, which ends in the id, so that the rows come in
one order only.
-/

namespace CodeAtlas

/-- A symbol with its id and its file. -/
structure PlacedSymbol where
  id : Int
  file : Row FileEntry
  symbol : Symbol
  deriving Repr, DecidableEq, Inhabited

/-- What a symbol has to satisfy besides a pattern. -/
structure SymbolFilter where
  kind : Option SymbolKind := none
  language : Option String := none
  codebase : Option Int := none
  deriving Repr, DecidableEq, Inhabited

def isOpenOr {α : Type} [BEq α] (choice : Option α) (a : α) : Bool :=
  match choice with
  | none => true
  | some b => a == b

def SymbolFilter.accepts (f : SymbolFilter) (p : PlacedSymbol) : Bool :=
  isOpenOr f.kind p.symbol.kind
    && isOpenOr (f.language.map Text.asciiLower) p.file.data.language
    && isOpenOr f.codebase p.file.data.codebase

/-- The first elements of a list; a limit below zero is none. -/
def takeLimit {α : Type} (limit : Int) (xs : List α) : List α :=
  if limit < 0 then xs else xs.take limit.toNat

/-- A list sorted by a comparison. Elements that compare equal keep their order. -/
def sortBy {α : Type} (order : α → α → Ordering) (xs : List α) : List α :=
  xs.mergeSort fun a b => (order a b).isLE

def thenBy {α : Type} (first second : α → α → Ordering) (a b : α) : Ordering :=
  (first a b).then (second a b)

def byKey {α β : Type} [Ord β] (key : α → β) (a b : α) : Ordering := compare (key a) (key b)

namespace Store

def place? (s : Store) (r : Row (Owned Symbol)) : Option PlacedSymbol :=
  (s.files.get? r.data.owner).map fun f => ⟨r.id, f, r.data.item⟩

def placedSymbols (s : Store) : List PlacedSymbol := s.symbols.rows.filterMap s.place?

/-- The symbols of a name, by codebase and line. -/
def symbolsNamed (s : Store) (fqn : String) (codebase : Option Int) : List PlacedSymbol :=
  sortBy
    (thenBy (byKey fun p => p.file.data.codebase)
      (thenBy (byKey fun p => p.symbol.lineStart) (byKey PlacedSymbol.id)))
    (s.placedSymbols.filter fun p => p.symbol.fqn == fqn && isOpenOr codebase p.file.data.codebase)

/-- The symbols of a file by line. -/
def symbolsIn (s : Store) (file : Int) : List PlacedSymbol :=
  sortBy (thenBy (byKey fun p => p.symbol.lineStart) (byKey PlacedSymbol.id))
    (s.placedSymbols.filter fun p => p.file.id == file)

/-- The length of a text up to its first NUL character. -/
def storedLength (s : String) : Nat := (s.toList.takeWhile fun c => c.toNat != 0).length

/-- The order of search results: short names first, then by qualified name. Within one
codebase, symbols of a file stay together. -/
def resultOrder (codebase : Option Int) : PlacedSymbol → PlacedSymbol → Ordering :=
  thenBy (byKey fun p => storedLength p.symbol.name)
    (thenBy (byKey fun p => p.symbol.fqn)
      (if codebase.isSome then thenBy (byKey fun p => p.file.id) (byKey PlacedSymbol.id)
      else byKey PlacedSymbol.id))

/-- The symbols whose name or qualified name is LIKE a pattern. -/
def symbolsLike (s : Store) (pattern : String) (filter : SymbolFilter) (limit : Int) :
    List PlacedSymbol :=
  takeLimit limit (sortBy (resultOrder filter.codebase) (s.placedSymbols.filter fun p =>
    (like p.symbol.name pattern || like p.symbol.fqn pattern) && filter.accepts p))

/-- The calls from a routine, by line. -/
def callsFrom (s : Store) (fqn : String) (codebase : Option Int) : List (Row (Owned CallEdge)) :=
  sortBy (thenBy (byKey fun r => r.data.item.line) (byKey Row.id))
    (s.calls.rows.filter fun r => r.data.item.caller == fqn && isOpenOr codebase r.data.owner)

/-- The calls to a routine, by caller and line. -/
def callsTo (s : Store) (fqn : String) (codebase : Option Int) : List (Row (Owned CallEdge)) :=
  sortBy
    (thenBy (byKey fun r => r.data.item.caller)
      (thenBy (byKey fun r => r.data.item.line) (byKey Row.id)))
    (s.calls.rows.filter fun r => r.data.item.callee == fqn && isOpenOr codebase r.data.owner)

/-- Whether an annotation goes by a name: its own, or the last part of a qualified one. -/
def goesBy (full name : String) : Bool :=
  full == name || Text.finishesWith full ("." ++ name)

/-- The annotations of a name, by codebase and symbol. -/
def annotationsNamed (s : Store) (name : String) (scope : Option AnnotationScope)
    (codebase : Option Int) : List (Row (Owned Annotation)) :=
  sortBy
    (thenBy (byKey fun r => r.data.owner)
      (thenBy (byKey fun r => r.data.item.symbol) (byKey Row.id)))
    (s.annotations.rows.filter fun r =>
      goesBy r.data.item.name name && isOpenOr scope r.data.item.scope
        && isOpenOr codebase r.data.owner)

end Store

end CodeAtlas
