import CodeAtlas.Files.Tree
import CodeAtlas.Number.Word
import CodeAtlas.Query.Fault
import CodeAtlas.Store.Lookup
import CodeAtlas.Text.Lines
import CodeAtlas.Text.Utf8

/-! # Source of a symbol

The store keeps only where a symbol stands. Its text is read from the file at the time of
the question, and cut to a budget.
-/

namespace CodeAtlas

structure SourceQuery where
  fqn : String
  includeBody : Option Bool := none
  maxTokens : Option Nat := none
  codebase : Option Int := none
  deriving Repr, DecidableEq, Inhabited

/-- A symbol found for a source query. -/
structure SourceTarget where
  symbol : PlacedSymbol
  /-- The path of the file. -/
  path : String
  /-- The number of symbols of this name. -/
  overloads : Nat
  deriving Repr, DecidableEq, Inhabited

structure SourceAnswer where
  fqn : String
  target : Option SourceTarget := none
  source : String := ""
  truncated : Bool := false
  fault : Option QueryFault := none
  deriving Repr, DecidableEq, Inhabited

namespace SourceText

def defaultMaxTokens : Nat := 2000

def charsPerToken : Nat := 4

/-- The number of characters that an answer may have. -/
def budget (maxTokens : Option Nat) : Nat :=
  min (max (maxTokens.getD defaultMaxTokens) 1 * charsPerToken) (Word.bound64 - 1)

/-- The first symbol of a name and where its file is. -/
def find? (s : Store) (fqn : String) (codebase : Option Int) : Option SourceTarget :=
  let symbols := s.symbolsNamed fqn codebase
  match symbols with
  | [] => none
  | first :: _ =>
    (s.codebase? first.file.data.codebase).map fun c =>
      ⟨first, Path.join c.data.rootPath first.file.data.path, symbols.length⟩

/-- The lines of a symbol in the content of its file. -/
def linesOf (content : List UInt8) (s : Symbol) : String :=
  Text.sliceLines (Text.decode content) s.lineStart s.lineEnd

/-- The answer that a text gives within the budget. -/
def cut (target : SourceTarget) (text : String) (maxTokens : Option Nat) : SourceAnswer :=
  let limit := budget maxTokens
  { fqn := target.symbol.symbol.fqn
    target := some target
    source := String.ofList (text.toList.take limit)
    truncated := decide (limit < text.length) }

/-- The text of a found symbol: its lines in the file, or its signature only. -/
def answer (t : FileTree) (target : SourceTarget) (includeBody : Bool) (maxTokens : Option Nat) :
    SourceAnswer :=
  if includeBody then
    match t.read [] target.path with
    | .ok content => cut target (linesOf content target.symbol.symbol) maxTokens
    | .error fault =>
      { fqn := target.symbol.symbol.fqn
        target := some target
        fault := some (.unreadable target.path fault) }
  else cut target target.symbol.symbol.signature maxTokens

end SourceText

namespace Store

open SourceText in
def readSource (s : Store) (t : FileTree) (q : SourceQuery) : SourceAnswer :=
  let fqn := Text.trim q.fqn
  if fqn.isEmpty then { fqn := fqn, fault := some .emptyName }
  else
    match find? s fqn q.codebase with
    | none => { fqn := fqn, fault := some (.symbolNotFound fqn) }
    | some target => answer t target (q.includeBody.getD true) q.maxTokens

end Store

end CodeAtlas
