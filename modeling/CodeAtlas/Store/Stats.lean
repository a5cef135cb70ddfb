import CodeAtlas.Store.Lookup

/-! # Counting rows -/

namespace CodeAtlas

structure StoreStats where
  codebases : Nat
  files : Nat
  symbols : Nat
  calls : Nat
  annotations : Nat
  imports : Nat
  deriving Repr, DecidableEq, Inhabited

/-- A codebase with the number of its files and symbols. -/
structure CodebaseSummary where
  codebase : Row Codebase
  files : Nat
  symbols : Nat
  deriving Repr, DecidableEq, Inhabited

namespace Store

def stats (s : Store) : StoreStats :=
  ⟨s.codebases.size, s.files.size, s.symbols.size, s.calls.size, s.annotations.size,
    s.imports.size⟩

def codebaseStats (s : Store) (id : Int) : StoreStats :=
  let files := s.fileIds id
  { codebases := s.codebases.countWhere fun r => r.id == id
    files := s.files.countWhere fun r => r.data.codebase == id
    symbols := s.symbols.countWhere fun r => files.contains r.data.owner
    calls := s.calls.countWhere fun r => r.data.owner == id
    annotations := s.annotations.countWhere fun r => r.data.owner == id
    imports := s.imports.countWhere fun r => files.contains r.data.owner }

/-- All codebases by id, with the numbers of their files and of the symbols that stand in one
of these. -/
def summaries (s : Store) : List CodebaseSummary :=
  (sortBy (byKey Row.id) s.codebases.rows).map fun row =>
    { codebase := row
      files := s.files.countWhere fun f => f.data.codebase == row.id
      symbols := (s.symbols.rows.flatMap fun r =>
        s.files.rows.filter fun f => r.data.owner == f.id && f.data.codebase == row.id).length }

end Store

end CodeAtlas
