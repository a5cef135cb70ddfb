import CodeAtlas.Error
import CodeAtlas.Store.Table
import CodeAtlas.Symbol

/-! # The store

The store keeps codebases, their files, and what the files yield. Symbols and imports
belong to a file; call edges and annotations belong to a codebase and are tied to a file
only by the names of its symbols. Deleting a codebase deletes all that belongs to it.
-/

namespace CodeAtlas

/-- A registered source tree. -/
structure Codebase where
  rootPath : String
  language : String
  name : String
  /-- The commit that the index stands at. -/
  commit : Option String := none
  indexedAt : Option String := none
  deriving Repr, DecidableEq, Inhabited

/-- An indexed file. Its path is relative to the root of its codebase. -/
structure FileEntry where
  codebase : Int
  path : String
  hash : String
  language : String
  lineCount : Nat
  deriving Repr, DecidableEq, Inhabited

/-- A record of a file or a codebase. -/
structure Owned (α : Type) where
  owner : Int
  item : α
  deriving Repr, DecidableEq, Inhabited

structure Store where
  codebases : Table Codebase := {}
  files : Table FileEntry := {}
  /-- Symbols, owned by files. -/
  symbols : Table (Owned Symbol) := {}
  /-- Call edges, owned by codebases. -/
  calls : Table (Owned CallEdge) := {}
  /-- Annotations, owned by codebases. -/
  annotations : Table (Owned Annotation) := {}
  /-- Imports, owned by files. -/
  imports : Table (Owned Import) := {}
  deriving Repr, DecidableEq, Inhabited

namespace Store

def empty : Store := {}

/-! ## Codebases -/

def codebase? (s : Store) (id : Int) : Option (Row Codebase) := s.codebases.get? id

def codebaseAt? (s : Store) (rootPath : String) : Option (Row Codebase) :=
  s.codebases.find? fun c => c.rootPath == rootPath

/-- The store with a codebase at a root, and that codebase. A root that is taken keeps its
codebase, but the id for the new one is spent. -/
def upsertCodebase (s : Store) (rootPath language name : String) : Store × Row Codebase :=
  match s.codebaseAt? rootPath with
  | some row => ({ s with codebases := s.codebases.skipId }, row)
  | none =>
    let entry : Codebase :=
      { rootPath := rootPath, language := Text.asciiLower language, name := name }
    ({ s with codebases := s.codebases.insert entry }, ⟨s.codebases.lastId + 1, entry⟩)

def markIndexed (s : Store) (id : Int) (commit : Option String) (time : String) : Store :=
  match s.codebase? id with
  | some row =>
    { s with codebases :=
        s.codebases.set id { row.data with commit := commit, indexedAt := some time } }
  | none => s

def fileIds (s : Store) (codebase : Int) : List Int :=
  (s.files.rows.filter fun r => r.data.codebase == codebase).map fun r => r.id

/-- The store without a codebase and all that belongs to it; none when there is no such
codebase. -/
def deleteCodebase? (s : Store) (id : Int) : Option Store :=
  match s.codebase? id with
  | none => none
  | some _ =>
    let files := s.fileIds id
    some
      { codebases := s.codebases.erase fun r => r.id == id
        files := s.files.erase fun r => r.data.codebase == id
        symbols := s.symbols.erase fun r => files.contains r.data.owner
        calls := s.calls.erase fun r => r.data.owner == id
        annotations := s.annotations.erase fun r => r.data.owner == id
        imports := s.imports.erase fun r => files.contains r.data.owner }

/-! ## Files -/

def file? (s : Store) (codebase : Int) (path : String) : Option (Row FileEntry) :=
  s.files.find? fun f => f.codebase == codebase && f.path == path

def fileHashes (s : Store) (codebase : Int) : List (String × String) :=
  (s.files.rows.filter fun r => r.data.codebase == codebase).map fun r => (r.data.path, r.data.hash)

def namesIn (s : Store) (file : Int) : List String :=
  (s.symbols.rows.filter fun r => r.data.owner == file).map fun r => r.data.item.fqn

/-- The store with a file entry written, and the id of the file. An entry at a path that is
taken keeps its id, but the id for a new one is spent. -/
def upsertFile (s : Store) (entry : FileEntry) : Store × Int :=
  match s.file? entry.codebase entry.path with
  | some row => ({ s with files := (s.files.set row.id entry).skipId }, row.id)
  | none => ({ s with files := s.files.insert entry }, s.files.lastId + 1)

end Store

end CodeAtlas
