import CodeAtlas.Index.Plan
import CodeAtlas.Registry
import CodeAtlas.Store.Transaction
import CodeAtlas.Text.Lines

/-! # The files of a run

Each file of a run is read, hashed, outlined and stored. A file that cannot be read, outlined
or stored is counted and keeps its rows. What is to be done about a file does not depend on
the store, so only the last step depends on what became of other files before.
-/

namespace CodeAtlas.IndexRun

/-- How far a run has come with its files. -/
structure Progress where
  store : Store
  indexed : Nat := 0
  unchanged : Nat := 0
  failed : Nat := 0
  deriving Repr, DecidableEq, Inhabited

/-- What all files of a run have in common. -/
structure Job where
  tree : FileTree
  frontEnd : FrontEnd
  codebase : Int
  /-- The hashes of files that need not be read again. -/
  known : List (String × String)

/-- What there is to be done about a file. -/
inductive Finding where
  | unchanged
  | unreadable
  /-- The front end breaks down. -/
  | crash (reason : String)
  | outlined (entry : FileEntry) (outline : Outline)

def Job.knows (j : Job) (path hash : String) : Bool :=
  ((j.known.find? fun e => e.1 == path).map fun e => e.2) == some hash

def Job.entry (j : Job) (path : String) (content : List UInt8) : FileEntry :=
  ⟨j.codebase, path, contentHash content, j.frontEnd.language, Text.lineCount content⟩

def Job.examine (j : Job) (f : ScannedFile) : Finding :=
  match j.tree.read [] f.absPath with
  | .error _ => .unreadable
  | .ok content =>
    if j.knows f.relPath (contentHash content) then .unchanged
    else
      match j.frontEnd.read f.relPath content (packageOfPath f.relPath) with
      | .crashed reason => .crash reason
      | .failed _ => .unreadable
      | .ok outline => .outlined (j.entry f.relPath content) outline

def Job.step (j : Job) (p : Progress) (f : ScannedFile) : Except String Progress :=
  match j.examine f with
  | .unchanged => .ok { p with unchanged := p.unchanged + 1 }
  | .unreadable => .ok { p with failed := p.failed + 1 }
  | .crash reason => .error reason
  | .outlined entry outline =>
    match p.store.replaceFile entry outline with
    | (.ok _, s) => .ok { p with store := s, indexed := p.indexed + 1 }
    | (.error _, s) => .ok { p with store := s, failed := p.failed + 1 }

def Job.crashes (j : Job) (f : ScannedFile) : Bool :=
  match j.examine f with
  | .crash _ => true
  | _ => false

end CodeAtlas.IndexRun
