import CodeAtlas.Number.Binary64

/-! # Status of index runs

Each codebase has one status: that of its latest run.
-/

namespace CodeAtlas

inductive IndexState where
  | idle
  | indexing
  | done
  | error
  deriving Repr, DecidableEq, Inhabited

def IndexState.text : IndexState → String
  | .idle => "idle"
  | .indexing => "indexing"
  | .done => "done"
  | .error => "error"

structure IndexStatus where
  state : IndexState := .idle
  progress : Binary64 := .zero
  filesTotal : Nat := 0
  filesDone : Nat := 0
  message : String := ""
  deriving Repr, DecidableEq, Inhabited

namespace IndexStatus

def starting : IndexStatus := { state := .indexing, message := "starting" }

/-- The number of files is known, and none is done. -/
def planned (s : IndexStatus) (total : Nat) (message : String) : IndexStatus :=
  { s with filesTotal := total, filesDone := 0, progress := .zero, message := message }

/-- The status that shows a number of files as done. -/
def withDone (s : IndexStatus) (done : Nat) : IndexStatus :=
  { s with filesDone := done, progress := .ofFraction false done (max s.filesTotal 1) }

def succeed (s : IndexStatus) (message : String) : IndexStatus :=
  { s with state := .done, progress := .one, message := message }

/-- A failed run keeps its progress. -/
def fail (s : IndexStatus) (message : String) : IndexStatus :=
  { s with state := .error, message := message }

end IndexStatus

/-- The status of each codebase that was ever indexed. -/
structure StatusTable where
  entries : List (Int × IndexStatus) := []
  deriving Repr, DecidableEq, Inhabited

namespace StatusTable

/-- A codebase that was never indexed is idle. -/
def get (t : StatusTable) (id : Int) : IndexStatus :=
  ((t.entries.find? fun e => e.1 == id).map fun e => e.2).getD {}

def erase (t : StatusTable) (id : Int) : StatusTable := ⟨t.entries.filter fun e => e.1 != id⟩

def set (t : StatusTable) (id : Int) (s : IndexStatus) : StatusTable :=
  ⟨(id, s) :: (t.erase id).entries⟩

def isIndexing (t : StatusTable) (id : Int) : Bool := (t.get id).state == .indexing

end StatusTable

end CodeAtlas
