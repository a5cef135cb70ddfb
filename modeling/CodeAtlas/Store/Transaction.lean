import CodeAtlas.Store.Basic

/-! # Statements and transactions

What is done with a store is a script of statements over a connection. A statement takes
effect as a whole, or fails and has none. An error ends the script and keeps what the
statements before it did; only a transaction takes that back. Inside one the statements work
on a draft, and what was not committed is gone when the transaction is left.
-/

namespace CodeAtlas

structure Connection where
  /-- The store as it was committed. -/
  store : Store
  /-- The store of the open transaction. -/
  draft : Option Store := none
  deriving Repr, DecidableEq, Inhabited

namespace Connection

def view (c : Connection) : Store := c.draft.getD c.store

/-- Outside of a transaction, what is written is committed at once. -/
def write (c : Connection) (s : Store) : Connection :=
  match c.draft with
  | none => ⟨s, none⟩
  | some _ => ⟨c.store, some s⟩

def opened (c : Connection) : Connection := ⟨c.store, some c.store⟩

def commit (c : Connection) : Connection := ⟨c.view, none⟩

def rollback (c : Connection) : Connection := ⟨c.store, none⟩

end Connection

abbrev Script := ExceptT Error (StateM Connection)

namespace Script

variable {α : Type}

/-- The answer of a script, and the connection that it leaves behind. -/
def result (x : Script α) (c : Connection) : Except Error α × Connection := x.run.run c

def query (f : Store → α) : Script α := return f (← get).view

/-- The row that a query finds; that there is none is an error. -/
def queryRow (f : Store → Option α) : Script α := do
  match ← query f with
  | some a => return a
  | none => throw .noRow

def statement (f : Store → Except Error Store) : Script Unit := do
  let c ← get
  match f c.view with
  | .ok s => set (c.write s)
  | .error e => throw e

def change (f : Store → Store) : Script Unit := statement fun s => .ok (f s)

/-- A statement that cannot fail and tells something. -/
def returning (f : Store → Store × α) : Script α := do
  let c ← get
  set (c.write (f c.view).1)
  return (f c.view).2

def commit : Script Unit := modify Connection.commit

def transaction (body : Script α) : Script α :=
  ExceptT.mk do
    modify Connection.opened
    let answer ← body.run
    modify Connection.rollback
    return answer

end Script

namespace Store

/-- Run a script on a store; what is left is what was committed. -/
def submit {α : Type} (s : Store) (x : Script α) : Except Error α × Store :=
  ((x.result ⟨s, none⟩).1, (x.result ⟨s, none⟩).2.store)

/-! ## Statements -/

/-- A file entry is written for a codebase that is there. -/
def writeFile (entry : FileEntry) (s : Store) : Except Error Store :=
  match s.codebase? entry.codebase with
  | none => .error .danglingReference
  | some _ => .ok (s.upsertFile entry).1

def eraseFile (file : Int) (s : Store) : Store :=
  { s with files := s.files.erase fun r => r.id == file }

def eraseSymbols (file : Int) (s : Store) : Store :=
  { s with symbols := s.symbols.erase fun r => r.data.owner == file }

def eraseCalls (codebase : Int) (caller : String) (s : Store) : Store :=
  { s with
    calls := s.calls.erase fun r => r.data.owner == codebase && r.data.item.caller == caller }

def eraseAnnotations (codebase : Int) (symbol : String) (s : Store) : Store :=
  { s with
    annotations :=
      s.annotations.erase fun r => r.data.owner == codebase && r.data.item.symbol == symbol }

def eraseImports (file : Int) (s : Store) : Store :=
  { s with imports := s.imports.erase fun r => r.data.owner == file }

def addSymbol (file : Int) (a : Symbol) (s : Store) : Store :=
  { s with symbols := s.symbols.insert ⟨file, a⟩ }

/-- A call edge is added. A confidence that is not a number would be stored as no value. -/
def addCall (codebase : Int) (a : CallEdge) (s : Store) : Except Error Store :=
  if a.confidence = .nan then .error (.missingValue "call_edges.confidence")
  else .ok { s with calls := s.calls.insert ⟨codebase, a⟩ }

def annotate (codebase : Int) (a : Annotation) (s : Store) : Store :=
  { s with annotations := s.annotations.insert ⟨codebase, a⟩ }

def addImport (file : Int) (a : Import) (s : Store) : Store :=
  { s with imports := s.imports.insert ⟨file, a⟩ }

end Store

/-! ## Files -/

namespace Script

open Store

/-- Drop what a file yields: its symbols and imports, and the call edges and annotations of
its codebase at the names it declares. -/
def purge (codebase file : Int) : Script Unit := do
  let names ← query fun s => s.namesIn file
  names.forM fun name => do
    change (eraseCalls codebase name)
    change (eraseAnnotations codebase name)
  change (eraseSymbols file)
  change (eraseImports file)

def record (codebase file : Int) (outline : Outline) : Script Unit := do
  outline.symbols.forM fun a => change (addSymbol file a)
  outline.calls.forM fun a => statement (addCall codebase a)
  outline.annotations.forM fun a => change (annotate codebase a)
  outline.imports.forM fun a => change (addImport file a)

/-- Write a file entry and what its file yields, up to the commit. -/
def rewrite (entry : FileEntry) (outline : Outline) : Script Int := do
  statement (writeFile entry)
  let row ← queryRow fun s => s.file? entry.codebase entry.path
  purge entry.codebase row.id
  record entry.codebase row.id outline
  return row.id

/-- Replace everything about one file. The answer is the id of the file. -/
def replaceFile (entry : FileEntry) (outline : Outline) : Script Int :=
  transaction do
    let id ← rewrite entry outline
    commit
    return id

/-- Delete a file and what it yields. The answer is whether there was one. -/
def deleteFile (codebase : Int) (path : String) : Script Bool :=
  transaction do
    match ← query fun s => s.file? codebase path with
    | none => return false
    | some row =>
      purge codebase row.id
      change (eraseFile row.id)
      commit
      return true

/-- Delete a codebase and all that belongs to it. The answer is whether there was one. -/
def deleteCodebase (id : Int) : Script Bool :=
  returning fun s =>
    match s.deleteCodebase? id with
    | none => (s, false)
    | some s' => (s', true)

end Script

namespace Store

/-- The id of the file that was replaced or the error, and the store that is left. -/
def replaceFile (s : Store) (entry : FileEntry) (outline : Outline) : Except Error Int × Store :=
  s.submit (.replaceFile entry outline)

/-- The store without a file and what it yields; none when there is no such file. -/
def deleteFile? (s : Store) (codebase : Int) (path : String) : Option Store :=
  match s.submit (.deleteFile codebase path) with
  | (.ok true, s) => some s
  | _ => none

end Store

end CodeAtlas
