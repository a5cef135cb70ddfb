import CodeAtlas.Digest.Sha256
import CodeAtlas.Files.Scan
import CodeAtlas.Store.Basic
import CodeAtlas.Vcs.ChangeSet

/-! # What a run will touch

A full run goes through all files that a scan finds and deletes the stored files that it
does not find. An incremental run goes through the files that changed since the stored
commit. Since the store follows the working tree and the commit does not, it also checks
every stored file that the change set leaves out.
-/

namespace CodeAtlas

/-- What version control tells about a directory. -/
structure ChangeDetector where
  head? : (root : String) → Option String := fun _ => none
  changesSince : (root commit : String) → Except Error ChangeSet := fun _ _ => .ok {}

inductive IndexMode where
  | full
  | incremental
  deriving Repr, DecidableEq, Inhabited

def IndexMode.text : IndexMode → String
  | .full => "full"
  | .incremental => "incremental"

structure IndexPlan where
  mode : IndexMode
  process : List ScannedFile
  delete : List String
  deriving Repr, DecidableEq, Inhabited

/-- The hash by which the content of a file is known. -/
def contentHash (content : List UInt8) : String := Sha256.hex content

namespace IndexPlan

def fileAt (root path : String) : ScannedFile := ⟨path, .ofText (Path.join root path)⟩

def isOnDisk (t : FileTree) (root path : String) : Bool := t.isFileAt [] (Path.join root path)

/-- Whether a stored file is on disk with the content it was stored with. -/
def isCurrent (t : FileTree) (root path hash : String) : Bool :=
  match t.read [] (Path.join root path) with
  | .ok content => contentHash content == hash
  | .error _ => false

def full (s : Store) (t : FileTree) (scanner : Scanner) (codebase : Int) (root : String) :
    Except Error IndexPlan :=
  match scanner.scan t [] root with
  | .error e => .error e
  | .ok found =>
    let paths := found.map fun f => f.relPath
    .ok ⟨.full, found,
      ((s.fileHashes codebase).map fun e => e.1).filter fun p => !paths.contains p⟩

/-- The paths of a change set that a run processes, and those that it deletes. -/
def ofChanges (t : FileTree) (scanner : Scanner) (root : String) (changes : ChangeSet) :
    IndexPlan :=
  let deleted := changes.deleted.filter scanner.accepts
  let changed := changes.changed.filter scanner.accepts
  { mode := .incremental
    process := (changed.filter (isOnDisk t root)).map (fileAt root)
    delete := deleted ++ changed.filter fun p => !isOnDisk t root p }

def paths (p : IndexPlan) : List String := (p.process.map fun f => f.relPath) ++ p.delete

/-- Add the stored files that a plan leaves out and that are gone or differ. -/
def reconcile (p : IndexPlan) (s : Store) (t : FileTree) (scanner : Scanner) (codebase : Int)
    (root : String) : IndexPlan :=
  let rest := (s.fileHashes codebase).filter fun e => !p.paths.contains e.1
  let (kept, gone) := rest.partition fun e => isOnDisk t root e.1 && scanner.accepts e.1
  { p with
    process := p.process
      ++ (kept.filter fun e => !isCurrent t root e.1 e.2).map fun e => fileAt root e.1
    delete := p.delete ++ gone.map fun e => e.1 }

def incremental (s : Store) (t : FileTree) (scanner : Scanner) (codebase : Int) (root : String)
    (changes : ChangeSet) : IndexPlan :=
  (ofChanges t scanner root changes).reconcile s t scanner codebase root

/-- The plan of a run. It is incremental when there is a commit to start from and version
control can tell what changed since. -/
def make (s : Store) (t : FileTree) (detector : ChangeDetector) (scanner : Scanner)
    (codebase : Int) (root : String) (base : Option String) : Except Error IndexPlan :=
  match base with
  | none => full s t scanner codebase root
  | some commit =>
    match detector.changesSince root commit with
    | .ok changes => .ok (incremental s t scanner codebase root changes)
    | .error _ => full s t scanner codebase root

end IndexPlan

end CodeAtlas
