import CodeAtlas.Index.Workers

/-! # Index runs

A run first checks that its language is known and its root is there. Then it deletes what its
plan says, and has its files worked through. A front end that breaks down ends the run with an
error.
-/

namespace CodeAtlas

/-- The outcome of a run. -/
structure IndexSummary where
  codebase : Int
  mode : IndexMode
  filesTotal : Nat
  indexed : Nat
  unchanged : Nat
  deleted : Nat
  failed : Nat
  commit : Option String
  deriving Repr, DecidableEq, Inhabited

def IndexSummary.message (s : IndexSummary) : String :=
  s!"{s.mode.text} index: {s.indexed} indexed, {s.unchanged} unchanged, {s.deleted} deleted, "
    ++ s!"{s.failed} failed"

/-- A claimed run. -/
structure OpenRun where
  /-- The codebase as it was when the run was claimed. -/
  codebase : Row Codebase
  /-- Files are stored again even when they did not change. -/
  force : Bool
  deriving Repr, DecidableEq, Inhabited

def OpenRun.base? (r : OpenRun) : Option String :=
  if r.force then none else r.codebase.data.commit

/-- What is seen of the world. -/
structure Surroundings where
  tree : FileTree
  /-- The tree that a run sees when it begins. -/
  begun : FileTree := tree
  cwd : List FileName := []
  detector : ChangeDetector := {}
  /-- How the workers of a run take turns. -/
  schedule : IndexRun.Schedule := .oneWorker
  /-- The current time. -/
  now : String

namespace IndexRun

/-- The files of a plan that are deleted, and how many of them were stored. -/
def deleteAll (codebase : Int) (s : Store) : List String → Store × Nat
  | [] => (s, 0)
  | path :: rest =>
    match s.deleteFile? codebase path with
    | some s => let (s, n) := deleteAll codebase s rest; (s, n + 1)
    | none => deleteAll codebase s rest

/-- What a run leaves behind. -/
structure Report where
  store : Store
  status : IndexStatus
  outcome : Except Error IndexSummary

def Report.failure (s : Store) (status : IndexStatus) (e : Error) : Report :=
  ⟨s, status.fail e.message, .error e⟩

/-- The front end for a codebase, when its language is known and its root is there. -/
def check (registry : Registry) (w : Surroundings) (c : Codebase) : Except Error FrontEnd :=
  match registry.forLanguage c.language with
  | none => .error (.unsupportedLanguage c.language)
  | some frontEnd =>
    if w.begun.isDirAt [] c.rootPath then .ok frontEnd
    else .error (.rootNotADirectory c.rootPath)

/-- Carry out a plan. The stored commit moves to the head only when no file failed. -/
def carryOut (r : OpenRun) (w : Surroundings) (frontEnd : FrontEnd) (s : Store)
    (status : IndexStatus) (head : Option String) (plan : IndexPlan) : Report :=
  let id := r.codebase.id
  let (s, deleted) := deleteAll id s plan.delete
  let total := plan.process.length
  let status := status.planned total s!"{plan.mode.text} index in progress"
  let known := if r.force then [] else s.fileHashes id
  let pool := Job.all ⟨w.tree, frontEnd, id, known⟩ w.schedule plan.process ⟨s, 0, 0, 0⟩ status
  let p := pool.progress
  match pool.reason? with
  | some reason => .failure p.store pool.status (.panicked reason)
  | none =>
    let summary : IndexSummary :=
      ⟨id, plan.mode, total, p.indexed, p.unchanged, deleted, p.failed, head⟩
    let commit := if p.failed == 0 then head else r.codebase.data.commit
    ⟨p.store.markIndexed id commit w.now, pool.status.succeed summary.message, .ok summary⟩

def run (registry : Registry) (excluded : List String) (r : OpenRun) (w : Surroundings)
    (s : Store) (status : IndexStatus) : Report :=
  match check registry w r.codebase.data with
  | .error e => .failure s status e
  | .ok frontEnd =>
    let root := r.codebase.data.rootPath
    let scanner := Scanner.make frontEnd.extensions excluded true
    match IndexPlan.make s w.tree w.detector scanner r.codebase.id root r.base? with
    | .error e => .failure s status e
    | .ok plan => carryOut r w frontEnd s status (w.detector.head? root) plan

end IndexRun

end CodeAtlas
