import CodeAtlas.Index.Run
import CodeAtlas.Settings
import CodeAtlas.Store.Stats

/-! # The service

The service registers codebases, runs indexes and keeps their status. At most one run of a
codebase is open at a time; while it is, the codebase can neither be claimed again nor
deleted.
-/

namespace CodeAtlas

structure Service where
  store : Store := {}
  statuses : StatusTable := {}
  /-- The runs that were claimed and have not ended. -/
  runs : List OpenRun := []
  registry : Registry := .default
  excluded : List String := defaultExcluded

namespace Service

/-- The name of a codebase: the wanted one, or that of its directory. -/
def codebaseName (wanted : Option String) (root : String) : String :=
  match chosenName? wanted with
  | some name => name
  | none => (Path.fileName? root).getD root
where
  /-- A blank name is no name. -/
  chosenName? (wanted : Option String) : Option String :=
    (wanted.map Text.trim).filter fun n => !n.isEmpty

/-- Register the codebase at a directory, or find it registered. -/
def register (s : Service) (w : Surroundings) (rootPath language : String)
    (name : Option String) : Except Error (Service × Row Codebase) :=
  match w.tree.resolve w.cwd rootPath with
  | .error _ => .error (.notADirectory rootPath)
  | .ok names =>
    if ((w.tree.at? names).map FileTree.isDir) != some true then .error (.notADirectory rootPath)
    else
      let root := Path.absolute (names.map FileName.shown)
      match s.store.codebaseAt? root with
      | some row => .ok (s, row)
      | none =>
        let (store, row) := s.store.upsertCodebase root language (codebaseName name root)
        .ok ({ s with store := store }, row)

def delete (s : Service) (id : Int) : Except Error Service :=
  if s.statuses.isIndexing id then .error (.alreadyIndexing id)
  else
    match s.store.deleteCodebase? id with
    | none => .error (.codebaseNotFound id)
    | some store => .ok { s with store := store, statuses := s.statuses.erase id }

def status (s : Service) (id : Int) : IndexStatus := s.statuses.get id

def claim (s : Service) (id : Int) (force : Bool) : Except Error Service :=
  match s.store.codebase? id with
  | none => .error (.codebaseNotFound id)
  | some row =>
    if s.statuses.isIndexing id then .error (.alreadyIndexing id)
    else
      .ok { s with
        statuses := s.statuses.set id .starting
        runs := s.runs ++ [⟨row, force⟩] }

def openRun? (s : Service) (id : Int) : Option OpenRun :=
  s.runs.find? fun r => r.codebase.id == id

def finish (s : Service) (w : Surroundings) (r : OpenRun) :
    Service × Except Error IndexSummary :=
  let id := r.codebase.id
  let report := IndexRun.run s.registry s.excluded r w s.store (s.statuses.get id)
  ({ s with
      store := report.store
      statuses := s.statuses.set id report.status
      runs := s.runs.filter fun o => o.codebase.id != id },
    report.outcome)

def index (s : Service) (w : Surroundings) (id : Int) (force : Bool) :
    Service × Except Error IndexSummary :=
  match s.claim id force with
  | .error e => (s, .error e)
  | .ok s =>
    match s.openRun? id with
    | some r => s.finish w r
    | none => (s, .error (.codebaseNotFound id))

end Service

end CodeAtlas
