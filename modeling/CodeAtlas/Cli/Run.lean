import CodeAtlas.Cli.Database
import CodeAtlas.Cli.Report
import CodeAtlas.Service

/-! # Running commands -/

namespace CodeAtlas.Cli

/-- What a command did: its exit code, and what it printed. -/
structure Outcome where
  code : Nat := 0
  out : String := ""
  err : String := ""
  deriving Repr, DecidableEq, Inhabited

/-- Causes with their numbers, when there are several. -/
def causeLines (causes : List String) : List String :=
  match causes with
  | [cause] => ["    " ++ cause]
  | _ => causes.zipIdx.map fun c => s!"    {c.2}: {c.1}"

def Failure.outcome (f : Failure) : Outcome where
  code := 1
  err := unlines (s!"Error: {f.message}"
    :: (if f.causes.isEmpty then [] else ["", "Caused by:"] ++ causeLines f.causes))

def withStore (w : Surroundings) (settings : Settings) (report : Store → Except Error String) :
    FileTree × Outcome :=
  match openDatabase w.tree w.cwd settings with
  | .error f => (w.tree, f.outcome)
  | .ok (tree, database) =>
    (database.save tree,
      match report database.store with
      | .ok out => { out := out }
      | .error e => (Failure.ofError e).outcome)

def index (w : Surroundings) (settings : Settings) (path language : String) (full : Bool) :
    FileTree × Outcome :=
  match w.tree.resolve w.cwd path with
  | .error fault => (w.tree, Failure.outcome ⟨s!"Invalid path: {path}", [fault.message]⟩)
  | .ok names =>
    match openDatabase w.tree w.cwd settings with
    | .error f => (w.tree, f.outcome)
    | .ok (tree, database) =>
      let w := { w with tree := tree, begun := tree }
      let service : Service := { store := database.store, excluded := settings.excluded }
      match service.register w (Path.absolute (names.map FileName.shown)) language none with
      | .error e => (database.save tree, (Failure.ofError e).outcome)
      | .ok (service, row) =>
        let (service, outcome) := service.index w row.id full
        let tree := Database.save { database with store := service.store } tree
        match outcome with
        | .error e => (tree, (Failure.ofError e).outcome)
        | .ok summary =>
          (tree, { out := indexReport row summary (service.store.codebaseStats row.id) })

def perform (w : Surroundings) (settings : Settings) : Command → FileTree × Outcome
  | .serve =>
    (w.tree, Failure.outcome ⟨s!"cannot listen on {settings.bindAddress}", []⟩)
  | .index path language full => index w settings path language full
  | .status => withStore w settings fun s => .ok (statusReport settings s)
  | .search pattern kind =>
    withStore w settings fun s =>
      (s.searchSymbols { pattern := pattern, kind := kind }).map (searchReport pattern)
  | .chain fqn toCallers depth =>
    withStore w settings fun s =>
      .ok (chainReport fqn toCallers (s.callChain
        { fqn := fqn
          direction := some (if toCallers then Direction.callers.text else Direction.callees.text)
          depth := depth }))
  | .incomplete usage => (w.tree, { err := unlines ["Usage: codescope " ++ usage] })
  | .unknown name => (w.tree, { out := usage, err := unlines ["Unknown command: " ++ name] })

/-- Run the program with arguments. The tree may change: the database is written to it. -/
def run (w : Surroundings) (env : Settings.Environment) (args : List String) :
    FileTree × Outcome :=
  match args with
  | [] => (w.tree, { out := usage })
  | name :: rest =>
    if ["help", "--help", "-h"].contains name then (w.tree, { out := usage })
    else if ["--version", "-V", "version"].contains name then (w.tree, { out := version })
    else
      let parsed := do
        let settings ← settingsOf env name args
        let command ← commandOf name rest args
        pure (settings, command)
      match parsed with
      | .error f => (w.tree, f.outcome)
      | .ok (settings, command) => perform w settings command

end CodeAtlas.Cli
