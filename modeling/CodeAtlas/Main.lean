import CodeAtlas.Cli.Run

/-! # The program

Reads what a command may look at into a file tree, runs the command, and writes the database
back when it changed.
-/

namespace CodeAtlas.Cli

/-- The environment variables that settings come from. -/
def settingNames : List String :=
  ["CODESCOPE_DB", "CODESCOPE_IN_MEMORY", "CODESCOPE_HOST", "CODESCOPE_PORT",
    "CODESCOPE_INDEX_CONCURRENCY", "CODESCOPE_GIT_TIMEOUT_SECS", "CODESCOPE_READ_TIMEOUT_SECS",
    "CODESCOPE_EXCLUDE_DIRS"]

def environment : IO Settings.Environment :=
  settingNames.filterMapM fun name => do pure ((← IO.getEnv name).map fun value => (name, value))

def namesOf (path : String) : List FileName := (Path.names path).map .text

/-- The tree below an absolute path, put into a tree. Directories that are never entered are
left out. -/
partial def load (skipped : List String) (tree : FileTree) (path : String) : IO FileTree := do
  let here := (← IO.currentDir) / path
  if ← here.isDir then
    let mut tree := tree.makeDir (namesOf path)
    for entry in ← here.readDir do
      unless skipped.contains entry.fileName do
        tree ← load skipped tree (Path.join path entry.fileName)
    pure tree
  else if ← here.pathExists then
    pure (tree.write (namesOf path) (← IO.FS.readBinFile path).toList)
  else pure tree

def absolutePath (path : String) : IO String := do
  try pure (← IO.FS.realPath path).toString
  catch _ => pure (Path.join (← IO.currentDir).toString path)

/-- The database file of the settings, as it is known to the file system. -/
def databaseFile (settings : Settings) : IO String := absolutePath settings.databasePath

/-- The paths that a command looks at, besides the database. -/
def sourcesOf : Command → List String
  | .index path _ _ => [path]
  | _ => []

def execute (args : List String) : IO UInt32 := do
  let env ← environment
  let cwd := (← IO.currentDir).toString
  let mut tree := FileTree.empty.makeDir (namesOf cwd)
  let name := args.headD ""
  let settings := (settingsOf env name args).toOption
  let command := (commandOf name (args.drop 1) args).toOption
  let database ← settings.mapM databaseFile
  for path in (command.map sourcesOf).getD [] do
    tree ← load ((settings.map Settings.excluded).getD []) tree (← absolutePath path)
  for path in database.toList do
    tree ← load [] tree path
  let now := toString (← IO.monoMsNow)
  let (after, outcome) := run { tree := tree, cwd := namesOf cwd, now := now } env args
  for path in database.toList do
    match after.at? (namesOf path) with
    | some (.file content) => IO.FS.writeBinFile path (ByteArray.mk content.toArray)
    | _ => pure ()
  IO.print outcome.out
  IO.eprint outcome.err
  pure (UInt32.ofNat outcome.code)

end CodeAtlas.Cli

def main (args : List String) : IO UInt32 := CodeAtlas.Cli.execute args
