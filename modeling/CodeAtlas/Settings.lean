import CodeAtlas.Error
import CodeAtlas.Number.Reader
import CodeAtlas.Text.Blank

/-! # Settings

The settings of the service, read from environment variables over their defaults.
-/

namespace CodeAtlas

def defaultExcluded : List String :=
  [".git", ".svn", ".idea", ".gradle", ".mvn", "node_modules", "target", "build", "out", "dist",
    "bin", ".codescope"]

structure Settings where
  databasePath : String := "codescope.db"
  inMemory : Bool := false
  host : String := "127.0.0.1"
  tcpPort : Nat := 8400
  /-- The number of workers, where it is set. -/
  workers : Option Nat := none
  gitTimeout : Nat := 30
  readTimeout : Nat := 10
  excluded : List String := defaultExcluded
  deriving Repr, DecidableEq, Inhabited

namespace Settings

abbrev Environment := List (String × String)

def value? (env : Environment) (name : String) : Option String :=
  (env.find? fun e => e.1 == name).map fun e => e.2

/-- The value of a variable as a number; blanks around it do not count. -/
def number (env : Environment) (name : String) (read : String → Option Nat) :
    Except Error (Option Nat) :=
  match value? env name with
  | none => .ok none
  | some raw =>
    match read (Text.trim raw) with
    | some n => .ok (some n)
    | none => .error (.invalidSetting name raw)

def nameList (s : String) : List String :=
  ((Text.pieces ',' s).map Text.trim).filter fun d => !d.isEmpty

/-- The settings that an environment asks for. The first faulty variable is reported. -/
def ofEnvironment (env : Environment) : Except Error Settings := do
  let base : Settings := {}
  let tcpPort ← number env "CODESCOPE_PORT" Number.word16?
  let workers ← number env "CODESCOPE_INDEX_CONCURRENCY" Number.word64?
  if workers == some 0 then throw .noWorkers
  let gitTimeout ← number env "CODESCOPE_GIT_TIMEOUT_SECS" Number.word64?
  let readTimeout ← number env "CODESCOPE_READ_TIMEOUT_SECS" Number.word64?
  pure
    { databasePath := (value? env "CODESCOPE_DB").getD base.databasePath
      inMemory := value? env "CODESCOPE_IN_MEMORY" == some "1"
      host := (value? env "CODESCOPE_HOST").getD base.host
      tcpPort := tcpPort.getD base.tcpPort
      workers := workers
      gitTimeout := gitTimeout.getD base.gitTimeout
      readTimeout := readTimeout.getD base.readTimeout
      excluded := base.excluded
        ++ ((value? env "CODESCOPE_EXCLUDE_DIRS").map nameList).getD [] }

def bindAddress (s : Settings) : String := s!"{s.host}:{s.tcpPort}"

end Settings

end CodeAtlas
