import CodeAtlas.Number.Reader
import CodeAtlas.Settings

/-! # Command-line arguments

The first argument is the command. Flags may stand anywhere; some take the argument after
them as their value.
-/

namespace CodeAtlas.Cli

/-- A failure with what is behind it, the nearest cause first. -/
structure Failure where
  message : String
  causes : List String := []
  deriving Repr, DecidableEq, Inhabited

def Failure.ofError (e : Error) : Failure := ⟨e.message, e.causes⟩

def Failure.inContext (context : String) (e : Error) : Failure := ⟨context, e.message :: e.causes⟩

def valuedFlags : List String := ["--port", "--db", "--language", "--type", "--depth"]

/-- The first argument that is neither a flag nor the value of one. -/
def positional? : List String → Option String
  | [] => none
  | arg :: rest =>
    if valuedFlags.contains arg then
      match rest with
      | [] => none
      | _ :: rest => positional? rest
    else if Text.beginsWith arg "--" then positional? rest
    else some arg

/-- The argument after the first occurrence of a flag. -/
def flagValue? (flag : String) : List String → Option String
  | [] => none
  | arg :: rest => if arg == flag then rest.head? else flagValue? flag rest

inductive Command where
  | serve
  | index (path language : String) (full : Bool)
  | status
  | search (pattern : String) (kind : Option String)
  | chain (fqn : String) (toCallers : Bool) (depth : Option Nat)
  /-- A command without the argument that it needs. -/
  | incomplete (usage : String)
  | unknown (name : String)
  deriving Repr, DecidableEq, Inhabited

def number (what : String) (bound : Nat) (text : String) : Except Failure Nat :=
  match Number.readNat bound text with
  | .ok n => .ok n
  | .error fault => .error ⟨s!"Invalid {what}: {text}", [fault.message]⟩

/-- The settings of the environment with those of the arguments over them. -/
def settingsOf (env : Settings.Environment) (name : String) (args : List String) :
    Except Failure Settings := do
  let base ←
    match Settings.ofEnvironment env with
    | .ok s => pure s
    | .error e => throw (.ofError e)
  let tcpPort ←
    match flagValue? "--port" args with
    | none => pure base.tcpPort
    | some text => number "port" Word.bound16 text
  let inMemory := base.inMemory || args.contains "--in-memory"
  if inMemory && name != "serve" && name != "index" then
    throw ⟨"--in-memory only makes sense for serve and index", []⟩
  pure
    { base with
      tcpPort := tcpPort
      databasePath := (flagValue? "--db" args).getD base.databasePath
      inMemory := inMemory }

/-- The command of a name with the arguments after it; `args` are all arguments. -/
def commandOf (name : String) (rest args : List String) : Except Failure Command := do
  match name with
  | "serve" => pure .serve
  | "index" =>
    match positional? rest with
    | none => pure (.incomplete "index <path> [--full] [--language java]")
    | some path =>
      pure (.index path ((flagValue? "--language" args).getD "java") (args.contains "--full"))
  | "status" => pure .status
  | "search" =>
    match positional? rest with
    | none => pure (.incomplete "search <pattern> [--type TYPE]")
    | some pattern => pure (.search pattern (flagValue? "--type" args))
  | "chain" =>
    match positional? rest with
    | none => pure (.incomplete "chain <fqn> [--up] [--depth N]")
    | some fqn =>
      match flagValue? "--depth" args with
      | none => pure (.chain fqn (args.contains "--up") none)
      | some text =>
        let depth ← number "depth" Word.bound32 text
        pure (.chain fqn (args.contains "--up") (some depth))
  | _ => pure (.unknown name)

end CodeAtlas.Cli
