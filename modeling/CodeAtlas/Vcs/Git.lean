import CodeAtlas.Error
import CodeAtlas.Text.Utf8
import CodeAtlas.Vcs.ChangeSet

/-! # Asking git

Three subcommands tell the head commit, what differs from a commit, and what is not under
version control. A run of the program that does not end within the time limit, is not text,
or exits with another code than zero is a failure.
-/

namespace CodeAtlas.Git

/-- What a subcommand did. -/
structure Reply where
  output : List UInt8 := []
  exitCode : Nat := 0
  /-- The subcommand did not end in time. -/
  hangs : Bool := false
  deriving Repr, Inhabited

/-- The program as seen by its callers: it may be missing, and each subcommand replies. -/
structure Program where
  isMissing : Bool := false
  timeLimit : Nat := 30
  revParse : Reply := {}
  diff : Reply := {}
  lsFiles : Reply := {}
  deriving Repr, Inhabited

def outputOf (git : Program) (args : String) (reply : Reply) : Except Error String :=
  if git.isMissing then .error (.file .notFound)
  else if reply.hangs then .error (.timedOut git.timeLimit)
  else
    match Text.decode? reply.output with
    | none => .error (.file .invalidText)
    | some text =>
      if reply.exitCode == 0 then .ok text
      else .error (.vcs s!"git {args} exited with exit status: {reply.exitCode}")

def headCommit? (git : Program) : Option String :=
  match outputOf git "rev-parse HEAD" git.revParse with
  | .ok text =>
    let hash := Text.trim text
    if hash.isEmpty then none else some hash
  | .error _ => none

def changesSince (git : Program) (commit : String) : Except Error ChangeSet := do
  let diff ← outputOf git s!"diff -z --name-status --relative {commit}" git.diff
  let untracked ← outputOf git "ls-files -z --others --exclude-standard" git.lsFiles
  pure ((ChangeSet.ofNameStatus diff).addUntracked (ChangeSet.fieldsOf untracked))

end CodeAtlas.Git
