import CodeAtlas.Index.Job
import CodeAtlas.Index.Status

/-! # Workers

The files of a run are shared out among workers. A worker works a file through, then counts it
as done, then shows the count in the status, and other workers may take their turns between
any two of these. What is written of a file is written at once.

A file that breaks down ends the run, but not right away: files that were begun are taken to
their ends, and which other files are begun depends on the workers.
-/

namespace CodeAtlas.IndexRun

/-- How far a file has come. -/
inductive Stage where
  | waiting
  | worked
  /-- It was counted, as the file of that number, and the status does not show it yet. -/
  | counted (number : Nat)
  | shown
  | broken (reason : String)
  deriving Repr, DecidableEq, Inhabited

def Stage.reason? : Stage → Option String
  | .broken reason => some reason
  | _ => none

/-- The workers' common state. -/
structure Pool where
  progress : Progress
  /-- The number of files that were counted. -/
  done : Nat := 0
  status : IndexStatus
  tasks : List (ScannedFile × Stage)
  deriving Repr, DecidableEq, Inhabited

namespace Pool

def start (progress : Progress) (status : IndexStatus) (files : List ScannedFile) : Pool where
  progress := progress
  status := status
  tasks := files.map fun f => (f, .waiting)

/-- Why the run breaks down: the reason of the first file in the order of the plan. -/
def reason? (p : Pool) : Option String := p.tasks.findSome? fun task => task.2.reason?

def toStage (p : Pool) (place : Nat) (f : ScannedFile) (stage : Stage) : Pool :=
  { p with tasks := p.tasks.set place (f, stage) }

end Pool

/-- A worker's turn on a file, given by its place in the plan. A late turn begins no file of a
run that breaks down. -/
structure Turn where
  place : Nat
  late : Bool
  deriving Repr, DecidableEq, Inhabited

def Job.turn (j : Job) (p : Pool) (t : Turn) : Pool :=
  match p.tasks[t.place]? with
  | some (f, .waiting) =>
    if t.late && p.reason?.isSome then p
    else
      match j.step p.progress f with
      | .ok progress => { p with progress := progress }.toStage t.place f .worked
      | .error reason => p.toStage t.place f (.broken reason)
  | some (f, .worked) => { p with done := p.done + 1 }.toStage t.place f (.counted (p.done + 1))
  | some (f, .counted number) =>
    { p with status := p.status.withDone number }.toStage t.place f .shown
  | _ => p

/-- The order of turns. -/
inductive Schedule where
  /-- One worker takes the files one by one. -/
  | oneWorker
  /-- Turns on the files at these places of the plan, three for each file in the end. -/
  | picks (places : List Nat)
  deriving Repr, DecidableEq, Inhabited

/-- The places of the files that one worker begins, in order, and whether one of them breaks
down. Files are worked through in shares, made by halving. A breakdown ends the share that it
happens in; the share after it is taken over, which means that it is divided anew and worked
through all the same. `spare` limits how often a list is halved. -/
def Job.shares (j : Job) (spare : Nat) (takenOver : Bool) (files : List (ScannedFile × Nat)) :
    List Nat × Bool :=
  if _h : 2 ≤ files.length ∧ (takenOver = true ∨ 0 < spare) then
    let spare := if takenOver then max 1 (spare / 2) else spare / 2
    let half := files.length / 2
    let (first, broken) := j.shares spare false (files.take half)
    let (second, brokenLater) := j.shares spare broken (files.drop half)
    (first ++ second, broken || brokenLater)
  else
    let crashes := fun f : ScannedFile × Nat => j.crashes f.1
    ((files.take (files.findIdx crashes + 1)).map Prod.snd, files.any crashes)
termination_by files.length
decreasing_by
  all_goals
    simp only [List.length_take, List.length_drop]
    omega

def threeTurns (late : Bool) (places : List Nat) : List Turn :=
  places.flatMap fun place => List.replicate 3 ⟨place, late⟩

/-- All turns of a run. In the end every file that can be is taken to its last stage. -/
def Job.turns (j : Job) (schedule : Schedule) (files : List ScannedFile) : List Turn :=
  let picked :=
    match schedule with
    | .oneWorker => threeTurns false (j.shares 1 false files.zipIdx).1
    | .picks places => places.map fun place => ⟨place, false⟩
  picked ++ threeTurns true (List.range files.length)

def Job.all (j : Job) (schedule : Schedule) (files : List ScannedFile) (progress : Progress)
    (status : IndexStatus) : Pool :=
  (j.turns schedule files).foldl j.turn (.start progress status files)

end CodeAtlas.IndexRun
