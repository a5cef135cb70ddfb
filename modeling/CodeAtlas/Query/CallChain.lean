import CodeAtlas.Layer
import CodeAtlas.Query.Fault
import CodeAtlas.Store.Lookup

/-! # Call chains

A call chain walks the stored calls from a routine, to what it calls or to what calls it.
Each routine is listed once, at the length of a shortest way to it. When a way turns out to
be shorter than the one before, the routine is walked through again, so that both orders of
the walk list the same routines. Calls below the wanted confidence do not count at all.
-/

namespace CodeAtlas

inductive Direction where
  /-- To what a routine calls. -/
  | callees
  /-- To what calls a routine. -/
  | callers
  deriving Repr, DecidableEq, Inhabited

namespace Direction

def text : Direction → String
  | .callees => "downstream"
  | .callers => "upstream"

def parse? (s : String) : Option Direction :=
  let word := Text.asciiLower (Text.trim s)
  if ["downstream", "down", "callees"].contains word then some .callees
  else if ["upstream", "up", "callers"].contains word then some .callers
  else none

/-- The end of a call that the walk goes on to. -/
def farEnd : Direction → CallEdge → String
  | .callees, e => e.callee
  | .callers, e => e.caller

end Direction

/-- Which of the waiting routines comes next: the oldest or the newest. -/
inductive WalkMode where
  | bfs
  | dfs
  deriving Repr, DecidableEq, Inhabited

namespace WalkMode

def text : WalkMode → String
  | .bfs => "bfs"
  | .dfs => "dfs"

def parse? (s : String) : Option WalkMode :=
  let word := Text.asciiLower (Text.trim s)
  if word == "bfs" then some .bfs else if word == "dfs" then some .dfs else none

end WalkMode

structure ChainQuery where
  fqn : String
  direction : Option String := none
  depth : Option Nat := none
  includeExternal : Bool := false
  minConfidence : Option Binary64 := none
  mode : Option String := none
  codebase : Option Int := none
  deriving Repr, DecidableEq, Inhabited

/-- A call as seen from a listed routine. -/
structure ChainCall where
  /-- The other end of the call. -/
  fqn : String
  line : Nat
  confidence : Binary64
  callType : CallType
  deriving Repr, DecidableEq, Inhabited

structure ChainNode where
  fqn : String
  depth : Nat
  calls : List ChainCall
  deriving Repr, DecidableEq, Inhabited

def ChainNode.layer (n : ChainNode) : Layer := .ofName n.fqn

/-- The statement id of a routine of the storage layer. -/
def ChainNode.statementId? (n : ChainNode) : Option String :=
  if n.layer = .storage then Layer.statementId? n.fqn else none

/-- What a walk found. -/
structure ChainFindings where
  found : Bool
  direction : Direction
  mode : WalkMode
  depth : Nat
  minConfidence : Binary64
  nodes : List ChainNode
  externalCalls : List CallEdge
  deriving Repr, DecidableEq, Inhabited

def ChainFindings.edgeCount (f : ChainFindings) : Nat :=
  f.nodes.foldr (fun n count => n.calls.length + count) 0

structure ChainAnswer where
  root : String
  outcome : Except QueryFault ChainFindings
  deriving Repr

namespace CallChain

def defaultDepth : Nat := 3

def maxDepth : Nat := 20

/-- What a walk is through: the calls at each routine, and how they are followed. -/
structure Plan where
  /-- The calls at a routine that count, in order. -/
  callsAt : String → List CallEdge
  direction : Direction
  mode : WalkMode
  depth : Nat
  includeExternal : Bool

/-- Where a walk stands. -/
structure Walk where
  /-- The shortest level at which each routine was reached so far. -/
  best : List (String × Nat)
  /-- The routines walked through. -/
  nodes : List ChainNode := []
  externalCalls : List CallEdge := []
  /-- The routines waiting with their levels, the next one first. -/
  waiting : List (String × Nat)
  deriving Repr, DecidableEq, Inhabited

def level? (best : List (String × Nat)) (fqn : String) : Option Nat :=
  (best.find? fun e => e.1 == fqn).map fun e => e.2

/-- Whether a level is less than the one recorded. -/
def improves (best : List (String × Nat)) (fqn : String) (level : Nat) : Bool :=
  match level? best fqn with
  | none => true
  | some known => decide (level < known)

/-- Record routines at a level where that is an improvement; the improved ones are listed. -/
def reach (level : Nat) (best : List (String × Nat)) : List String →
    List (String × Nat) × List (String × Nat)
  | [] => (best, [])
  | fqn :: rest =>
    if improves best fqn level then
      let (best, improved) := reach level ((fqn, level) :: best) rest
      (best, (fqn, level) :: improved)
    else reach level best rest

namespace Plan

def start (root : String) : Walk := { best := [(root, 0)], waiting := [(root, 0)] }

def seen (p : Plan) (e : CallEdge) : ChainCall :=
  ⟨p.direction.farEnd e, e.line, e.confidence, e.callType⟩

def listed (p : Plan) (fqn : String) : List CallEdge :=
  (p.callsAt fqn).filter fun e => p.includeExternal || e.callType != .external

/-- The external calls that a routine adds to the answer. -/
def external (p : Plan) (fqn : String) : List CallEdge :=
  (p.listed fqn).filter fun e => e.callType == .external

def onward (p : Plan) (fqn : String) : List String :=
  ((p.callsAt fqn).filter fun e => e.callType == .internal).map p.direction.farEnd

/-- The waiting routines with new ones among them. -/
def enqueue (p : Plan) (waiting new : List (String × Nat)) : List (String × Nat) :=
  match p.mode with
  | .bfs => waiting ++ new
  | .dfs => new ++ waiting

/-- Go on from a routine: record and enqueue what it leads to. -/
def expand (p : Plan) (w : Walk) (fqn : String) (level : Nat) : Walk :=
  if level < p.depth then
    let (best, new) := reach (level + 1) w.best (p.onward fqn)
    { w with best := best, waiting := p.enqueue w.waiting new }
  else w

def visit (p : Plan) (w : Walk) (fqn : String) (level : Nat) : Walk :=
  let w := p.expand w fqn level
  { w with
    nodes := w.nodes ++ [⟨fqn, level, (p.listed fqn).map p.seen⟩]
    externalCalls := w.externalCalls ++ p.external fqn }

/-- A routine walked through again, at a lower level. -/
def revisit (p : Plan) (w : Walk) (fqn : String) (level : Nat) : Walk :=
  let w := p.expand w fqn level
  { w with nodes := w.nodes.map fun n => if n.fqn == fqn then { n with depth := level } else n }

/-- Walk through a routine, unless that was done at this level or below. -/
def pass (p : Plan) (w : Walk) (fqn : String) (level : Nat) : Walk :=
  match w.nodes.find? fun n => n.fqn == fqn with
  | some n => if n.depth ≤ level then w else p.revisit w fqn level
  | none => p.visit w fqn level

/-- Take the next waiting routine. One that was reached on a shorter way since is
dropped. -/
def step (p : Plan) (w : Walk) : Walk :=
  match w.waiting with
  | [] => w
  | (fqn, level) :: rest =>
    let w := { w with waiting := rest }
    match level? w.best fqn with
    | some known => if known < level then w else p.pass w fqn level
    | none => p.pass w fqn level

def run (p : Plan) : Nat → Walk → Walk
  | 0, w => w
  | n + 1, w =>
    match w.waiting with
    | [] => w
    | _ :: _ => run p n (p.step w)

end Plan

/-- Steps that are enough: each improvement lowers the level of the far end of a call, which
is at most the depth. -/
def stepBound (s : Store) (depth : Nat) : Nat := s.calls.size * depth + 1

/-- The calls of the store at a routine, at or above a confidence. -/
def callsAt (s : Store) (direction : Direction) (codebase : Option Int) (threshold : Binary64)
    (fqn : String) : List CallEdge :=
  let rows :=
    match direction with
    | .callees => s.callsFrom fqn codebase
    | .callers => s.callsTo fqn codebase
  (rows.map fun r => r.data.item).filter fun e => Binary64.le threshold e.confidence

/-- The confidence that a query asks for, within the range of confidences. -/
def threshold (q : ChainQuery) : Binary64 := (q.minConfidence.getD .zero).clamp .zero .one

def depthOf (q : ChainQuery) : Nat := min (q.depth.getD defaultDepth) maxDepth

def directionOf (q : ChainQuery) : Except QueryFault Direction :=
  match q.direction.filter fun d => !d.isEmpty with
  | none => .ok .callees
  | some text =>
    match Direction.parse? text with
    | some d => .ok d
    | none => .error (.unknownDirection text)

def modeOf (q : ChainQuery) : Except QueryFault WalkMode :=
  match q.mode.filter fun m => !m.isEmpty with
  | none => .ok .bfs
  | some text =>
    match WalkMode.parse? text with
    | some m => .ok m
    | none => .error (.unknownMode text)

/-- The plan of a query with a direction and a mode. -/
def planOf (s : Store) (q : ChainQuery) (direction : Direction) (mode : WalkMode) : Plan :=
  ⟨callsAt s direction q.codebase (threshold q), direction, mode, depthOf q, q.includeExternal⟩

def walkOf (s : Store) (q : ChainQuery) (direction : Direction) (mode : WalkMode)
    (root : String) : Walk :=
  (planOf s q direction mode).run (stepBound s (depthOf q)) (Plan.start root)

def findings (s : Store) (q : ChainQuery) (root : String) : Except QueryFault ChainFindings := do
  if root.isEmpty then throw .emptyName
  let direction ← directionOf q
  let mode ← modeOf q
  let walk := walkOf s q direction mode root
  pure
    { found := !(s.symbolsNamed root q.codebase).isEmpty
      direction := direction
      mode := mode
      depth := depthOf q
      minConfidence := threshold q
      nodes := walk.nodes
      externalCalls := walk.externalCalls }

end CallChain

/-- The answer to a call-chain query. A query that makes no sense is shown as it was asked. -/
def Store.callChain (s : Store) (q : ChainQuery) : ChainAnswer :=
  let root := Text.trim q.fqn
  match CallChain.findings s q root with
  | .ok f => ⟨root, .ok f⟩
  | .error fault => ⟨q.fqn, .error fault⟩

end CodeAtlas
