import CodeAtlas.Proofs.CallChain.Distance
import CodeAtlas.Proofs.Store.Lookup
import Mathlib.Algebra.BigOperators.Group.List.Basic
import Mathlib.Algebra.GroupWithZero.Nat

/-! # The calls of a call chain

Each listed routine shows the stored calls at it, in the order of the store, and the external
calls of an answer are those that its routines show, one routine after another. A routine
that is walked through again changes its level only, so nothing is shown twice. Both orders
of a walk therefore give the same answer up to order, and whether external calls are shown
has no bearing on which routines are listed.
-/

namespace CodeAtlas

namespace CallChain

/-! ## What a walk shows -/

/-- Two walks that stand at the same place, whatever calls they show. -/
structure Walk.Alongside (w w' : Walk) : Prop where
  best : w'.best = w.best
  waiting : w'.waiting = w.waiting
  levels : w'.nodes.map (fun n => (n.fqn, n.depth)) = w.nodes.map fun n => (n.fqn, n.depth)

namespace Plan

variable {p : Plan} {root : String} {w w' : Walk}

/-- The routines walked through show their calls, and the external ones were collected in
the same order. -/
structure Shows (p : Plan) (w : Walk) : Prop where
  calls : ∀ n ∈ w.nodes, n.calls = (p.listed n.fqn).map p.seen
  external : w.externalCalls = w.nodes.flatMap fun n => p.external n.fqn

theorem shows_start (p : Plan) (root : String) : p.Shows (start root) := by
  constructor
  · simp [start]
  · simp [start]

theorem Shows.expand (h : p.Shows w) (v : String) (k : Nat) : p.Shows (p.expand w v k) := by
  rw [expand_eq]
  exact ⟨h.calls, h.external⟩

theorem Shows.visit (h : p.Shows w) (v : String) (k : Nat) : p.Shows (p.visit w v k) := by
  have he := h.expand v k
  constructor
  · intro n hn
    rcases List.mem_append.mp hn with hn | hn
    · exact he.calls n hn
    · obtain rfl := List.mem_singleton.mp hn
      rfl
  · simp [Plan.visit, he.external]

theorem Shows.revisit (h : p.Shows w) (v : String) (k : Nat) : p.Shows (p.revisit w v k) := by
  have he := h.expand v k
  have hfqn : ∀ n : ChainNode,
      (if n.fqn == v then { n with depth := k } else n).fqn = n.fqn ∧
      (if n.fqn == v then { n with depth := k } else n).calls = n.calls := by
    intro n
    split <;> exact ⟨rfl, rfl⟩
  constructor
  · intro n hn
    obtain ⟨m, hm, rfl⟩ := List.mem_map.mp hn
    rw [(hfqn m).1, (hfqn m).2]
    exact he.calls m hm
  · simp only [Plan.revisit, he.external, List.flatMap_map, hfqn]

theorem Shows.step (h : p.Shows w) : p.Shows (p.step w) := by
  have hpass : ∀ (rest : List (String × Nat)) (v : String) (k : Nat),
      p.Shows (p.pass { w with waiting := rest } v k) := by
    intro rest v k
    have hrest : p.Shows { w with waiting := rest } := ⟨h.calls, h.external⟩
    unfold Plan.pass
    split
    · split
      · exact hrest
      · exact hrest.revisit v k
    · exact hrest.visit v k
  unfold Plan.step
  split
  · exact h
  · simp only
    split
    · split
      · exact ⟨h.calls, h.external⟩
      · exact hpass _ _ _
    · exact hpass _ _ _

theorem Shows.run (h : p.Shows w) (n : Nat) : p.Shows (p.run n w) := by
  induction n generalizing w with
  | zero => exact h
  | succ n ih =>
    unfold Plan.run
    split
    · exact h
    · exact ih h.step

/-! ## The order of a walk -/

/-- A node is determined by its routine and its level, and neither depends on the order of
the walk. -/
theorem mem_nodes_of_mode (mode : WalkMode) (h : p.Sound root w)
    (h' : { p with mode := mode }.Sound root w') (hw : w.waiting = []) (hw' : w'.waiting = [])
    (hshows : p.Shows w) (hshows' : { p with mode := mode }.Shows w') {n : ChainNode}
    (hn : n ∈ w'.nodes) : n ∈ w.nodes := by
  have hdistance := (h'.mem_nodes_iff hw' n.fqn n.depth).mp ⟨n, hn, rfl, rfl⟩
  obtain ⟨m, hm, hfqn, hdepth⟩ := (h.mem_nodes_iff hw n.fqn n.depth).mpr hdistance
  have hcalls : m.calls = n.calls := by
    rw [hshows.calls m hm, hshows'.calls n hn, hfqn]
    rfl
  obtain rfl : m = n := by
    cases m
    cases n
    simp_all
  exact hm

/-- Finished walks in either order list the same routines, at the same levels and with the
same calls. -/
theorem nodes_perm {mode : WalkMode} (h : p.Sound root w)
    (h' : { p with mode := mode }.Sound root w') (hw : w.waiting = []) (hw' : w'.waiting = [])
    (hshows : p.Shows w) (hshows' : { p with mode := mode }.Shows w') :
    w'.nodes.Perm w.nodes := by
  apply (List.perm_ext_iff_of_nodup (h'.nodup.of_map _) (h.nodup.of_map _)).mpr
  intro n
  constructor
  · exact mem_nodes_of_mode mode h h' hw hw' hshows hshows'
  · exact mem_nodes_of_mode p.mode h' h hw' hw hshows' hshows

/-! ## External calls -/

section External

variable {shown : Bool}

theorem alongside_expand (h : w.Alongside w') (v : String) (k : Nat) :
    (p.expand w v k).Alongside ({ p with includeExternal := shown }.expand w' v k) := by
  rw [expand_eq, expand_eq]
  constructor
  · simp only [h.best]
    rfl
  · simp only [h.best, h.waiting]
    rfl
  · exact h.levels

theorem alongside_pass (h : w.Alongside w') (v : String) (k : Nat) :
    (p.pass w v k).Alongside ({ p with includeExternal := shown }.pass w' v k) := by
  have hexpand : (p.expand w v k).Alongside ({ p with includeExternal := shown }.expand w' v k) :=
    alongside_expand h v k
  have hfound : ∀ w : Walk, ((w.nodes.find? fun n => n.fqn == v).map fun n => (n.fqn, n.depth)) =
      (w.nodes.map fun n => (n.fqn, n.depth)).find? fun e => e.1 == v := by
    intro w
    rw [List.find?_map]
    rfl
  have hsame : ((w'.nodes.find? fun n => n.fqn == v).map fun n => (n.fqn, n.depth)) =
      (w.nodes.find? fun n => n.fqn == v).map fun n => (n.fqn, n.depth) := by
    rw [hfound, hfound, h.levels]
  unfold Plan.pass
  cases hf : w.nodes.find? fun n => n.fqn == v with
  | none =>
    rw [hf, Option.map_none, Option.map_eq_none_iff] at hsame
    simp only [hsame]
    refine ⟨hexpand.best, hexpand.waiting, ?_⟩
    simpa [visit] using hexpand.levels
  | some n =>
    rw [hf, Option.map_some, Option.map_eq_some_iff] at hsame
    obtain ⟨n', hf', he⟩ := hsame
    have hdepth : n'.depth = n.depth := (Prod.mk.inj he).2
    simp only [hf', hdepth]
    split
    · exact h
    · refine ⟨hexpand.best, hexpand.waiting, ?_⟩
      -- Both lists change the levels at the same routine.
      have hlevels : ∀ nodes : List ChainNode,
          (nodes.map fun n => if n.fqn == v then { n with depth := k } else n).map
            (fun n => (n.fqn, n.depth)) =
          (nodes.map fun n => (n.fqn, n.depth)).map fun e => if e.1 == v then (e.1, k) else e := by
        intro nodes
        rw [List.map_map, List.map_map]
        refine List.map_congr_left fun n _ => ?_
        by_cases hn : n.fqn = v <;> simp [hn]
      simp only [revisit, hlevels, hexpand.levels]

theorem alongside_step (h : w.Alongside w') :
    (p.step w).Alongside ({ p with includeExternal := shown }.step w') := by
  unfold Plan.step
  rw [h.waiting]
  cases w.waiting with
  | nil => exact h
  | cons next rest =>
    have hrest : { w with waiting := rest }.Alongside { w' with best := w.best, waiting := rest } :=
      ⟨rfl, rfl, h.levels⟩
    simp only [h.best]
    split
    · split
      · exact hrest
      · exact alongside_pass hrest _ _
    · exact alongside_pass hrest _ _

theorem alongside_run (h : w.Alongside w') (n : Nat) :
    (p.run n w).Alongside ({ p with includeExternal := shown }.run n w') := by
  induction n generalizing w w' with
  | zero => exact h
  | succ n ih =>
    unfold Plan.run
    rw [h.waiting]
    cases w.waiting with
    | nil => exact h
    | cons next rest => exact ih (alongside_step h)

end External

end Plan

end CallChain

/-! ## Stored calls at a routine -/

namespace Direction

/-- The end of a call that the walk comes from. -/
def nearEnd : Direction → CallEdge → String
  | .callees, e => e.caller
  | .callers, e => e.callee

def LineBefore (r r' : Row (Owned CallEdge)) : Prop :=
  r.data.item.line < r'.data.item.line ∨
    (r.data.item.line = r'.data.item.line ∧ r.id ≤ r'.id)

/-- The order of the store: the calls from a routine by line, those to it by caller first. -/
def Before : Direction → Row (Owned CallEdge) → Row (Owned CallEdge) → Prop
  | .callees, r, r' => LineBefore r r'
  | .callers, r, r' => r.data.item.caller < r'.data.item.caller ∨
      (r.data.item.caller = r'.data.item.caller ∧ LineBefore r r')

theorem isLE_line_id {r r' : Row (Owned CallEdge)} :
    (thenBy (byKey fun r : Row (Owned CallEdge) => r.data.item.line) (byKey Row.id) r r').isLE =
      true ↔ LineBefore r r' := by
  rw [isLE_thenBy_byKey, isLE_byKey, LineBefore]

end Direction

/-- Whether a stored call is one that an answer shows at a routine. -/
def CallEdge.isShownAt (fqn : String) (direction : Direction) (codebase : Option Int)
    (least : Binary64) (withExternal : Bool) (e : Owned CallEdge) : Bool :=
  direction.nearEnd e.item == fqn && isOpenOr codebase e.owner
    && Binary64.le least e.item.confidence && (withExternal || e.item.callType != .external)

/-- The stored calls that an answer shows at a routine, in the order of the store. -/
structure Store.CallsAt (s : Store) (fqn : String) (direction : Direction)
    (codebase : Option Int) (least : Binary64) (withExternal : Bool)
    (rows : List (Row (Owned CallEdge))) : Prop where
  perm : rows.Perm (s.calls.rows.filter fun r =>
    CallEdge.isShownAt fqn direction codebase least withExternal r.data)
  ordered : rows.Pairwise direction.Before

namespace CallChain

variable {s : Store} {q : ChainQuery} {direction : Direction} {mode : WalkMode}

def rowsAt (s : Store) (direction : Direction) (codebase : Option Int) (fqn : String) :
    List (Row (Owned CallEdge)) :=
  match direction with
  | .callees => s.callsFrom fqn codebase
  | .callers => s.callsTo fqn codebase

theorem rowsAt_perm (s : Store) (direction : Direction) (codebase : Option Int) (fqn : String) :
    (rowsAt s direction codebase fqn).Perm (s.calls.rows.filter fun r =>
      direction.nearEnd r.data.item == fqn && isOpenOr codebase r.data.owner) := by
  cases direction with
  | callees => exact sortBy_perm _ _
  | callers => exact sortBy_perm _ _

theorem rowsAt_ordered (codebase : Option Int) (fqn : String) :
    (rowsAt s direction codebase fqn).Pairwise direction.Before := by
  cases direction with
  | callees =>
    apply (pairwise_sortBy _ _).imp
    intro r r' h
    exact Direction.isLE_line_id.mp h
  | callers =>
    apply (pairwise_sortBy _ _).imp
    intro r r' h
    rw [isLE_thenBy_byKey, Direction.isLE_line_id] at h
    exact h

def shownAt (s : Store) (q : ChainQuery) (direction : Direction) (fqn : String) :
    List (Row (Owned CallEdge)) :=
  (rowsAt s direction q.codebase fqn).filter fun r =>
    Binary64.le (threshold q) r.data.item.confidence
      && (q.includeExternal || r.data.item.callType != .external)

theorem shownAt_callsAt (fqn : String) :
    s.CallsAt fqn direction q.codebase (threshold q) q.includeExternal
      (shownAt s q direction fqn) := by
  constructor
  · have hperm := (rowsAt_perm s direction q.codebase fqn).filter fun r =>
      Binary64.le (threshold q) r.data.item.confidence
        && (q.includeExternal || r.data.item.callType != .external)
    rw [List.filter_filter] at hperm
    refine hperm.trans (List.Perm.of_eq (List.filter_congr fun r _ => ?_))
    exact (Bool.and_comm _ _).trans (Bool.and_assoc _ _ _).symm
  · exact (rowsAt_ordered _ _).filter _

theorem listed_eq (fqn : String) :
    (planOf s q direction mode).listed fqn =
      (shownAt s q direction fqn).map fun r => r.data.item := by
  have hcalls : callsAt s direction q.codebase (threshold q) fqn =
      ((rowsAt s direction q.codebase fqn).map fun r => r.data.item).filter
        fun e => Binary64.le (threshold q) e.confidence := by
    cases direction <;> rfl
  simp only [Plan.listed, planOf, hcalls, shownAt, List.filter_map, List.filter_filter,
    Function.comp_def, Bool.and_comm]

end CallChain

/-! ## Answers -/

theorem ChainFindings.edgeCount_eq (f : ChainFindings) :
    f.edgeCount = (f.nodes.map fun n => n.calls.length).sum := by
  rw [edgeCount]
  induction f.nodes with
  | nil => rfl
  | cons n nodes ih => rw [List.foldr_cons, ih, List.map_cons, List.sum_cons]

/-- The routines of an answer show the stored calls at them, and its external calls are the
external ones among these. -/
structure ChainFindings.Shows (f : ChainFindings) (direction : Direction)
    (rows : String → List (Row (Owned CallEdge))) : Prop where
  calls : ∀ n ∈ f.nodes, n.calls = (rows n.fqn).map fun r =>
    ⟨direction.farEnd r.data.item, r.data.item.line, r.data.item.confidence, r.data.item.callType⟩
  externalCalls : f.externalCalls = (f.nodes.flatMap fun n =>
    (rows n.fqn).filter fun r => r.data.item.callType == .external).map fun r => r.data.item
  edgeCount : f.edgeCount = (f.nodes.map fun n => n.calls.length).sum

/-- Two answers that differ in their order only. -/
structure ChainFindings.EqUpToOrder (f f' : ChainFindings) : Prop where
  nodes : f'.nodes.Perm f.nodes
  externalCalls : f'.externalCalls.Perm f.externalCalls
  edgeCount : f'.edgeCount = f.edgeCount
  found : f'.found = f.found
  direction : f'.direction = f.direction
  depth : f'.depth = f.depth
  minConfidence : f'.minConfidence = f.minConfidence

namespace CallChain

variable {s : Store} {q : ChainQuery} {direction : Direction} {mode : WalkMode}

theorem walkOf_shows (s : Store) (q : ChainQuery) (direction : Direction) (mode : WalkMode)
    (root : String) : (planOf s q direction mode).Shows (walkOf s q direction mode root) :=
  (Plan.shows_start _ root).run _

theorem walkOf_nodes_perm (s : Store) (q : ChainQuery) (direction : Direction) (mode : WalkMode)
    (text : Option String) (mode' : WalkMode) (root : String) :
    (walkOf s { q with mode := text } direction mode' root).nodes.Perm
      (walkOf s q direction mode root).nodes :=
  Plan.nodes_perm (p := planOf s q direction mode) (walkOf_sound s q direction mode root)
    (walkOf_sound s { q with mode := text } direction mode' root)
    (walkOf_waiting s q direction mode root)
    (walkOf_waiting s { q with mode := text } direction mode' root)
    (walkOf_shows s q direction mode root)
    (walkOf_shows s { q with mode := text } direction mode' root)

theorem walkOf_alongside (shown : Bool) (root : String) :
    (walkOf s q direction mode root).Alongside
      (walkOf s { q with includeExternal := shown } direction mode root) :=
  Plan.alongside_run ⟨rfl, rfl, rfl⟩ _

def findingsOf (s : Store) (q : ChainQuery) (direction : Direction) (mode : WalkMode)
    (root : String) : ChainFindings where
  found := !(s.symbolsNamed root q.codebase).isEmpty
  direction := direction
  mode := mode
  depth := depthOf q
  minConfidence := threshold q
  nodes := (walkOf s q direction mode root).nodes
  externalCalls := (walkOf s q direction mode root).externalCalls

theorem callChain_outcome (hroot : Text.trim q.fqn ≠ "") (hd : directionOf q = .ok direction)
    (hm : modeOf q = .ok mode) :
    (s.callChain q).outcome = .ok (findingsOf s q direction mode (Text.trim q.fqn)) := by
  rw [Store.callChain, findings_eq hroot hd hm]
  rfl

theorem findingsOf_shows (s : Store) (q : ChainQuery) (direction : Direction) (mode : WalkMode)
    (root : String) :
    (findingsOf s q direction mode root).Shows direction (shownAt s q direction) := by
  have hshows := walkOf_shows s q direction mode root
  constructor
  · intro n hn
    rw [hshows.calls n hn, listed_eq, List.map_map]
    rfl
  · rw [findingsOf, hshows.external, List.map_flatMap]
    simp only [Plan.external, listed_eq, List.filter_map]
    rfl
  · exact ChainFindings.edgeCount_eq _

theorem findingsOf_eqUpToOrder (text : Option String) (mode' : WalkMode) (root : String) :
    (findingsOf s q direction mode root).EqUpToOrder
      (findingsOf s { q with mode := text } direction mode' root) := by
  have hperm := walkOf_nodes_perm s q direction mode text mode' root
  refine ⟨hperm, ?_, ?_, rfl, rfl, rfl, rfl⟩
  · rw [findingsOf, findingsOf, (walkOf_shows s q direction mode root).external,
      (walkOf_shows s { q with mode := text } direction mode' root).external]
    exact hperm.flatMap_right _
  · rw [ChainFindings.edgeCount_eq, ChainFindings.edgeCount_eq]
    exact (hperm.map _).sum_eq

end CallChain

open CallChain in
/-- A call chain shows at each routine the stored calls at it, and nothing else depends on
the order of the walk but the order of the answer, nor on the external calls but what is
shown. -/
theorem Store.callChain_shows_calls (s : Store) (q : ChainQuery) {direction : Direction}
    {mode : WalkMode} {units : Int} (hroot : Text.trim q.fqn ≠ "")
    (hd : directionOf q = .ok direction) (hm : modeOf q = .ok mode)
    (hc : q.minConfidence.getD .zero = .finite units) :
    ∃ f rows, (s.callChain q).outcome = .ok f ∧
      (∀ fqn, s.CallsAt fqn direction q.codebase
        (.finite (max 0 (min units Binary64.unitsPerOne))) q.includeExternal (rows fqn)) ∧
      f.Shows direction rows ∧ (q.includeExternal = false → f.externalCalls = []) ∧
      (∀ text mode', modeOf { q with mode := text } = .ok mode' →
        ∃ f', (s.callChain { q with mode := text }).outcome = .ok f' ∧ f.EqUpToOrder f') ∧
      ∀ shown, ∃ f', (s.callChain { q with includeExternal := shown }).outcome = .ok f' ∧
        f'.nodes.map (fun n => (n.fqn, n.depth)) = f.nodes.map fun n => (n.fqn, n.depth) := by
  have hshows := findingsOf_shows s q direction mode (Text.trim q.fqn)
  refine ⟨findingsOf s q direction mode (Text.trim q.fqn), shownAt s q direction,
    callChain_outcome hroot hd hm, ?_, hshows, ?_, ?_, ?_⟩
  · intro fqn
    rw [← threshold_eq hc]
    exact shownAt_callsAt fqn
  · intro hnone
    rw [hshows.externalCalls]
    simp +contextual [shownAt, hnone]
  · intro text mode' hm'
    exact ⟨_, callChain_outcome hroot hd hm', findingsOf_eqUpToOrder text mode' _⟩
  · intro shown
    exact ⟨_, callChain_outcome hroot hd hm, (walkOf_alongside shown _).levels⟩

/-- The shortcut with a call that leaves the indexed code. -/
def Store.detour : Store :=
  { calls := Store.shortcut.calls.insertAll
      [⟨1, ⟨"c", "java.util.List.add", .external, 5, .one⟩⟩] }

open CallChain in
/-- Newest first, the routine with the external call is walked through twice. -/
theorem Store.callChain_detour :
    ∃ f rows, (Store.detour.callChain
        { fqn := "a", mode := some "dfs", includeExternal := true }).outcome = .ok f ∧
      (∀ fqn, Store.detour.CallsAt fqn .callees none
        (.finite (max 0 (min 0 Binary64.unitsPerOne))) true (rows fqn)) ∧
      f.Shows .callees rows ∧ (true = false → f.externalCalls = []) ∧
      (∀ text mode', modeOf { fqn := "a", mode := text, includeExternal := true } = .ok mode' →
        ∃ f', (Store.detour.callChain
          { fqn := "a", mode := text, includeExternal := true }).outcome = .ok f' ∧
            f.EqUpToOrder f') ∧
      ∀ shown, ∃ f', (Store.detour.callChain
          { fqn := "a", mode := some "dfs", includeExternal := shown }).outcome = .ok f' ∧
        f'.nodes.map (fun n => (n.fqn, n.depth)) = f.nodes.map fun n => (n.fqn, n.depth) := by
  have hm : modeOf { fqn := "a", mode := some "dfs", includeExternal := true } = .ok .dfs := by
    decide +kernel
  exact Store.detour.callChain_shows_calls _ (by decide) rfl hm rfl

end CodeAtlas
