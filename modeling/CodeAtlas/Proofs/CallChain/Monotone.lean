import CodeAtlas.Proofs.CallChain.Calls
import Mathlib.Algebra.Order.BigOperators.Group.List

/-! # Wider and narrower call chains

A walk that counts more calls, or goes further, lists every routine that the narrower walk
lists, no farther from the root and with no fewer calls. A higher confidence can take away the
short ways to a routine and so move it away from the root or out of the answer. A smaller
depth moves nothing: it leaves out the routines that are too far away and no others.
-/

namespace CodeAtlas

theorem Binary64.le_finite_of_le {a b : Int} (hab : a ≤ b) {x : Binary64}
    (h : Binary64.le (.finite b) x = true) : Binary64.le (.finite a) x = true := by
  cases x with
  | nan => simp [le] at h
  | negInf => simp [le] at h
  | posInf => rfl
  | finite c =>
    simp only [le, decide_eq_true_eq] at h ⊢
    omega

namespace CallChain

theorem Way.exists_isDistance {leads : String → String → Prop} {root : String} {n : Nat}
    {v : String} (h : Way leads root n v) : ∃ m ≤ n, IsDistance leads root m v := by
  induction n using Nat.strong_induction_on with
  | _ n ih =>
    by_cases hmin : ∀ m, Way leads root m v → n ≤ m
    · exact ⟨n, le_rfl, h, hmin⟩
    · push Not at hmin
      obtain ⟨m, hm, hlt⟩ := hmin
      obtain ⟨k, hk, hd⟩ := ih m hlt hm
      exact ⟨k, by omega, hd⟩

/-- Sizes of distinct names add up to no more than larger sizes of more names. -/
theorem sum_map_le_of_subset {names names' : List String} {size size' : String → Nat}
    (hn : names.Nodup) (hsub : names ⊆ names') (hle : ∀ v, size v ≤ size' v) :
    (names.map size).sum ≤ (names'.map size').sum := by
  obtain ⟨kept, hperm, hkept⟩ := List.subperm_of_subset hn hsub
  calc (names.map size).sum
      ≤ (names.map size').sum := List.sum_le_sum fun v _ => hle v
    _ = (kept.map size').sum := (hperm.symm.map size').sum_eq
    _ ≤ (names'.map size').sum := (hkept.map size').sum_le_sum fun _ _ => Nat.zero_le _

namespace Plan

variable {p p' : Plan} {root : String} {w w' : Walk}

/-! ## A plan within another -/

/-- A plan that counts no more calls than another and goes no further. -/
structure Within (p p' : Plan) : Prop where
  direction : p.direction = p'.direction
  includeExternal : p.includeExternal = p'.includeExternal
  depth : p.depth ≤ p'.depth
  callsAt : ∀ fqn, (p.callsAt fqn).Sublist (p'.callsAt fqn)

theorem Within.leads (h : p.Within p') {u v : String} (hl : p.Leads u v) : p'.Leads u v := by
  unfold Leads onward at hl ⊢
  rw [← h.direction]
  exact (((h.callsAt u).filter _).map _).subset hl

theorem Within.listed (h : p.Within p') (fqn : String) :
    (p.listed fqn).Sublist (p'.listed fqn) := by
  rw [Plan.listed, Plan.listed, h.includeExternal]
  exact (h.callsAt fqn).filter _

theorem Within.external (h : p.Within p') (fqn : String) :
    (p.external fqn).Sublist (p'.external fqn) :=
  (h.listed fqn).filter _

theorem Within.seen (h : p.Within p') : p.seen = p'.seen := by
  funext e
  rw [Plan.seen, Plan.seen, h.direction]

/-! ## Finished walks -/

/-- A walk that has come to its end. -/
structure Finished (p : Plan) (root : String) (w : Walk) : Prop where
  sound : p.Sound root w
  waiting : w.waiting = []
  shown : p.Shows w

theorem Finished.exists_node (h : p.Finished root w) (h' : p'.Finished root w')
    (hp : p.Within p') {n : ChainNode} (hn : n ∈ w.nodes) :
    ∃ n' ∈ w'.nodes, n'.fqn = n.fqn ∧ n'.depth ≤ n.depth ∧ n.calls.Sublist n'.calls := by
  obtain ⟨hdistance, hdepth⟩ :=
    (h.sound.mem_nodes_iff h.waiting n.fqn n.depth).mp ⟨n, hn, rfl, rfl⟩
  have hway : Way p'.Leads root n.depth n.fqn := hdistance.1.mono fun _ _ => hp.leads
  obtain ⟨k, hk, hdistance'⟩ := hway.exists_isDistance
  have hkdepth : k ≤ p'.depth := hk.trans (hdepth.trans hp.depth)
  obtain ⟨n', hn', hfqn, rfl⟩ :=
    (h'.sound.mem_nodes_iff h'.waiting n.fqn k).mpr ⟨hdistance', hkdepth⟩
  refine ⟨n', hn', hfqn, hk, ?_⟩
  rw [h.shown.calls n hn, h'.shown.calls n' hn', hfqn, hp.seen]
  exact (hp.listed n.fqn).map _

/-- Where both walks count the same calls, the wider one lists the very node. -/
theorem Finished.mem_nodes (h : p.Finished root w) (h' : p'.Finished root w')
    (hp : p.Within p') (hsame : p'.callsAt = p.callsAt) {n : ChainNode} (hn : n ∈ w.nodes) :
    n ∈ w'.nodes := by
  have hleads : ∀ u v, p.Leads u v ↔ p'.Leads u v := by
    intro u v
    rw [Leads, Leads, onward, onward, hsame, hp.direction]
  obtain ⟨hdistance, hdepth⟩ :=
    (h.sound.mem_nodes_iff h.waiting n.fqn n.depth).mp ⟨n, hn, rfl, rfl⟩
  obtain ⟨n', hn', hfqn, hdepth'⟩ := (h'.sound.mem_nodes_iff h'.waiting n.fqn n.depth).mpr
    ⟨(isDistance_congr hleads).mp hdistance, hdepth.trans hp.depth⟩
  have hcalls : n'.calls = n.calls := by
    rw [h.shown.calls n hn, h'.shown.calls n' hn', hfqn, hp.seen]
    rw [Plan.listed, Plan.listed, hsame, hp.includeExternal]
  obtain rfl : n' = n := by
    cases n
    cases n'
    simp_all
  exact hn'

theorem Finished.names_subset (h : p.Finished root w) (h' : p'.Finished root w')
    (hp : p.Within p') : w.nodes.map ChainNode.fqn ⊆ w'.nodes.map ChainNode.fqn := by
  intro v hv
  obtain ⟨n, hn, rfl⟩ := List.mem_map.mp hv
  obtain ⟨n', hn', hfqn, _⟩ := h.exists_node h' hp hn
  exact List.mem_map.mpr ⟨n', hn', hfqn⟩

/-! ## How much a walk shows -/

theorem Shows.sum_calls (h : p.Shows w) :
    (w.nodes.map fun n => n.calls.length).sum =
      ((w.nodes.map ChainNode.fqn).map fun v => (p.listed v).length).sum := by
  rw [List.map_map]
  congr 1
  apply List.map_congr_left
  intro n hn
  rw [h.calls n hn, List.length_map, Function.comp_apply]

theorem Shows.length_externalCalls (h : p.Shows w) :
    w.externalCalls.length =
      ((w.nodes.map ChainNode.fqn).map fun v => (p.external v).length).sum := by
  rw [h.external, List.length_flatMap, List.map_map]
  rfl

theorem Finished.sum_calls_le (h : p.Finished root w) (h' : p'.Finished root w')
    (hp : p.Within p') :
    (w.nodes.map fun n => n.calls.length).sum ≤ (w'.nodes.map fun n => n.calls.length).sum := by
  rw [h.shown.sum_calls, h'.shown.sum_calls]
  exact sum_map_le_of_subset h.sound.nodup (h.names_subset h' hp) fun v => (hp.listed v).length_le

theorem Finished.length_externalCalls_le (h : p.Finished root w) (h' : p'.Finished root w')
    (hp : p.Within p') : w.externalCalls.length ≤ w'.externalCalls.length := by
  rw [h.shown.length_externalCalls, h'.shown.length_externalCalls]
  exact sum_map_le_of_subset h.sound.nodup (h.names_subset h' hp)
    fun v => (hp.external v).length_le

end Plan

end CallChain

/-! ## Answers -/

/-- Findings that show no more than others: their routines are listed there too, no farther
from the root and with all their calls. -/
structure ChainFindings.Within (f f' : ChainFindings) : Prop where
  nodes : ∀ n ∈ f.nodes, ∃ n' ∈ f'.nodes,
    n'.fqn = n.fqn ∧ n'.depth ≤ n.depth ∧ n.calls.Sublist n'.calls
  edgeCount : f.edgeCount ≤ f'.edgeCount
  externalCalls : f.externalCalls.length ≤ f'.externalCalls.length

namespace CallChain

variable {s : Store} {q q' : ChainQuery} {direction : Direction} {mode mode' : WalkMode}
  {root : String}

theorem walkOf_finished (s : Store) (q : ChainQuery) (direction : Direction) (mode : WalkMode)
    (root : String) : (planOf s q direction mode).Finished root (walkOf s q direction mode root) :=
  ⟨walkOf_sound s q direction mode root, walkOf_waiting s q direction mode root,
    walkOf_shows s q direction mode root⟩

theorem findingsOf_within
    (hp : (planOf s q direction mode).Within (planOf s q' direction mode')) :
    (findingsOf s q direction mode root).Within (findingsOf s q' direction mode' root) := by
  have h := walkOf_finished s q direction mode root
  have h' := walkOf_finished s q' direction mode' root
  constructor
  · intro n hn
    exact h.exists_node h' hp hn
  · rw [ChainFindings.edgeCount_eq, ChainFindings.edgeCount_eq]
    exact h.sum_calls_le h' hp
  · exact h.length_externalCalls_le h' hp

theorem within_of_threshold {least least' : Option Binary64} {units units' : Int}
    (h : least.getD .zero = .finite units) (h' : least'.getD .zero = .finite units')
    (hle : units ≤ units') :
    (planOf s { q with minConfidence := least' } direction mode).Within
      (planOf s { q with minConfidence := least } direction mode) where
  direction := rfl
  includeExternal := rfl
  depth := le_rfl
  callsAt fqn := by
    simp only [planOf, callsAt]
    rw [threshold_eq (q := { q with minConfidence := least }) h,
      threshold_eq (q := { q with minConfidence := least' }) h']
    apply List.monotone_filter_right
    intro e he
    refine Binary64.le_finite_of_le ?_ he
    omega

theorem within_of_depth {depth depth' : Option Nat}
    (hle : depth.getD defaultDepth ≤ depth'.getD defaultDepth) :
    (planOf s { q with depth := depth } direction mode).Within
      (planOf s { q with depth := depth' } direction mode) where
  direction := rfl
  includeExternal := rfl
  depth := by
    simp only [planOf, depthOf]
    omega
  callsAt _ := List.Sublist.refl _

/-- Whether a query makes sense does not depend on how far and how surely it asks. -/
theorem callChain_fault {fault : QueryFault} (h : (s.callChain q).outcome = .error fault)
    (least : Option Binary64) (depth : Option Nat) :
    (s.callChain { q with minConfidence := least, depth := depth }).outcome = .error fault := by
  by_cases hroot : Text.trim q.fqn = ""
  · simp only [Store.callChain, findings, hroot] at h ⊢
    exact h
  · have he : (Text.trim q.fqn).isEmpty = false := by simpa [String.isEmpty_iff] using hroot
    cases hd : directionOf q with
    | error fault' =>
      have hd' : directionOf { q with minConfidence := least, depth := depth } = .error fault' := hd
      simp only [Store.callChain, findings, he, hd, hd'] at h ⊢
      exact h
    | ok direction =>
      cases hm : modeOf q with
      | error fault' =>
        have hd' : directionOf { q with minConfidence := least, depth := depth } = .ok direction :=
          hd
        have hm' : modeOf { q with minConfidence := least, depth := depth } = .error fault' := hm
        simp only [Store.callChain, findings, he, hd, hd', hm, hm'] at h ⊢
        exact h
      | ok mode =>
        rw [callChain_outcome hroot hd hm] at h
        simp at h

end CallChain

open CallChain in
/-- A lower confidence and a greater depth take nothing from an answer, and a greater depth
leaves the routines of the answer as they are. A query that makes no sense makes none at any
confidence and depth. -/
theorem Store.callChain_grows_with_limits (s : Store) (q : ChainQuery) :
    (∀ direction mode, Text.trim q.fqn ≠ "" → directionOf q = .ok direction →
      modeOf q = .ok mode →
      (∀ least least' units units', least.getD .zero = .finite units →
        least'.getD .zero = .finite units' → units ≤ units' →
        ∃ f f', (s.callChain { q with minConfidence := least }).outcome = .ok f ∧
          (s.callChain { q with minConfidence := least' }).outcome = .ok f' ∧ f'.Within f) ∧
      ∀ depth depth', depth.getD defaultDepth ≤ depth'.getD defaultDepth →
        ∃ f f', (s.callChain { q with depth := depth }).outcome = .ok f ∧
          (s.callChain { q with depth := depth' }).outcome = .ok f' ∧ f.Within f' ∧
          ∀ n ∈ f.nodes, n ∈ f'.nodes) ∧
    ∀ fault, (s.callChain q).outcome = .error fault → ∀ least depth,
      (s.callChain { q with minConfidence := least, depth := depth }).outcome = .error fault := by
  refine ⟨?_, fun fault h => callChain_fault h⟩
  intro direction mode hroot hd hm
  constructor
  · intro least least' units units' h h' hle
    refine ⟨_, _, callChain_outcome hroot hd hm, callChain_outcome hroot hd hm, ?_⟩
    exact findingsOf_within (within_of_threshold h h' hle)
  · intro depth depth' hle
    refine ⟨_, _, callChain_outcome hroot hd hm, callChain_outcome hroot hd hm,
      findingsOf_within (within_of_depth hle), ?_⟩
    intro n hn
    exact (walkOf_finished s _ direction mode _).mem_nodes (walkOf_finished s _ direction mode _)
      (within_of_depth hle) rfl hn

/-- A sure way of two steps to a routine, and a step to it that is only half as sure. -/
def Store.doubtful : Store :=
  { calls := (Table.mk [] 0).insertAll
      [⟨1, ⟨"a", "b", .internal, 1, .one⟩⟩, ⟨1, ⟨"b", "c", .internal, 2, .one⟩⟩,
        ⟨1, ⟨"a", "c", .internal, 3, .ofFraction false 1 2⟩⟩] }

open CallChain in
/-- At full confidence the routine at the end of both ways is one step farther away. -/
theorem Store.callChain_doubtful :
    (∃ f f', (Store.doubtful.callChain { fqn := "a", mode := some "dfs" }).outcome = .ok f ∧
      (Store.doubtful.callChain
        { fqn := "a", mode := some "dfs", minConfidence := some .one }).outcome = .ok f' ∧
      f'.Within f) ∧
    (∃ f f',
      (Store.doubtful.callChain { fqn := "a", mode := some "dfs", depth := some 1 }).outcome =
        .ok f ∧
      (Store.doubtful.callChain { fqn := "a", mode := some "dfs" }).outcome = .ok f' ∧
      f.Within f' ∧ ∀ n ∈ f.nodes, n ∈ f'.nodes) := by
  have hm : modeOf { fqn := "a", mode := some "dfs" } = .ok .dfs := by decide +kernel
  obtain ⟨hconfidence, hdepth⟩ :=
    (Store.doubtful.callChain_grows_with_limits { fqn := "a", mode := some "dfs" }).1
      .callees .dfs (by decide) rfl hm
  constructor
  · exact hconfidence none (some .one) 0 _ rfl rfl (Int.natCast_nonneg _)
  · exact hdepth (some 1) none (by decide)

end CodeAtlas
