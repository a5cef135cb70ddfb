import CodeAtlas.Proofs.CallChain.Walk
import Mathlib.Order.Lattice

/-! # Call chains list distances

A call chain lists the routines within its depth, each once and at its distance from the
root, where a step is a stored internal call of the chosen codebases that is trusted enough.
Both orders of the walk list the same routines.
-/

namespace CodeAtlas

/-- A stored internal call with at least some confidence leads from one routine to another. -/
def Store.Links (s : Store) (direction : Direction) (codebase : Option Int) (least : Int)
    (u v : String) : Prop :=
  ∃ r ∈ s.calls.rows, r.data.item.callType = .internal ∧
    (∀ c, codebase = some c → r.data.owner = c) ∧
    Binary64.le (.finite least) r.data.item.confidence = true ∧
    match direction with
    | .callees => r.data.item.caller = u ∧ r.data.item.callee = v
    | .callers => r.data.item.callee = u ∧ r.data.item.caller = v

theorem isOpenOr_iff {α : Type} [BEq α] [LawfulBEq α] {choice : Option α} {a : α} :
    isOpenOr choice a = true ↔ ∀ b, choice = some b → a = b := by
  cases choice <;> simp [isOpenOr]

theorem mem_sortBy {α : Type} {order : α → α → Ordering} {xs : List α} {a : α} :
    a ∈ sortBy order xs ↔ a ∈ xs := List.mem_mergeSort

theorem Binary64.clamp_finite (u : Int) :
    (Binary64.finite u).clamp .zero .one = .finite (max 0 (min u Binary64.unitsPerOne)) := by
  have h₁ : (0 : Int) ≤ Binary64.unitsPerOne := Int.natCast_nonneg _
  simp only [clamp, lt, le, zero, one, Bool.not_eq_true', decide_eq_false_iff_not, Int.not_le]
  split
  · rw [max_eq_left (by omega)]
  · split
    · rw [min_eq_right (by omega), max_eq_right h₁]
    · rw [min_eq_left (by omega), max_eq_right (by omega)]

namespace CallChain

variable {s : Store} {q : ChainQuery} {direction : Direction} {mode : WalkMode}

theorem threshold_eq {units : Int} (h : q.minConfidence.getD .zero = .finite units) :
    threshold q = .finite (max 0 (min units Binary64.unitsPerOne)) := by
  rw [threshold, h, Binary64.clamp_finite]

theorem mem_callsAt {codebase : Option Int} {least : Binary64} {u : String} {e : CallEdge} :
    e ∈ callsAt s direction codebase least u ↔
      ∃ r ∈ s.calls.rows, r.data.item = e ∧ (∀ c, codebase = some c → r.data.owner = c) ∧
        Binary64.le least e.confidence = true ∧
        match direction with
        | .callees => e.caller = u
        | .callers => e.callee = u := by
  cases direction <;>
    simp only [callsAt, Store.callsFrom, Store.callsTo, List.mem_filter, List.mem_map, mem_sortBy,
      Bool.and_eq_true, beq_iff_eq, isOpenOr_iff]
  · constructor
    · rintro ⟨⟨r, ⟨hr, hu, hc⟩, rfl⟩, hl⟩
      exact ⟨r, hr, rfl, hc, hl, hu⟩
    · rintro ⟨r, hr, rfl, hc, hl, hu⟩
      exact ⟨⟨r, ⟨hr, hu, hc⟩, rfl⟩, hl⟩
  · constructor
    · rintro ⟨⟨r, ⟨hr, hu, hc⟩, rfl⟩, hl⟩
      exact ⟨r, hr, rfl, hc, hl, hu⟩
    · rintro ⟨r, hr, rfl, hc, hl, hu⟩
      exact ⟨⟨r, ⟨hr, hu, hc⟩, rfl⟩, hl⟩

theorem leads_iff_links {least : Int} (h : threshold q = .finite least) (u v : String) :
    (planOf s q direction mode).Leads u v ↔ s.Links direction q.codebase least u v := by
  simp only [Plan.Leads, Plan.onward, planOf, h, List.mem_map, List.mem_filter, mem_callsAt,
    beq_iff_eq]
  constructor
  · rintro ⟨e, ⟨⟨r, hr, rfl, hc, hl, hu⟩, ht⟩, rfl⟩
    refine ⟨r, hr, ht, hc, hl, ?_⟩
    cases direction <;> exact ⟨hu, rfl⟩
  · rintro ⟨r, hr, ht, hc, hl, hends⟩
    refine ⟨r.data.item, ⟨⟨r, hr, rfl, hc, hl, ?_⟩, ht⟩, ?_⟩
    · cases direction <;> exact hends.1
    · cases direction <;> exact hends.2

def farEnds (s : Store) (direction : Direction) : List String :=
  s.calls.rows.map fun r => direction.farEnd r.data.item

theorem mem_farEnds_of_leads (u v : String) (h : (planOf s q direction mode).Leads u v) :
    v ∈ farEnds s direction := by
  simp only [Plan.Leads, Plan.onward, planOf, List.mem_map, List.mem_filter, mem_callsAt] at h
  obtain ⟨e, ⟨⟨r, hr, rfl, _⟩, _⟩, rfl⟩ := h
  exact List.mem_map.mpr ⟨r, hr, rfl⟩

theorem walkOf_waiting (s : Store) (q : ChainQuery) (direction : Direction) (mode : WalkMode)
    (root : String) : (walkOf s q direction mode root).waiting = [] := by
  refine Plan.run_waiting mem_farEnds_of_leads _ ?_
  have h := (planOf s q direction mode).remaining_start (farEnds s direction) root
  simpa [farEnds, stepBound, Table.size, planOf] using h

theorem walkOf_sound (s : Store) (q : ChainQuery) (direction : Direction) (mode : WalkMode)
    (root : String) :
    (planOf s q direction mode).Sound root (walkOf s q direction mode root) :=
  (Plan.sound_start _ root).run _

theorem findings_eq {root : String} (hr : root ≠ "") (hd : directionOf q = .ok direction)
    (hm : modeOf q = .ok mode) :
    findings s q root = .ok
      { found := !(s.symbolsNamed root q.codebase).isEmpty
        direction := direction
        mode := mode
        depth := depthOf q
        minConfidence := threshold q
        nodes := (walkOf s q direction mode root).nodes
        externalCalls := (walkOf s q direction mode root).externalCalls } := by
  have he : root.isEmpty = false := by simpa [String.isEmpty_iff] using hr
  simp [findings, he, hd, hm, bind, Except.bind, pure, Except.pure]

end CallChain

open CallChain in
/-- A call chain lists each routine within its depth once, at its distance from the root. -/
theorem Store.callChain_lists_distances (s : Store) (q : ChainQuery) {direction : Direction}
    {mode : WalkMode} {units : Int} (hroot : Text.trim q.fqn ≠ "")
    (hd : directionOf q = .ok direction) (hm : modeOf q = .ok mode)
    (hc : q.minConfidence.getD .zero = .finite units) :
    ∃ f, (s.callChain q).outcome = .ok f ∧ (f.nodes.map ChainNode.fqn).Nodup ∧
      ∀ v k, (∃ n ∈ f.nodes, n.fqn = v ∧ n.depth = k) ↔
        IsDistance (s.Links direction q.codebase (max 0 (min units Binary64.unitsPerOne)))
          (Text.trim q.fqn) k v ∧ k ≤ min (q.depth.getD 3) 20 := by
  have hs := walkOf_sound s q direction mode (Text.trim q.fqn)
  refine ⟨_, by rw [callChain, findings_eq hroot hd hm], hs.nodup, fun v k => ?_⟩
  rw [hs.mem_nodes_iff (walkOf_waiting s q direction mode _) v k,
    isDistance_congr (leads_iff_links (threshold_eq hc))]
  rfl

/-- Two ways of different length to one routine, and a way back from it. -/
def Store.shortcut : Store :=
  { calls := (Table.mk [] 0).insertAll
      [⟨1, ⟨"a", "b", .internal, 1, .one⟩⟩, ⟨1, ⟨"b", "c", .internal, 2, .one⟩⟩,
        ⟨1, ⟨"a", "c", .internal, 3, .one⟩⟩, ⟨1, ⟨"c", "a", .internal, 4, .one⟩⟩] }

open CallChain in
/-- Newest first, the routine at the end of the shortcut is walked through twice. -/
theorem Store.callChain_shortcut :
    ∃ f, (Store.shortcut.callChain { fqn := " a ", mode := some "dfs" }).outcome = .ok f ∧
      (f.nodes.map ChainNode.fqn).Nodup ∧
      ∀ v k, (∃ n ∈ f.nodes, n.fqn = v ∧ n.depth = k) ↔
        IsDistance (Store.shortcut.Links .callees none
          (max 0 (min 0 Binary64.unitsPerOne))) "a" k v ∧ k ≤ 3 := by
  have hm : modeOf { fqn := " a ", mode := some "dfs" } = .ok .dfs := by decide +kernel
  exact Store.shortcut.callChain_lists_distances _ (by decide) rfl hm rfl

end CodeAtlas
