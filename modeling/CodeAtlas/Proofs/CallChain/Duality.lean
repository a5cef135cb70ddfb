import CodeAtlas.Proofs.CallChain.Calls

/-! # Call chains in both directions

A way along the calls from one routine to another is, read from its end, a way along the
callers. So one routine is in the chain of what another calls exactly when that one is in the
chain of what calls the first, and both chains put it at the same depth.
-/

namespace CodeAtlas

namespace CallChain

variable {leads : String → String → Prop} {u v w : String} {n : Nat}

theorem Way.cons (hl : leads u v) (hw : Way leads v n w) : Way leads u (n + 1) w := by
  induction hw with
  | here => exact .on .here hl
  | on _ hl' ih => exact .on ih hl'

theorem Way.reverse (h : Way leads u n v) : Way (fun a b => leads b a) v n u := by
  induction h with
  | here => exact .here
  | on _ hl ih => exact ih.cons hl

theorem way_reverse_iff : Way leads u n v ↔ Way (fun a b => leads b a) v n u :=
  ⟨Way.reverse, Way.reverse⟩

theorem isDistance_reverse_iff :
    IsDistance leads u n v ↔ IsDistance (fun a b => leads b a) v n u := by
  have hway : ∀ m, Way leads u m v ↔ Way (fun a b => leads b a) v m u := fun _ => way_reverse_iff
  simp only [IsDistance, hway]

/-- Two queries that go equally far, through the same calls. -/
structure SameLimits (q q' : ChainQuery) : Prop where
  depth : depthOf q = depthOf q'
  codebase : q.codebase = q'.codebase
  threshold : threshold q = threshold q'

variable {s : Store} {q q' : ChainQuery}

/-- The rows with a caller and the rows with a callee are read in different orders, but a call
that counts in one direction counts in the other. -/
theorem SameLimits.leads_iff (h : SameLimits q q') (mode mode' : WalkMode) (u v : String) :
    (planOf s q .callees mode).Leads u v ↔ (planOf s q' .callers mode').Leads v u := by
  simp only [Plan.Leads, Plan.onward, planOf, List.mem_map, List.mem_filter, mem_callsAt,
    h.codebase, h.threshold, Direction.farEnd]
  constructor
  · rintro ⟨e, ⟨⟨r, hr, he, hc, hl, hu⟩, ht⟩, hv⟩
    exact ⟨e, ⟨⟨r, hr, he, hc, hl, hv⟩, ht⟩, hu⟩
  · rintro ⟨e, ⟨⟨r, hr, he, hc, hl, hv⟩, ht⟩, hu⟩
    exact ⟨e, ⟨⟨r, hr, he, hc, hl, hu⟩, ht⟩, hv⟩

theorem SameLimits.isDistance_iff (h : SameLimits q q') (mode mode' : WalkMode) (u v : String)
    (k : Nat) :
    IsDistance (planOf s q .callees mode).Leads u k v ↔
      IsDistance (planOf s q' .callers mode').Leads v k u := by
  rw [isDistance_reverse_iff]
  exact isDistance_congr fun a b => h.leads_iff mode mode' b a

theorem mem_walkOf_nodes_iff (s : Store) (q : ChainQuery) (direction : Direction)
    (mode : WalkMode) (root v : String) (k : Nat) :
    (∃ n ∈ (walkOf s q direction mode root).nodes, n.fqn = v ∧ n.depth = k) ↔
      IsDistance (planOf s q direction mode).Leads root k v ∧ k ≤ depthOf q :=
  (walkOf_sound s q direction mode root).mem_nodes_iff (walkOf_waiting s q direction mode root) v k

end CallChain

open CallChain in
/-- A routine is called from another at some depth exactly when the other calls it at that
depth, whatever the order of either walk. -/
theorem Store.callChain_directions_dual (s : Store) (q q' : ChainQuery) {mode mode' : WalkMode}
    (hu : Text.trim q.fqn ≠ "") (hv : Text.trim q'.fqn ≠ "")
    (hd : directionOf q = .ok .callees) (hd' : directionOf q' = .ok .callers)
    (hm : modeOf q = .ok mode) (hm' : modeOf q' = .ok mode') (hlimits : SameLimits q q') :
    ∃ f f', (s.callChain q).outcome = .ok f ∧ (s.callChain q').outcome = .ok f' ∧
      ∀ k, (∃ n ∈ f.nodes, n.fqn = Text.trim q'.fqn ∧ n.depth = k) ↔
        ∃ n ∈ f'.nodes, n.fqn = Text.trim q.fqn ∧ n.depth = k := by
  refine ⟨_, _, callChain_outcome hu hd hm, callChain_outcome hv hd' hm', fun k => ?_⟩
  calc (∃ n ∈ (walkOf s q .callees mode (Text.trim q.fqn)).nodes,
          n.fqn = Text.trim q'.fqn ∧ n.depth = k)
      ↔ IsDistance (planOf s q .callees mode).Leads (Text.trim q.fqn) k (Text.trim q'.fqn) ∧
          k ≤ depthOf q := mem_walkOf_nodes_iff ..
    _ ↔ IsDistance (planOf s q' .callers mode').Leads (Text.trim q'.fqn) k (Text.trim q.fqn) ∧
          k ≤ depthOf q' := by rw [hlimits.isDistance_iff mode mode', hlimits.depth]
    _ ↔ _ := (mem_walkOf_nodes_iff ..).symm

open CallChain in
/-- The routine at the end of the shortcut, newest first from one side and oldest first from
the other. -/
theorem Store.callChain_shortcut_both_ways :
    ∃ f f',
      (Store.shortcut.callChain { fqn := "a", mode := some "dfs" }).outcome = .ok f ∧
      (Store.shortcut.callChain { fqn := "c", direction := some "up" }).outcome = .ok f' ∧
      ∀ k, (∃ n ∈ f.nodes, n.fqn = "c" ∧ n.depth = k) ↔
        ∃ n ∈ f'.nodes, n.fqn = "a" ∧ n.depth = k := by
  have hd' : directionOf { fqn := "c", direction := some "up" } = .ok .callers := by
    decide +kernel
  have hm : modeOf { fqn := "a", mode := some "dfs" } = .ok .dfs := by decide +kernel
  exact Store.shortcut.callChain_directions_dual
    { fqn := "a", mode := some "dfs" } { fqn := "c", direction := some "up" }
    (by decide) (by decide) rfl hd' hm rfl ⟨rfl, rfl, rfl⟩

end CodeAtlas
