import CodeAtlas.Proofs.CallChain.Distance
import Mathlib.Logic.Function.Iterate

/-! # Walks end

A routine that is reached on a shorter way is walked through again and puts routines on the
waiting list once more, so the list can grow after it shrank. Whatever is put there improves
on a recorded level, and every improvement is recorded: the records are the history of the
waiting list, newest first, and each is lower than the older ones of its routine. A walk
therefore ends, and no routine waits twice at one level.
-/

namespace CodeAtlas.CallChain

/-! ## Records that only become lower -/

/-- Newer records stand in front of older ones of the same routine and are lower. -/
def Lowering (best : List (String × Nat)) : Prop :=
  best.Pairwise fun newer older => newer.1 = older.1 → newer.2 < older.2

section Lowering

variable {best new : List (String × Nat)} {v : String} {k level : Nat}

theorem mem_of_level? (h : level? best v = some k) : (v, k) ∈ best := by
  obtain ⟨e, he, rfl⟩ := Option.map_eq_some_iff.mp h
  obtain rfl : e.1 = v := by simpa using List.find?_some he
  exact List.mem_of_find?_eq_some he

theorem Lowering.level?_le (h : Lowering best) (hm : (v, k) ∈ best) :
    ∃ b ≤ k, level? best v = some b := by
  induction best with
  | nil => simp at hm
  | cons e best ih =>
    obtain ⟨u, b⟩ := e
    obtain ⟨hlower, hrest⟩ := List.pairwise_cons.mp h
    rw [level?_cons]
    rcases List.mem_cons.mp hm with he | hm
    · obtain ⟨rfl, rfl⟩ := Prod.mk.inj he
      exact ⟨k, Nat.le_refl k, if_pos rfl⟩
    · by_cases hu : u = v
      · exact ⟨b, (hlower (v, k) hm hu).le, if_pos hu⟩
      · obtain ⟨b', hb', hlevel⟩ := ih hrest hm
        exact ⟨b', hb', by rw [if_neg hu, hlevel]⟩

theorem Lowering.level?_append_le (h : Lowering (new ++ best)) (hk : level? best v = some k) :
    ∃ b ≤ k, level? (new ++ best) v = some b :=
  h.level?_le (List.mem_append_right new (mem_of_level? hk))

theorem Lowering.cons (h : Lowering best) (hi : improves best v k = true) :
    Lowering ((v, k) :: best) := by
  refine List.pairwise_cons.mpr ⟨?_, h⟩
  rintro ⟨u, older⟩ hm rfl
  obtain ⟨b, hb, hlevel⟩ := h.level?_le hm
  exact Nat.lt_of_lt_of_le (improves_iff.mp hi b hlevel) hb

theorem Lowering.reach (h : Lowering best) (fqns : List String) :
    Lowering (reach level best fqns).1 := by
  induction fqns generalizing best with
  | nil => exact h
  | cons u rest ih =>
    rw [reach_cons]
    split
    · exact ih (h.cons ‹_›)
    · exact ih h

theorem Lowering.nodup (h : Lowering best) : best.Nodup := by
  refine List.Pairwise.imp (fun {newer older} hlower he => ?_) h
  exact Nat.lt_irrefl newer.2 (he ▸ hlower (congrArg Prod.fst he))

theorem reach_records (best : List (String × Nat)) (fqns : List String) :
    (reach level best fqns).1 = (reach level best fqns).2.reverse ++ best := by
  induction fqns generalizing best with
  | nil => rfl
  | cons u rest ih =>
    rw [reach_cons]
    split
    · simp [ih]
    · exact ih best

end Lowering

namespace Plan

variable {p : Plan} {w : Walk}

/-! ## One step -/

/-- The routines that a step puts on the waiting list, with their levels: what is waiting
after the step and was not waiting behind the first one before. -/
def added (p : Plan) (w : Walk) : List (String × Nat) :=
  let waiting := (p.step w).waiting
  let kept := w.waiting.length - 1
  match p.mode with
  | .bfs => waiting.drop kept
  | .dfs => waiting.take (waiting.length - kept)

/-- A step that takes the first waiting routine puts some others on the list and records
just these. -/
structure Advances (p : Plan) (w w' : Walk) (new : List (String × Nat)) : Prop where
  waiting : w'.waiting = p.enqueue w.waiting.tail new
  best : w'.best = new.reverse ++ w.best
  lowering : Lowering w.best → Lowering w'.best

theorem enqueue_nil (waiting : List (String × Nat)) : p.enqueue waiting [] = waiting := by
  unfold enqueue
  cases p.mode <;> simp

theorem advances_expand (w : Walk) (v : String) (k : Nat) {rest : List (String × Nat)}
    (hw : w.waiting.tail = rest) :
    ∃ new, p.Advances w (p.expand { w with waiting := rest } v k) new := by
  rw [expand_eq, ← hw]
  exact ⟨_, rfl, reach_records w.best _, fun h => h.reach _⟩

theorem advances_pass (w : Walk) (v : String) (k : Nat) {rest : List (String × Nat)}
    (hw : w.waiting.tail = rest) :
    ∃ new, p.Advances w (p.pass { w with waiting := rest } v k) new := by
  obtain ⟨new, hnew⟩ := advances_expand (p := p) w v k hw
  unfold Plan.pass
  split
  · split
    · exact ⟨[], by rw [enqueue_nil, hw], rfl, id⟩
    · exact ⟨new, hnew.waiting, hnew.best, hnew.lowering⟩
  · exact ⟨new, hnew.waiting, hnew.best, hnew.lowering⟩

theorem exists_advances_step (p : Plan) (w : Walk) : ∃ new, p.Advances w (p.step w) new := by
  unfold Plan.step
  split
  · rename_i hw
    exact ⟨[], by simp [enqueue_nil, hw], rfl, id⟩
  · rename_i v k rest hw
    have hrest : w.waiting.tail = rest := by rw [hw, List.tail_cons]
    simp only
    split
    · split
      · exact ⟨[], by simp [enqueue_nil, hrest], rfl, id⟩
      · exact advances_pass w v k hrest
    · exact advances_pass w v k hrest

theorem Advances.added_eq {new : List (String × Nat)} (h : p.Advances w (p.step w) new) :
    p.added w = new := by
  have hkept : w.waiting.length - 1 = w.waiting.tail.length := List.length_tail.symm
  simp only [added, h.waiting, enqueue, hkept]
  cases p.mode with
  | bfs => simp
  | dfs => simp

theorem advances_step (p : Plan) (w : Walk) : p.Advances w (p.step w) (p.added w) := by
  obtain ⟨new, hnew⟩ := exists_advances_step p w
  exact hnew.added_eq ▸ hnew

/-! ## A whole walk -/

theorem step_of_waiting_nil (hw : w.waiting = []) : p.step w = w := by
  simp [Plan.step, hw]

theorem run_eq_iterate (n : Nat) (w : Walk) : p.run n w = p.step^[n] w := by
  induction n generalizing w with
  | zero => rfl
  | succ n ih =>
    rw [Plan.run, Function.iterate_succ_apply, ← ih]
    split
    · rename_i hw
      rw [step_of_waiting_nil hw, run_of_waiting_nil hw]
    · rfl

/-- The routines that some steps put on the waiting list, in order. -/
def enqueued (p : Plan) : Nat → Walk → List (String × Nat)
  | 0, _ => []
  | n + 1, w => p.added w ++ p.enqueued n (p.step w)

theorem best_iterate (n : Nat) (w : Walk) :
    (p.step^[n] w).best = (p.enqueued n w).reverse ++ w.best := by
  induction n generalizing w with
  | zero => rfl
  | succ n ih =>
    rw [Function.iterate_succ_apply, ih, (p.advances_step w).best, enqueued, List.reverse_append,
      List.append_assoc]

theorem lowering_iterate (h : Lowering w.best) (n : Nat) : Lowering (p.step^[n] w).best := by
  induction n generalizing w with
  | zero => exact h
  | succ n ih => exact ih ((p.advances_step w).lowering h)

theorem nodup_enqueued (p : Plan) (root : String) (n : Nat) :
    ((start root).waiting ++ p.enqueued n (start root)).Nodup := by
  have hlow : Lowering (p.step^[n] (start root)).best :=
    lowering_iterate (by simp [Lowering, start]) n
  have hlog : (p.step^[n] (start root)).best.reverse =
      (start root).waiting ++ p.enqueued n (start root) := by
    rw [best_iterate, List.reverse_append, List.reverse_reverse]
    rfl
  exact hlog ▸ List.nodup_reverse.mpr hlow.nodup

theorem level?_iterate_le (p : Plan) (root : String) {n m : Nat} (hnm : n ≤ m) {v : String}
    {k : Nat} (hk : level? (p.step^[n] (start root)).best v = some k) :
    ∃ b ≤ k, level? (p.step^[m] (start root)).best v = some b := by
  have hlow : Lowering (p.step^[m] (start root)).best :=
    lowering_iterate (by simp [Lowering, start]) m
  obtain ⟨later, rfl⟩ := Nat.exists_eq_add_of_le' hnm
  rw [Function.iterate_add_apply, best_iterate] at hlow ⊢
  exact hlow.level?_append_le hk

end Plan

/-- The walk of a query ends: after some number of steps, bounded by the calls of the store
and the depth, nothing waits. On the way no routine is put on the waiting list twice at one
level, and the level that is recorded for a routine only ever becomes lower. -/
theorem walk_ends (s : Store) (q : ChainQuery) (direction : Direction) (mode : WalkMode)
    (root : String) :
    (∃ n ≤ s.calls.size * depthOf q + 1,
      ((planOf s q direction mode).step^[n] (Plan.start root)).waiting = [] ∧
      walkOf s q direction mode root = (planOf s q direction mode).step^[n] (Plan.start root)) ∧
    (∀ n, ((Plan.start root).waiting ++
      (planOf s q direction mode).enqueued n (Plan.start root)).Nodup) ∧
    ∀ n m, n ≤ m → ∀ v k,
      level? ((planOf s q direction mode).step^[n] (Plan.start root)).best v = some k →
      ∃ b ≤ k, level? ((planOf s q direction mode).step^[m] (Plan.start root)).best v = some b := by
  have hwalk : walkOf s q direction mode root =
      (planOf s q direction mode).step^[stepBound s (depthOf q)] (Plan.start root) :=
    Plan.run_eq_iterate _ _
  refine ⟨⟨stepBound s (depthOf q), Nat.le_refl _, ?_, hwalk⟩, ?_, ?_⟩
  · rw [← hwalk]
    exact walkOf_waiting s q direction mode root
  · exact Plan.nodup_enqueued _ root
  · intro n m hnm v k hk
    exact Plan.level?_iterate_le _ root hnm hk

end CodeAtlas.CallChain
