import CodeAtlas.Proofs.CallChain.Calls
import CodeAtlas.Proofs.CallChain.Termination

/-! # Breadth-first walks

A walk that takes the oldest waiting routine first has its history in one line: the routines
it walked through, then those that wait. In this line every routine stands once, the levels
never fall, and those that wait span at most one level more than the first of them. So no
routine is reached on a shorter way later on: what is recorded stays, nothing is dropped from
the waiting list and nothing is walked through again.
-/

namespace CodeAtlas

namespace CallChain

/-! ## Records of new routines -/

section Reach

variable {best : List (String × Nat)} {v : String} {k level : Nat}

theorem level?_of_mem (h : (best.map Prod.fst).Nodup) (hm : (v, k) ∈ best) :
    level? best v = some k := by
  have hfound : ∃ b, level? best v = some b := by
    refine Option.isSome_iff_exists.mp ?_
    simpa [level?] using ⟨k, hm⟩
  obtain ⟨b, hb⟩ := hfound
  have he : (v, b) = (v, k) := List.inj_on_of_nodup_map h (mem_of_level? hb) hm rfl
  rw [hb, (Prod.mk.inj he).2]

theorem level_of_mem_reach {fqns : List String} {e : String × Nat}
    (he : e ∈ (reach level best fqns).2) : e.2 = level := by
  induction fqns generalizing best with
  | nil => simp [reach_nil] at he
  | cons u rest ih =>
    rw [reach_cons] at he
    split at he
    · rcases List.mem_cons.mp he with rfl | he
      · rfl
      · exact ih he
    · exact ih he

/-- A level that no record exceeds improves on no record, so only new routines get one. -/
theorem nodup_reach (h : (best.map Prod.fst).Nodup) (hle : ∀ e ∈ best, e.2 ≤ level)
    (fqns : List String) : ((reach level best fqns).1.map Prod.fst).Nodup := by
  induction fqns generalizing best with
  | nil => exact h
  | cons u rest ih =>
    rw [reach_cons]
    split
    · rename_i hi
      have hnew : u ∉ best.map Prod.fst := by
        intro hu
        obtain ⟨⟨u, b⟩, he, rfl⟩ := List.mem_map.mp hu
        have hlt := improves_iff.mp hi b (level?_of_mem h he)
        exact Nat.not_lt.mpr (hle _ he) hlt
      refine ih (List.nodup_cons.mpr ⟨hnew, h⟩) ?_
      intro e he
      rcases List.mem_cons.mp he with rfl | he
      · exact Nat.le_refl _
      · exact hle e he
    · exact ih h hle

end Reach

/-! ## What a step walks through -/

/-- The routine that the next step walks through: the first waiting one, unless it was
reached on a shorter way or stands at its level already. -/
def Walk.expanded? (w : Walk) : Option (String × Nat) :=
  match w.waiting with
  | [] => none
  | (fqn, level) :: _ =>
    if (level? w.best fqn).any (· < level) then none
    else if (w.nodes.find? fun n => n.fqn == fqn).any (·.depth ≤ level) then none
    else some (fqn, level)

namespace Plan

variable {p : Plan} {w : Walk} {v : String} {k : Nat}

theorem pass_eq (p : Plan) (w : Walk) (v : String) (k : Nat) :
    p.pass w v k =
      if (w.nodes.find? fun n => n.fqn == v).any (·.depth ≤ k) then w
      else if w.nodes.any fun n => n.fqn == v then p.revisit w v k
      else p.visit w v k := by
  unfold Plan.pass
  cases hfind : w.nodes.find? fun n => n.fqn == v with
  | none =>
    have hany : (w.nodes.any fun n => n.fqn == v) = false := by simpa using hfind
    simp [hany]
  | some n =>
    have hn : (n.fqn == v) = true := by simpa using List.find?_some hfind
    have hany : (w.nodes.any fun n => n.fqn == v) = true :=
      List.any_eq_true.mpr ⟨n, List.mem_of_find?_eq_some hfind, hn⟩
    simp [hany]

/-- A step walks through a routine, for the first time or once more, or drops the first
waiting one. -/
theorem step_eq (p : Plan) (w : Walk) :
    p.step w =
      match w.expanded? with
      | none => { w with waiting := w.waiting.tail }
      | some (v, k) =>
        if w.nodes.any fun n => n.fqn == v then p.revisit { w with waiting := w.waiting.tail } v k
        else p.visit { w with waiting := w.waiting.tail } v k := by
  obtain ⟨best, nodes, externalCalls, waiting⟩ := w
  cases waiting with
  | nil => rfl
  | cons first rest =>
    obtain ⟨v, k⟩ := first
    simp only [Plan.step, Walk.expanded?, List.tail_cons, pass_eq]
    by_cases hstands : (nodes.find? fun n => n.fqn == v).any (·.depth ≤ k) = true
    · cases level? best v <;> simp [hstands]
    · cases level? best v with
      | none => simp [hstands]
      | some b => by_cases hlt : b < k <;> simp [hstands, hlt]

/-- The routines that some steps walk through, in order. -/
def walkedThrough (p : Plan) : Nat → Walk → List String
  | 0, _ => []
  | n + 1, w => (w.expanded?.map Prod.fst).toList ++ p.walkedThrough n (p.step w)

/-! ## The history in one line -/

/-- The line of the routines that were walked through and those that wait, with their levels,
is what was recorded. Every routine is in it once, its levels never fall, and those that wait
span no more than the first one's level and the next. -/
structure InLine (w : Walk) : Prop where
  line : w.best.reverse = w.nodes.map (fun n => (n.fqn, n.depth)) ++ w.waiting
  nodup : (w.best.map Prod.fst).Nodup
  levels : w.best.reverse.Pairwise fun a b => a.2 ≤ b.2
  span : ∀ v k rest, w.waiting = (v, k) :: rest → ∀ e ∈ rest, e.2 ≤ k + 1

theorem inLine_start (root : String) : InLine (start root) where
  line := rfl
  nodup := by simp [start]
  levels := by simp [start]
  span v k rest hw e he := by
    obtain ⟨_, rfl⟩ := List.cons.inj hw
    simp at he

section InLine

variable {rest : List (String × Nat)}

theorem InLine.level_le (h : InLine w) (hw : w.waiting = (v, k) :: rest) {e : String × Nat}
    (he : e ∈ w.best) : e.2 ≤ k + 1 := by
  have hline := h.line
  have hlevels := h.levels
  rw [hw] at hline
  rw [hline, List.pairwise_append] at hlevels
  rw [← List.mem_reverse, hline, List.mem_append, List.mem_cons] at he
  rcases he with he | rfl | he
  · exact (hlevels.2.2 e he (v, k) List.mem_cons_self).trans (Nat.le_succ k)
  · exact Nat.le_succ k
  · exact h.span v k rest hw e he

theorem InLine.le_level (h : InLine w) (hw : w.waiting = (v, k) :: rest) {e : String × Nat}
    (he : e ∈ rest) : k ≤ e.2 := by
  have hlevels := h.levels
  rw [h.line, hw] at hlevels
  exact (List.pairwise_cons.mp (List.pairwise_append.mp hlevels).2.1).1 e he

/-- The first waiting routine waits at its recorded level and was not walked through. -/
theorem InLine.first (h : InLine w) (hw : w.waiting = (v, k) :: rest) :
    level? w.best v = some k ∧ ∀ n ∈ w.nodes, n.fqn ≠ v := by
  have hline := h.line
  rw [hw] at hline
  constructor
  · apply level?_of_mem h.nodup
    rw [← List.mem_reverse, hline]
    simp
  · have hnodup := List.nodup_reverse.mpr h.nodup
    rw [← List.map_reverse, hline, List.map_append, List.map_map, List.map_cons] at hnodup
    intro n hn he
    exact (List.nodup_append.mp hnodup).2.2 n.fqn (List.mem_map.mpr ⟨n, hn, rfl⟩) v
      List.mem_cons_self he

theorem InLine.expanded?_eq (h : InLine w) (hw : w.waiting = (v, k) :: rest) :
    w.expanded? = some (v, k) := by
  obtain ⟨hlevel, hnew⟩ := h.first hw
  have hfind : (w.nodes.find? fun n => n.fqn == v) = none := by simpa using hnew
  simp [Walk.expanded?, hw, hlevel, hfind]

theorem InLine.step_eq_visit (h : InLine w) (hw : w.waiting = (v, k) :: rest) :
    p.step w = p.visit { w with waiting := rest } v k := by
  have hnew : ¬(w.nodes.any fun n => n.fqn == v) = true := by simpa using (h.first hw).2
  rw [step_eq, h.expanded?_eq hw, hw]
  simp only
  rw [if_neg hnew, List.tail_cons]

/-- What a visit puts behind those that wait is new and one level further on. -/
theorem InLine.visit (hmode : p.mode = .bfs) (h : InLine w) (hw : w.waiting = (v, k) :: rest) :
    InLine (p.visit { w with waiting := rest } v k) := by
  have hrecords : (reach (k + 1) w.best (p.ahead v k)).1 =
      (reach (k + 1) w.best (p.ahead v k)).2.reverse ++ w.best := reach_records _ _
  have hnew : ∀ e ∈ (reach (k + 1) w.best (p.ahead v k)).2, e.2 = k + 1 :=
    fun e => level_of_mem_reach
  have hnodup := nodup_reach h.nodup (fun e => h.level_le hw) (p.ahead v k)
  simp only [Plan.visit, expand_eq, enqueue, hmode]
  generalize (reach (k + 1) w.best (p.ahead v k)).1 = best at hrecords hnodup
  generalize (reach (k + 1) w.best (p.ahead v k)).2 = new at hrecords hnew
  have hreverse : best.reverse = w.best.reverse ++ new := by simp [hrecords]
  constructor
  · rw [hreverse, h.line, hw]
    simp
  · exact hnodup
  · rw [hreverse, List.pairwise_append]
    refine ⟨h.levels, ?_, ?_⟩
    · exact List.pairwise_of_forall_mem_list fun a ha b hb => by rw [hnew a ha, hnew b hb]
    · intro a ha b hb
      rw [hnew b hb]
      exact h.level_le hw (List.mem_reverse.mp ha)
  · intro u j after hwaiting e he
    have hspan : ∀ e ∈ rest ++ new, k ≤ e.2 ∧ e.2 ≤ k + 1 := by
      intro e he
      rcases List.mem_append.mp he with he | he
      · exact ⟨h.le_level hw he, h.span v k rest hw e he⟩
      · rw [hnew e he]
        exact ⟨Nat.le_succ k, Nat.le_refl _⟩
    have hwaiting : rest ++ new = (u, j) :: after := hwaiting
    rw [hwaiting] at hspan
    have hfirst := (hspan (u, j) List.mem_cons_self).1
    have hlater := (hspan e (List.mem_cons_of_mem _ he)).2
    exact hlater.trans (Nat.succ_le_succ hfirst)

theorem InLine.step (hmode : p.mode = .bfs) (h : InLine w) : InLine (p.step w) := by
  match hw : w.waiting with
  | [] => rwa [step_of_waiting_nil hw]
  | (v, k) :: rest =>
    rw [h.step_eq_visit hw]
    exact h.visit hmode hw

end InLine

/-! ## A whole walk -/

theorem inLine_iterate (hmode : p.mode = .bfs) (h : InLine w) (n : Nat) :
    InLine (p.step^[n] w) := by
  induction n generalizing w with
  | zero => exact h
  | succ n ih => exact ih (h.step hmode)

theorem fqns_iterate (hmode : p.mode = .bfs) (h : InLine w) (n : Nat) :
    (p.step^[n] w).nodes.map ChainNode.fqn =
      w.nodes.map ChainNode.fqn ++ p.walkedThrough n w := by
  induction n generalizing w with
  | zero => simp [walkedThrough]
  | succ n ih =>
    rw [Function.iterate_succ_apply, ih (h.step hmode), walkedThrough, ← List.append_assoc]
    congr 1
    match hw : w.waiting with
    | [] => simp [step_of_waiting_nil hw, Walk.expanded?, hw]
    | (v, k) :: rest =>
      rw [h.step_eq_visit hw, h.expanded?_eq hw, Plan.visit, expand_eq]
      simp

theorem nodes_prefix_iterate (hmode : p.mode = .bfs) (h : InLine w) (n : Nat) :
    w.nodes <+: (p.step^[n] w).nodes := by
  induction n generalizing w with
  | zero => exact List.prefix_rfl
  | succ n ih =>
    refine List.IsPrefix.trans ?_ (ih (h.step hmode))
    match hw : w.waiting with
    | [] => exact (step_of_waiting_nil hw).symm ▸ List.prefix_rfl
    | (v, k) :: rest =>
      rw [h.step_eq_visit hw, Plan.visit, expand_eq]
      exact List.prefix_append _ _

theorem level?_iterate (hmode : p.mode = .bfs) (h : InLine w) {v : String} {k : Nat}
    (hk : level? w.best v = some k) (n : Nat) : level? (p.step^[n] w).best v = some k := by
  apply level?_of_mem (inLine_iterate hmode h n).nodup
  rw [best_iterate]
  exact List.mem_append_right _ (mem_of_level? hk)

end Plan

def walkAfter (s : Store) (q : ChainQuery) (direction : Direction) (mode : WalkMode)
    (root : String) (n : Nat) : Walk :=
  (planOf s q direction mode).step^[n] (Plan.start root)

section

variable {s : Store} {q : ChainQuery} {direction : Direction} {root : String}

theorem walkOf_eq_walkAfter (s : Store) (q : ChainQuery) (direction : Direction)
    (mode : WalkMode) (root : String) :
    walkOf s q direction mode root =
      walkAfter s q direction mode root (stepBound s (depthOf q)) :=
  Plan.run_eq_iterate _ _

theorem inLine_walkAfter (s : Store) (q : ChainQuery) (direction : Direction) (root : String)
    (n : Nat) : Plan.InLine (walkAfter s q direction .bfs root n) :=
  Plan.inLine_iterate rfl (Plan.inLine_start root) n

theorem walkAfter_add (s : Store) (q : ChainQuery) (direction : Direction) (mode : WalkMode)
    (root : String) (n m : Nat) :
    walkAfter s q direction mode root (n + m) =
      (planOf s q direction mode).step^[m] (walkAfter s q direction mode root n) := by
  rw [walkAfter, Nat.add_comm, Function.iterate_add_apply]
  rfl

theorem prefix_nodes_walkOf (n : Nat) :
    (walkAfter s q direction .bfs root n).nodes <+: (walkOf s q direction .bfs root).nodes := by
  rw [walkOf_eq_walkAfter]
  rcases Nat.le_total n (stepBound s (depthOf q)) with hn | hn
  · obtain ⟨m, hm⟩ := Nat.exists_eq_add_of_le hn
    rw [hm, walkAfter_add]
    exact Plan.nodes_prefix_iterate rfl (inLine_walkAfter s q direction root n) m
  · obtain ⟨m, rfl⟩ := Nat.exists_eq_add_of_le hn
    have hend := walkOf_waiting s q direction .bfs root
    rw [walkOf_eq_walkAfter] at hend
    have hsame : walkAfter s q direction .bfs root (stepBound s (depthOf q) + m) =
        walkAfter s q direction .bfs root (stepBound s (depthOf q)) := by
      rw [walkAfter_add, Function.iterate_fixed (Plan.step_of_waiting_nil hend)]
    exact hsame ▸ List.prefix_rfl

theorem nodes_walkOf (s : Store) (q : ChainQuery) (direction : Direction) (root : String) :
    (walkOf s q direction .bfs root).nodes.map (fun n => (n.fqn, n.depth)) =
      (walkOf s q direction .bfs root).best.reverse := by
  have hline := (inLine_walkAfter s q direction root (stepBound s (depthOf q))).line
  rw [← walkOf_eq_walkAfter, walkOf_waiting, List.append_nil] at hline
  exact hline.symm

theorem head?_walkOf (s : Store) (q : ChainQuery) (direction : Direction) (root : String) :
    (walkOf s q direction .bfs root).nodes.head?.map (fun n => (n.fqn, n.depth)) =
      some (root, 0) := by
  rw [← List.head?_map, nodes_walkOf, walkOf_eq_walkAfter, walkAfter, Plan.best_iterate,
    List.reverse_append]
  rfl

theorem pairwise_walkOf (s : Store) (q : ChainQuery) (direction : Direction) (root : String) :
    (walkOf s q direction .bfs root).nodes.Pairwise fun a b => a.depth ≤ b.depth := by
  have hlevels := (inLine_walkAfter s q direction root (stepBound s (depthOf q))).levels
  rw [← walkOf_eq_walkAfter, ← nodes_walkOf, List.pairwise_map] at hlevels
  exact hlevels

theorem nodup_walkedThrough (s : Store) (q : ChainQuery) (direction : Direction) (root : String)
    (n : Nat) : ((planOf s q direction .bfs).walkedThrough n (Plan.start root)).Nodup := by
  have hfqns : (walkAfter s q direction .bfs root n).nodes.map ChainNode.fqn =
      (planOf s q direction .bfs).walkedThrough n (Plan.start root) :=
    Plan.fqns_iterate rfl (Plan.inLine_start root) n
  have hnodup := (walkOf_sound s q direction .bfs root).nodup
  rw [← hfqns]
  exact ((prefix_nodes_walkOf n).map ChainNode.fqn).sublist.nodup hnodup

end

end CallChain

open CallChain in
/-- A breadth-first call chain lists the root first, at level zero, and then the others by
level. No step walks through a routine that an earlier one walked through, what is listed on
the way is the front of the answer, and a level once recorded is never recorded anew. -/
theorem Store.callChain_bfs_by_level (s : Store) (q : ChainQuery) {direction : Direction}
    (hroot : Text.trim q.fqn ≠ "") (hd : directionOf q = .ok direction)
    (hm : modeOf q = .ok .bfs) :
    ∃ f, (s.callChain q).outcome = .ok f ∧
      f.nodes.head?.map (fun n => (n.fqn, n.depth)) = some (Text.trim q.fqn, 0) ∧
      f.nodes.Pairwise (fun a b => a.depth ≤ b.depth) ∧
      ∀ n,
        ((planOf s q direction .bfs).walkedThrough n (Plan.start (Text.trim q.fqn))).Nodup ∧
        (walkAfter s q direction .bfs (Text.trim q.fqn) n).nodes <+: f.nodes ∧
        ∀ m ≥ n, ∀ v k,
          level? (walkAfter s q direction .bfs (Text.trim q.fqn) n).best v = some k →
          level? (walkAfter s q direction .bfs (Text.trim q.fqn) m).best v = some k := by
  refine ⟨_, callChain_outcome hroot hd hm, head?_walkOf s q direction _,
    pairwise_walkOf s q direction _,
    fun n => ⟨nodup_walkedThrough s q direction _ n, prefix_nodes_walkOf n, ?_⟩⟩
  intro m hm v k hk
  obtain ⟨more, rfl⟩ := Nat.exists_eq_add_of_le hm
  rw [walkAfter_add]
  exact Plan.level?_iterate rfl (inLine_walkAfter s q direction _ n) hk more

open CallChain in
/-- Oldest first, the routine at the end of the shortcut is reached at its final level. -/
theorem Store.callChain_shortcut_by_level :
    ∃ f, (Store.shortcut.callChain { fqn := " a " }).outcome = .ok f ∧
      f.nodes.head?.map (fun n => (n.fqn, n.depth)) = some ("a", 0) ∧
      f.nodes.Pairwise (fun a b => a.depth ≤ b.depth) ∧
      ∀ n,
        ((planOf .shortcut { fqn := " a " } .callees .bfs).walkedThrough n (Plan.start "a")).Nodup ∧
        (walkAfter .shortcut { fqn := " a " } .callees .bfs "a" n).nodes <+: f.nodes ∧
        ∀ m ≥ n, ∀ v k,
          level? (walkAfter .shortcut { fqn := " a " } .callees .bfs "a" n).best v = some k →
          level? (walkAfter .shortcut { fqn := " a " } .callees .bfs "a" m).best v = some k :=
  Store.shortcut.callChain_bfs_by_level { fqn := " a " } (by decide) rfl rfl

end CodeAtlas
