import CodeAtlas.Query.CallChain
import Mathlib.Algebra.Order.Group.Nat
import Mathlib.Data.List.Nodup

/-! # Levels of a walk

What every step of a walk keeps, for both orders of the walk. A recorded level is the
length of a way from the root; a routine that waits at its recorded level is walked through
once more, and a routine that was walked through has all that it leads to recorded. When
nothing waits any longer, the listed levels are therefore the distances from the root, and
the calls that lead anywhere bound the number of steps until then.
-/

namespace CodeAtlas.CallChain

/-- A way of some number of steps from the root to a routine. -/
inductive Way (leads : String → String → Prop) (root : String) : Nat → String → Prop where
  | here : Way leads root 0 root
  | on {n : Nat} {u v : String} : Way leads root n u → leads u v → Way leads root (n + 1) v

/-- The length of a shortest way. -/
def IsDistance (leads : String → String → Prop) (root : String) (n : Nat) (v : String) : Prop :=
  Way leads root n v ∧ ∀ m, Way leads root m v → n ≤ m

theorem Way.mono {leads leads' : String → String → Prop} (h : ∀ u v, leads u v → leads' u v)
    {root : String} {n : Nat} {v : String} (hw : Way leads root n v) : Way leads' root n v := by
  induction hw with
  | here => exact .here
  | on _ hl ih => exact .on ih (h _ _ hl)

theorem isDistance_congr {leads leads' : String → String → Prop}
    (h : ∀ u v, leads u v ↔ leads' u v) {root : String} {n : Nat} {v : String} :
    IsDistance leads root n v ↔ IsDistance leads' root n v := by
  have hw : ∀ m, Way leads root m v ↔ Way leads' root m v := fun m =>
    ⟨Way.mono fun u v => (h u v).mp, Way.mono fun u v => (h u v).mpr⟩
  simp only [IsDistance, hw]

/-! ## Recorded levels -/

section Levels

variable {best : List (String × Nat)} {u v : String} {k level : Nat}

theorem level?_cons : level? ((u, k) :: best) v = if u = v then some k else level? best v := by
  by_cases h : u = v <;> simp [level?, h]

def Recorded (best : List (String × Nat)) (v : String) (k : Nat) : Prop :=
  ∃ b, level? best v = some b ∧ b ≤ k

theorem improves_iff : improves best v k = true ↔ ∀ b, level? best v = some b → k < b := by
  unfold improves
  cases level? best v with
  | none => simp
  | some b => simp

theorem Recorded.cons (hi : improves best u level = true) (h : Recorded best v k) :
    Recorded ((u, level) :: best) v k := by
  obtain ⟨b, hb, hk⟩ := h
  by_cases he : u = v
  · subst he
    have hlt := improves_iff.mp hi b hb
    exact ⟨level, by simp [level?_cons], by omega⟩
  · exact ⟨b, by simp [level?_cons, he, hb], hk⟩

theorem recorded_of_not_improves (h : ¬ improves best v k = true) : Recorded best v k := by
  rw [improves_iff] at h
  push Not at h
  exact h

end Levels

section Reach

variable {level : Nat} {v : String} {k : Nat}

theorem reach_nil (best : List (String × Nat)) : reach level best [] = (best, []) := rfl

theorem reach_cons (best : List (String × Nat)) (u : String) (rest : List String) :
    reach level best (u :: rest) =
      if improves best u level then
        ((reach level ((u, level) :: best) rest).1,
          (u, level) :: (reach level ((u, level) :: best) rest).2)
      else reach level best rest := rfl

theorem Recorded.reach {best : List (String × Nat)} (h : Recorded best v k)
    (fqns : List String) : Recorded (reach level best fqns).1 v k := by
  induction fqns generalizing best with
  | nil => exact h
  | cons u rest ih =>
    rw [reach_cons]
    split
    · exact ih (h.cons ‹_›)
    · exact ih h

theorem recorded_reach {best : List (String × Nat)} {fqns : List String} (hv : v ∈ fqns) :
    Recorded (reach level best fqns).1 v level := by
  induction fqns generalizing best with
  | nil => simp at hv
  | cons u rest ih =>
    rw [reach_cons]
    rcases List.mem_cons.mp hv with rfl | hv
    · split
      · exact Recorded.reach ⟨level, by simp [level?_cons], le_rfl⟩ rest
      · exact Recorded.reach (recorded_of_not_improves ‹_›) rest
    · split <;> exact ih hv

/-- A level that is recorded after a step was recorded before it, or is new and waits. -/
theorem level?_reach {best : List (String × Nat)} {fqns : List String}
    (h : level? (reach level best fqns).1 v = some k) :
    level? best v = some k ∨ (k = level ∧ v ∈ fqns ∧ (v, k) ∈ (reach level best fqns).2) := by
  induction fqns generalizing best with
  | nil => exact .inl h
  | cons u rest ih =>
    rw [reach_cons] at h ⊢
    split at h
    · rename_i hi
      rw [if_pos hi]
      rcases ih h with hb | ⟨rfl, hv, hm⟩
      · rw [level?_cons] at hb
        split at hb
        · rename_i he
          obtain rfl : level = k := Option.some.inj hb
          exact .inr ⟨rfl, by simp [he], by simp [he]⟩
        · exact .inl hb
      · exact .inr ⟨rfl, List.mem_cons_of_mem _ hv, List.mem_cons_of_mem _ hm⟩
    · rename_i hi
      rw [if_neg hi]
      rcases ih h with hb | ⟨rfl, hv, hm⟩
      · exact .inl hb
      · exact .inr ⟨rfl, List.mem_cons_of_mem _ hv, hm⟩

theorem recorded_of_mem_reach {best : List (String × Nat)} {fqns : List String}
    (h : (v, k) ∈ (reach level best fqns).2) : Recorded (reach level best fqns).1 v k := by
  induction fqns generalizing best with
  | nil => simp [reach_nil] at h
  | cons u rest ih =>
    rw [reach_cons] at h ⊢
    split at h
    · rename_i hi
      rw [if_pos hi]
      rcases List.mem_cons.mp h with he | h
      · obtain ⟨rfl, rfl⟩ := Prod.mk.inj he
        exact Recorded.reach ⟨k, by simp [level?_cons], le_rfl⟩ rest
      · exact ih h
    · rename_i hi
      rw [if_neg hi]
      exact ih h

end Reach

/-! ## One step -/

/-- A list of nodes after a routine was walked through at a level: the routine is listed
once, at that level, and the other nodes are as before. -/
structure Settles (v : String) (k : Nat) (before after : List ChainNode) : Prop where
  mem_or : ∀ n ∈ after, (n.fqn = v ∧ n.depth = k) ∨ (n.fqn ≠ v ∧ n ∈ before)
  here : ∃ n ∈ after, n.fqn = v ∧ n.depth = k
  kept : ∀ n ∈ before, n.fqn ≠ v → n ∈ after
  nodup : (after.map ChainNode.fqn).Nodup

theorem settles_append {v : String} {k : Nat} {before : List ChainNode} (calls : List ChainCall)
    (hn : (before.map ChainNode.fqn).Nodup) (hv : ∀ n ∈ before, n.fqn ≠ v) :
    Settles v k before (before ++ [⟨v, k, calls⟩]) where
  mem_or n hn := by
    rcases List.mem_append.mp hn with h | h
    · exact .inr ⟨hv n h, h⟩
    · obtain rfl := List.mem_singleton.mp h
      exact .inl ⟨rfl, rfl⟩
  here := ⟨⟨v, k, calls⟩, by simp, rfl, rfl⟩
  kept n hn _ := List.mem_append_left _ hn
  nodup := by
    rw [List.map_append, List.nodup_append]
    refine ⟨hn, by simp, ?_⟩
    intro a ha b hb
    obtain ⟨n, hn, rfl⟩ := List.mem_map.mp ha
    obtain rfl : b = v := by simpa using hb
    exact hv n hn

theorem settles_map {v : String} {k : Nat} {before : List ChainNode}
    (hn : (before.map ChainNode.fqn).Nodup) (hv : ∃ n ∈ before, n.fqn = v) :
    Settles v k before
      (before.map fun n => if n.fqn == v then { n with depth := k } else n) where
  mem_or n hn := by
    obtain ⟨m, hm, rfl⟩ := List.mem_map.mp hn
    by_cases h : m.fqn = v
    · exact .inl (by simp [h])
    · exact .inr (by simpa [h] using hm)
  here := by
    obtain ⟨n, hn, rfl⟩ := hv
    exact ⟨{ n with depth := k }, List.mem_map.mpr ⟨n, hn, by simp⟩, rfl, rfl⟩
  kept n hn hne := List.mem_map.mpr ⟨n, hn, by simp [hne]⟩
  nodup := by
    have he : (before.map fun n => if n.fqn == v then { n with depth := k } else n).map
        ChainNode.fqn = before.map ChainNode.fqn := by
      rw [List.map_map]
      refine List.map_congr_left fun n _ => ?_
      by_cases h : n.fqn = v <;> simp [h]
    rwa [he]

namespace Plan

variable {p : Plan} {root : String} {w : Walk}

/-- Where the walk goes on to. -/
def Leads (p : Plan) (u v : String) : Prop := v ∈ p.onward u

/-- What holds of a walk at any time. -/
structure Sound (p : Plan) (root : String) (w : Walk) : Prop where
  best_root : level? w.best root = some 0
  /-- Recorded levels are lengths of ways. -/
  best_way : ∀ v k, level? w.best v = some k → Way p.Leads root k v ∧ k ≤ p.depth
  waiting_recorded : ∀ v k, (v, k) ∈ w.waiting → Recorded w.best v k
  /-- A recorded level waits, or the routine was walked through at it. -/
  best_settled : ∀ v k, level? w.best v = some k →
    (v, k) ∈ w.waiting ∨ ∃ n ∈ w.nodes, n.fqn = v ∧ n.depth = k
  node_recorded : ∀ n ∈ w.nodes, Recorded w.best n.fqn n.depth
  /-- All that a routine leads to is recorded when it was walked through. -/
  node_onward : ∀ n ∈ w.nodes, n.depth < p.depth →
    ∀ v ∈ p.onward n.fqn, Recorded w.best v (n.depth + 1)
  nodup : (w.nodes.map ChainNode.fqn).Nodup

theorem sound_start (p : Plan) (root : String) : p.Sound root (start root) where
  best_root := by simp [start, level?]
  best_way v k h := by
    rw [start, level?_cons] at h
    split at h
    · rename_i he
      obtain rfl : 0 = k := Option.some.inj h
      exact ⟨he ▸ .here, Nat.zero_le _⟩
    · simp [level?] at h
  waiting_recorded v k h := by
    obtain ⟨rfl, rfl⟩ := Prod.mk.inj (List.mem_singleton.mp h)
    exact ⟨0, by simp [start, level?], le_rfl⟩
  best_settled v k h := by
    rw [start, level?_cons] at h
    split at h
    · rename_i he
      obtain rfl : 0 = k := Option.some.inj h
      exact .inl (by simp [start, he])
    · simp [level?] at h
  node_recorded n hn := by simp [start] at hn
  node_onward n hn := by simp [start] at hn
  nodup := by simp [start]

theorem mem_enqueue {waiting new : List (String × Nat)} {x : String × Nat} :
    x ∈ p.enqueue waiting new ↔ x ∈ waiting ∨ x ∈ new := by
  unfold enqueue
  cases p.mode <;> simp [or_comm]

theorem length_enqueue (waiting new : List (String × Nat)) :
    (p.enqueue waiting new).length = waiting.length + new.length := by
  unfold enqueue
  cases p.mode <;> simp [Nat.add_comm]

/-- The routines that are recorded when one is walked through at a level. -/
def ahead (p : Plan) (v : String) (k : Nat) : List String :=
  if k < p.depth then p.onward v else []

theorem expand_eq (w : Walk) (v : String) (k : Nat) :
    p.expand w v k =
      { w with
        best := (reach (k + 1) w.best (p.ahead v k)).1
        waiting := p.enqueue w.waiting (reach (k + 1) w.best (p.ahead v k)).2 } := by
  unfold expand ahead
  split
  · rfl
  · cases hm : p.mode <;> simp [reach_nil, enqueue, hm]

theorem way_of_mem_ahead {u v : String} {k : Nat} (hu : Way p.Leads root k u)
    (hv : v ∈ p.ahead u k) : Way p.Leads root (k + 1) v ∧ k + 1 ≤ p.depth := by
  unfold ahead at hv
  split at hv
  · exact ⟨.on hu hv, ‹_›⟩
  · simp at hv

theorem Sound.settle (h : p.Sound root w) {v : String} {k : Nat} {rest : List (String × Nat)}
    (hw : w.waiting = (v, k) :: rest) (hb : level? w.best v = some k) {nodes : List ChainNode}
    (hs : Settles v k w.nodes nodes) (ext : List CallEdge) :
    p.Sound root
      { best := (reach (k + 1) w.best (p.ahead v k)).1
        nodes := nodes
        externalCalls := ext
        waiting := p.enqueue rest (reach (k + 1) w.best (p.ahead v k)).2 } where
  best_root := by
    have hr : Recorded (reach (k + 1) w.best (p.ahead v k)).1 root 0 :=
      Recorded.reach ⟨0, h.best_root, le_rfl⟩ _
    obtain ⟨b, hb, hz⟩ := hr
    obtain rfl : b = 0 := by omega
    exact hb
  best_way u j hu := by
    rcases level?_reach hu with hu | ⟨rfl, hm, _⟩
    · exact h.best_way u j hu
    · exact way_of_mem_ahead (h.best_way v k hb).1 hm
  waiting_recorded u j hu := by
    rcases mem_enqueue.mp hu with hu | hu
    · exact (h.waiting_recorded u j (hw ▸ List.mem_cons_of_mem _ hu)).reach _
    · exact recorded_of_mem_reach hu
  best_settled u j hu := by
    rcases level?_reach hu with hu | ⟨_, _, hm⟩
    · rcases h.best_settled u j hu with hm | ⟨n, hn, rfl, rfl⟩
      · rcases List.mem_cons.mp (hw ▸ hm) with he | hm
        · obtain ⟨rfl, rfl⟩ := Prod.mk.inj he
          exact .inr hs.here
        · exact .inl (mem_enqueue.mpr (.inl hm))
      · by_cases hv : n.fqn = v
        · obtain rfl : k = n.depth := Option.some.inj (hb.symm.trans (hv ▸ hu))
          exact .inr (hv ▸ hs.here)
        · exact .inr ⟨n, hs.kept n hn hv, rfl, rfl⟩
    · exact .inl (mem_enqueue.mpr (.inr hm))
  node_recorded n hn := by
    rcases hs.mem_or n hn with ⟨hv, hd⟩ | ⟨_, hm⟩
    · rw [hv, hd]
      exact Recorded.reach ⟨k, hb, le_rfl⟩ _
    · exact (h.node_recorded n hm).reach _
  node_onward n hn hd u hu := by
    rcases hs.mem_or n hn with ⟨hv, rfl⟩ | ⟨_, hm⟩
    · have hu : u ∈ p.ahead v n.depth := by rwa [ahead, if_pos hd, ← hv]
      exact recorded_reach hu
    · exact (h.node_onward n hm hd u hu).reach _
  nodup := hs.nodup

theorem Sound.drop (h : p.Sound root w) {v : String} {k : Nat} {rest : List (String × Nat)}
    (hw : w.waiting = (v, k) :: rest)
    (hd : ∀ b, level? w.best v = some b → b < k ∨ ∃ n ∈ w.nodes, n.fqn = v ∧ n.depth = b) :
    p.Sound root { w with waiting := rest } where
  best_root := h.best_root
  best_way := h.best_way
  waiting_recorded u j hu := h.waiting_recorded u j (hw ▸ List.mem_cons_of_mem _ hu)
  best_settled u j hu := by
    rcases h.best_settled u j hu with hm | hm
    · rcases List.mem_cons.mp (hw ▸ hm) with he | hm
      · obtain ⟨rfl, rfl⟩ := Prod.mk.inj he
        rcases hd j hu with hlt | hn
        · omega
        · exact .inr hn
      · exact .inl hm
    · exact .inr hm
  node_recorded := h.node_recorded
  node_onward := h.node_onward
  nodup := h.nodup

theorem Sound.pass (h : p.Sound root w) {v : String} {k : Nat} {rest : List (String × Nat)}
    (hw : w.waiting = (v, k) :: rest) (hb : level? w.best v = some k) :
    p.Sound root (p.pass { w with waiting := rest } v k) := by
  unfold Plan.pass
  split
  · rename_i n hf
    have hn : n ∈ w.nodes := List.mem_of_find?_eq_some hf
    have hv : n.fqn = v := by simpa using List.find?_some hf
    split
    · rename_i hle
      -- The node stands at the recorded level already.
      obtain ⟨b, hb', hbn⟩ := h.node_recorded n hn
      obtain rfl : k = b := Option.some.inj (hb.symm.trans (hv ▸ hb'))
      refine h.drop hw fun b hb'' => .inr ⟨n, hn, hv, ?_⟩
      obtain rfl : k = b := Option.some.inj (hb.symm.trans hb'')
      omega
    · simp only [revisit, expand_eq]
      exact h.settle hw hb (settles_map h.nodup ⟨n, hn, hv⟩) _
  · rename_i hf
    have hv : ∀ n ∈ w.nodes, n.fqn ≠ v := by simpa using hf
    simp only [visit, expand_eq]
    exact h.settle hw hb (settles_append _ h.nodup hv) _

theorem Sound.step (h : p.Sound root w) : p.Sound root (p.step w) := by
  unfold Plan.step
  split
  · exact h
  · rename_i v k rest hw
    obtain ⟨b, hb, hle⟩ := h.waiting_recorded v k (by simp [hw])
    simp only [hb]
    split
    · rename_i hlt
      refine h.drop hw fun b' hb' => .inl ?_
      obtain rfl : b = b' := Option.some.inj (hb.symm.trans hb')
      exact hlt
    · rename_i hlt
      obtain rfl : b = k := by omega
      exact h.pass hw hb

theorem Sound.run (h : p.Sound root w) (n : Nat) : p.Sound root (p.run n w) := by
  induction n generalizing w with
  | zero => exact h
  | succ n ih =>
    unfold Plan.run
    split
    · exact h
    · exact ih h.step

/-- A finished walk lists the routines within its depth, each at its distance. -/
theorem Sound.mem_nodes_iff (h : p.Sound root w) (hw : w.waiting = []) (v : String) (k : Nat) :
    (∃ n ∈ w.nodes, n.fqn = v ∧ n.depth = k) ↔
      IsDistance p.Leads root k v ∧ k ≤ p.depth := by
  have listed : ∀ v k, level? w.best v = some k → ∃ n ∈ w.nodes, n.fqn = v ∧ n.depth = k := by
    intro v k hk
    rcases h.best_settled v k hk with hm | hn
    · simp [hw] at hm
    · exact hn
  have within : ∀ m u, Way p.Leads root m u → m ≤ p.depth → Recorded w.best u m := by
    intro m u hu
    induction hu with
    | here => exact fun _ => ⟨0, h.best_root, le_rfl⟩
    | @on m u u' _ hl ih =>
      intro hm
      obtain ⟨b, hb, hbm⟩ := ih (by omega)
      obtain ⟨n, hn, rfl, rfl⟩ := listed u b hb
      obtain ⟨b', hb', hle⟩ := h.node_onward n hn (by omega) u' hl
      exact ⟨b', hb', by omega⟩
  have best_iff : level? w.best v = some k ↔ IsDistance p.Leads root k v ∧ k ≤ p.depth := by
    constructor
    · intro hk
      obtain ⟨hway, hle⟩ := h.best_way v k hk
      refine ⟨⟨hway, fun m hm => ?_⟩, hle⟩
      by_contra hlt
      obtain ⟨b, hb, hbm⟩ := within m v hm (by omega)
      obtain rfl : k = b := Option.some.inj (hk.symm.trans hb)
      omega
    · rintro ⟨⟨hway, hmin⟩, hle⟩
      obtain ⟨b, hb, hbk⟩ := within k v hway hle
      obtain rfl : k = b := le_antisymm (hmin b (h.best_way v b hb).1) hbk
      exact hb
  rw [← best_iff]
  constructor
  · rintro ⟨n, hn, rfl, rfl⟩
    obtain ⟨b, hb, _⟩ := h.node_recorded n hn
    obtain ⟨m, hm, hfqn, rfl⟩ := listed n.fqn b hb
    obtain rfl : m = n := List.inj_on_of_nodup_map h.nodup hm hn hfqn
    exact hb
  · exact listed v k

/-! ## The number of steps -/

/-- How often the level of a routine can still be lowered. -/
def room (depth : Nat) (best : List (String × Nat)) (v : String) : Nat :=
  match level? best v with
  | none => depth
  | some k => k - 1

/-- How often the levels of some routines can still be lowered in all. -/
def slack (depth : Nat) (best : List (String × Nat)) : List String → Nat
  | [] => 0
  | v :: targets => room depth best v + slack depth best targets

section Slack

variable {targets : List String} {depth level : Nat} {best best' : List (String × Nat)}

theorem slack_le (h : ∀ v, room depth best v ≤ room depth best' v) (targets : List String) :
    slack depth best targets ≤ slack depth best' targets := by
  induction targets with
  | nil => exact Nat.le_refl _
  | cons v targets ih => exact Nat.add_le_add (h v) ih

theorem slack_lt (h : ∀ v, room depth best v ≤ room depth best' v) {v : String}
    (hv : v ∈ targets) (hlt : room depth best v < room depth best' v) :
    slack depth best targets < slack depth best' targets := by
  induction targets with
  | nil => simp at hv
  | cons u targets ih =>
    simp only [slack]
    rcases List.mem_cons.mp hv with rfl | hv
    · exact Nat.add_lt_add_of_lt_of_le hlt (slack_le h targets)
    · exact Nat.add_lt_add_of_le_of_lt (h u) (ih hv)

theorem slack_cons {v : String} (hv : v ∈ targets) (hi : improves best v level = true)
    (h₁ : 1 ≤ level) (h₂ : level ≤ depth) :
    slack depth ((v, level) :: best) targets < slack depth best targets := by
  have here : room depth ((v, level) :: best) v < room depth best v := by
    simp only [room, level?_cons, if_pos]
    cases hb : level? best v with
    | none => simp only; omega
    | some b =>
      have hlt := improves_iff.mp hi b hb
      simp only; omega
  refine slack_lt (fun u => ?_) hv here
  by_cases hu : v = u
  · exact hu ▸ here.le
  · simp [room, level?_cons, hu]

theorem slack_reach {fqns : List String} (ht : ∀ v ∈ fqns, v ∈ targets) (h₁ : 1 ≤ level)
    (h₂ : level ≤ depth) :
    slack depth (reach level best fqns).1 targets + (reach level best fqns).2.length ≤
      slack depth best targets := by
  induction fqns generalizing best with
  | nil => simp [reach_nil]
  | cons u rest ih =>
    have ht' : ∀ v ∈ rest, v ∈ targets := fun v hv => ht v (List.mem_cons_of_mem _ hv)
    rw [reach_cons]
    split
    · rename_i hi
      have hc := slack_cons (ht u (by simp)) hi h₁ h₂
      have hr : slack depth (reach level ((u, level) :: best) rest).1 targets
          + (reach level ((u, level) :: best) rest).2.length ≤
            slack depth ((u, level) :: best) targets := ih ht'
      simp only [List.length_cons]
      omega
    · exact ih ht'

end Slack

/-- What is waiting and what may still come. -/
def remaining (p : Plan) (targets : List String) (w : Walk) : Nat :=
  w.waiting.length + slack p.depth w.best targets

theorem remaining_expand {targets : List String} (ht : ∀ u v, p.Leads u v → v ∈ targets)
    (w : Walk) (v : String) (k : Nat) :
    p.remaining targets (p.expand w v k) ≤ p.remaining targets w := by
  unfold expand
  split
  · have hr : slack p.depth (reach (k + 1) w.best (p.onward v)).1 targets
        + (reach (k + 1) w.best (p.onward v)).2.length ≤ slack p.depth w.best targets :=
      slack_reach (ht v) (Nat.le_add_left 1 k) ‹k < p.depth›
    simp only [remaining, length_enqueue]
    omega
  · exact le_rfl

theorem remaining_pass {targets : List String} (ht : ∀ u v, p.Leads u v → v ∈ targets)
    (w : Walk) (v : String) (k : Nat) :
    p.remaining targets (p.pass w v k) ≤ p.remaining targets w := by
  unfold Plan.pass
  split
  · split
    · exact le_rfl
    · exact remaining_expand ht w v k
  · exact remaining_expand ht w v k

theorem remaining_step {targets : List String} (ht : ∀ u v, p.Leads u v → v ∈ targets)
    (hw : w.waiting ≠ []) : p.remaining targets (p.step w) < p.remaining targets w := by
  unfold Plan.step
  split
  · exact absurd ‹_› hw
  · rename_i v k rest hw
    have hlt : p.remaining targets { w with waiting := rest } < p.remaining targets w := by
      simp [remaining, hw]
    have hp := remaining_pass ht { w with waiting := rest } v k
    simp only
    split
    · split <;> omega
    · omega

theorem run_waiting {targets : List String} (ht : ∀ u v, p.Leads u v → v ∈ targets) (n : Nat)
    (hn : p.remaining targets w ≤ n) : (p.run n w).waiting = [] := by
  induction n generalizing w with
  | zero =>
    have : w.waiting.length = 0 := by
      unfold remaining at hn
      omega
    exact List.eq_nil_of_length_eq_zero this
  | succ n ih =>
    unfold Plan.run
    split
    · assumption
    · rename_i hw
      have hs := remaining_step (w := w) ht (by simp [hw])
      exact ih (by omega)

theorem run_of_waiting_nil (hw : w.waiting = []) (n : Nat) : p.run n w = w := by
  cases n with
  | zero => rfl
  | succ n => simp [Plan.run, hw]

theorem run_add (n m : Nat) : p.run (n + m) w = p.run m (p.run n w) := by
  induction n generalizing w with
  | zero => rw [Nat.zero_add, Plan.run]
  | succ n ih =>
    rw [Nat.add_right_comm, Plan.run, Plan.run]
    split
    · rw [run_of_waiting_nil ‹_›]
    · exact ih

theorem run_eq_of_waiting_nil {n m : Nat} (hn : (p.run n w).waiting = [])
    (hm : (p.run m w).waiting = []) : p.run n w = p.run m w := by
  have hnm : p.run (n + m) w = p.run n w := by rw [run_add, run_of_waiting_nil hn]
  have hmn : p.run (m + n) w = p.run m w := by rw [run_add, run_of_waiting_nil hm]
  rw [← hnm, ← hmn, Nat.add_comm]

theorem remaining_start (targets : List String) (root : String) :
    p.remaining targets (start root) ≤ targets.length * p.depth + 1 := by
  have hr : ∀ v, room p.depth [(root, 0)] v ≤ p.depth := by
    intro v
    by_cases h : root = v <;> simp [room, level?, h]
  have hs : slack p.depth [(root, 0)] targets ≤ targets.length * p.depth := by
    induction targets with
    | nil => exact Nat.zero_le _
    | cons v targets ih =>
      have hv := hr v
      simp only [slack, List.length_cons, Nat.add_one_mul]
      omega
  simp only [remaining, start, List.length_singleton]
  omega

end Plan

end CodeAtlas.CallChain
