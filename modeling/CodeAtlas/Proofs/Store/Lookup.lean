import CodeAtlas.Store.Lookup
import Mathlib.Data.List.Nodup
import Mathlib.Data.String.Basic

/-! # Orders of lookups

Rows are sorted by one key after another. The list that comes out has the same rows, and a
row stands before another when its first differing key is the lesser one. Cut off at a limit,
the list has the rows that fewer others than the limit stand before.
-/

namespace CodeAtlas

variable {α β : Type}

instance {first second : α → α → Ordering} [Std.TransCmp first] [Std.TransCmp second] :
    Std.TransCmp (thenBy first second) :=
  inferInstanceAs (Std.TransCmp (compareLex first second))

instance {key : α → β} [Ord β] [Std.TransOrd β] : Std.TransCmp (byKey key) :=
  inferInstanceAs (Std.TransCmp (compareOn key))

theorem isLE_byKey [LinearOrder β] {key : α → β} {a b : α} :
    (byKey key a b).isLE = true ↔ key a ≤ key b := by
  rw [byKey, ← compare_le_iff_le, Ordering.isLE_iff_ne_gt]

theorem isLE_thenBy_byKey [LinearOrder β] {key : α → β} {order : α → α → Ordering} {a b : α} :
    (thenBy (byKey key) order a b).isLE = true ↔
      key a < key b ∨ (key a = key b ∧ (order a b).isLE = true) := by
  rw [thenBy, byKey]
  rcases lt_trichotomy (key a) (key b) with h | h | h
  · rw [compare_lt_iff_lt.mpr h]
    simp [h]
  · rw [compare_eq_iff_eq.mpr h]
    simp [h]
  · rw [compare_gt_iff_gt.mpr h]
    simp [h.not_gt, h.ne']

theorem sortBy_perm (order : α → α → Ordering) (xs : List α) : (sortBy order xs).Perm xs :=
  List.mergeSort_perm xs _

theorem pairwise_sortBy (order : α → α → Ordering) [Std.TransCmp order] (xs : List α) :
    (sortBy order xs).Pairwise fun a b => (order a b).isLE = true := by
  apply List.pairwise_mergeSort
  · intro a b c hab hbc
    exact Std.TransCmp.isLE_trans hab hbc
  · intro a b
    have hswap : order b a = (order a b).swap := Std.OrientedCmp.eq_swap
    rw [hswap]
    cases order a b <;> rfl

/-! ## The front of a sorted list -/

section Sorted

variable {order : α → α → Ordering} [Std.TransCmp order] {xs : List α} {a : α}

def countBefore (order : α → α → Ordering) (xs : List α) (a : α) : Nat :=
  xs.countP fun b => (order b a).isLT

theorem pairwise_sortBy_lt (hnodup : xs.Nodup)
    (heq : ∀ a ∈ xs, ∀ b ∈ xs, order a b = .eq → a = b) :
    (sortBy order xs).Pairwise fun a b => order a b = .lt := by
  have hperm := sortBy_perm order xs
  refine ((pairwise_sortBy order xs).and (hperm.nodup_iff.mpr hnodup)).imp_of_mem ?_
  rintro a b ha hb ⟨hle, hne⟩
  cases h : order a b with
  | lt => rfl
  | eq => exact absurd (heq a (hperm.mem_iff.mp ha) b (hperm.mem_iff.mp hb) h) hne
  | gt => simp [h] at hle

/-- In a strictly sorted list, the elements before one are those that the order puts there. -/
theorem countBefore_append {as bs : List α}
    (h : (as ++ a :: bs).Pairwise fun x y => order x y = .lt) :
    countBefore order (as ++ a :: bs) a = as.length := by
  obtain ⟨-, hbehind, hcross⟩ := List.pairwise_append.mp h
  have hself : order a a = .eq := Std.ReflCmp.compare_self
  have hbefore : as.countP (fun b => (order b a).isLT) = as.length := by
    rw [List.countP_eq_length]
    intro b hb
    rw [hcross b hb a List.mem_cons_self]
    rfl
  have hafter : (a :: bs).countP (fun b => (order b a).isLT) = 0 := by
    rw [List.countP_eq_zero]
    intro b hb
    rcases List.mem_cons.mp hb with rfl | hb
    · rw [hself]
      decide
    · have hswap : order b a = (order a b).swap := Std.OrientedCmp.eq_swap
      rw [hswap, (List.pairwise_cons.mp hbehind).1 b hb]
      decide
  rw [countBefore, List.countP_append, hbefore, hafter, Nat.add_zero]

/-- The front of a strictly sorted list has the elements with few others before them. -/
theorem mem_take_iff_of_pairwise (h : xs.Pairwise fun x y => order x y = .lt) (ha : a ∈ xs)
    (n : Nat) : a ∈ xs.take n ↔ countBefore order xs a < n := by
  obtain ⟨as, bs, rfl⟩ := List.append_of_mem ha
  rw [countBefore_append h]
  constructor
  · intro htake
    by_contra hlength
    rw [List.take_append_of_le_length (by omega)] at htake
    have hlt := (List.pairwise_append.mp h).2.2 a (List.mem_of_mem_take htake) a List.mem_cons_self
    have hself : order a a = .eq := Std.ReflCmp.compare_self
    rw [hself] at hlt
    cases hlt
  · intro hlength
    obtain ⟨k, hk⟩ : ∃ k, n - as.length = k + 1 := ⟨n - as.length - 1, by omega⟩
    rw [List.take_append, hk, List.take_succ_cons]
    exact List.mem_append_right _ List.mem_cons_self

theorem mem_take_sortBy_iff (hnodup : xs.Nodup)
    (heq : ∀ a ∈ xs, ∀ b ∈ xs, order a b = .eq → a = b) (n : Nat) :
    a ∈ (sortBy order xs).take n ↔ a ∈ xs ∧ countBefore order xs a < n := by
  have hperm := sortBy_perm order xs
  have hcount : countBefore order (sortBy order xs) a = countBefore order xs a := hperm.countP_eq _
  constructor
  · intro htake
    have hmem := List.mem_of_mem_take htake
    rw [mem_take_iff_of_pairwise (pairwise_sortBy_lt hnodup heq) hmem, hcount] at htake
    exact ⟨hperm.mem_iff.mp hmem, htake⟩
  · rintro ⟨hmem, hlt⟩
    rwa [mem_take_iff_of_pairwise (pairwise_sortBy_lt hnodup heq) (hperm.mem_iff.mpr hmem), hcount]

end Sorted

end CodeAtlas
