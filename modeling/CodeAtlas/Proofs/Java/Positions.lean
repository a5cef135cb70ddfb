import CodeAtlas.Java.Tree
import Mathlib.Data.List.Basic
import Mathlib.Logic.Function.Basic

/-! # Positions in a parse tree

A node of a tree is told from all others by its position, the numbers of the children on the
way down to it: two nodes of the same kind and range can still stand at two positions.
Positions are ordered as the nodes are written down, a node before what is below it and a
child before its later siblings. What is collected from a tree is compared with a listing:
everything that a predicate holds of, once, in the order of the positions.
-/

namespace CodeAtlas.Java

/-! ## The order of positions -/

/-- A position comes before those below it and those further right. -/
def Before (p q : List Nat) : Prop := List.Lex (· < ·) p q

namespace Before

variable {i j : Nat} {p q : List Nat}

theorem nil_cons : Before [] (i :: p) := .nil

theorem cons_iff : Before (i :: p) (j :: q) ↔ i < j ∨ i = j ∧ Before p q := by
  constructor
  · intro h
    cases h with
    | cons h => exact .inr ⟨rfl, h⟩
    | rel h => exact .inl h
  · rintro (h | ⟨rfl, h⟩)
    · exact .rel h
    · exact .cons h

theorem append_left (r : List Nat) (h : Before p q) : Before (r ++ p) (r ++ q) := by
  induction r with
  | nil => exact h
  | cons i r ih => exact .cons ih

/-- Of two positions, neither above the other, everything below the first comes before
everything below the second. -/
theorem append (h : Before p q) (hp : ¬p <+: q) (r s : List Nat) : Before (p ++ r) (q ++ s) := by
  induction h with
  | nil => exact absurd (List.nil_prefix) hp
  | rel h => exact .rel h
  | cons _ ih => exact .cons (ih fun hpq => hp (List.cons_prefix_cons.mpr ⟨rfl, hpq⟩))

theorem irrefl (p : List Nat) : ¬Before p p := by
  induction p with
  | nil => exact List.not_lex_nil
  | cons i p ih =>
    rw [cons_iff]
    rintro (h | ⟨_, h⟩)
    · exact absurd h (Nat.lt_irrefl i)
    · exact ih h

end Before

/-! ## Listings -/

variable {α β : Type}

/-- The list holds, each at its position, exactly what the predicate holds of, in order. -/
structure Lists (P : List Nat → α → Prop) (xs : List (List Nat × α)) : Prop where
  ordered : xs.Pairwise fun a b => Before a.1 b.1
  mem_iff : ∀ {p : List Nat} {x : α}, (p, x) ∈ xs ↔ P p x

/-- Something found below a child, at its position there, seen from the parent. -/
def descend (i : Nat) (a : List Nat × α) : List Nat × α := (i :: a.1, a.2)

theorem mem_map_descend {i : Nat} {xs : List (List Nat × α)} {p : List Nat} {x : α} :
    (p, x) ∈ xs.map (descend i) ↔ ∃ q, p = i :: q ∧ (q, x) ∈ xs := by
  constructor
  · intro h
    obtain ⟨⟨q, y⟩, hy, he⟩ := List.mem_map.mp h
    obtain ⟨rfl, rfl⟩ := Prod.mk.inj he
    exact ⟨q, rfl, hy⟩
  · rintro ⟨q, rfl, h⟩
    exact List.mem_map.mpr ⟨(q, x), h, rfl⟩

theorem pairwise_map_descend {i : Nat} {xs : List (List Nat × α)}
    (h : xs.Pairwise fun a b => Before a.1 b.1) :
    (xs.map (descend i)).Pairwise fun a b => Before a.1 b.1 :=
  List.pairwise_map.mpr (h.imp .cons)

/-- What `Q` says of one of the children `cs`, the first of which has the number `i`. -/
def Among (Q : β → List Nat → α → Prop) (i : Nat) (cs : List β) (p : List Nat) (x : α) : Prop :=
  ∃ k c q, cs[k]? = some c ∧ p = (i + k) :: q ∧ Q c q x

namespace Lists

variable {P : List Nat → α → Prop} {Q : β → List Nat → α → Prop} {xs ys : List (List Nat × α)}

theorem congr {P' : List Nat → α → Prop} (h : Lists P xs) (hp : ∀ p x, P' p x ↔ P p x) :
    Lists P' xs :=
  ⟨h.ordered, by intro p x; rw [h.mem_iff, hp]⟩

theorem descend (i : Nat) (h : Lists P xs) :
    Lists (fun p x => ∃ q, p = i :: q ∧ P q x) (xs.map (Java.descend i)) where
  ordered := pairwise_map_descend h.ordered
  mem_iff := by
    intro p x
    simp only [mem_map_descend, h.mem_iff]

theorem root (a : α) (h : Lists P xs) (hp : ∀ x, ¬P [] x) :
    Lists (fun p x => p = [] ∧ x = a ∨ P p x) (([], a) :: xs) where
  ordered := by
    refine List.pairwise_cons.mpr ⟨?_, h.ordered⟩
    rintro ⟨p, x⟩ hx
    cases p with
    | nil => exact absurd (h.mem_iff.mp hx) (hp x)
    | cons i p => exact Before.nil_cons
  mem_iff := by
    intro p x
    rw [List.mem_cons, Prod.mk.injEq, h.mem_iff]

theorem among_nil (Q : β → List Nat → α → Prop) (i : Nat) : Lists (Among Q i []) [] where
  ordered := .nil
  mem_iff := by simp [Among]

theorem among_cons {i : Nat} {c : β} {cs : List β} (hc : Lists (Q c) xs)
    (hcs : Lists (Among Q (i + 1) cs) ys) :
    Lists (Among Q i (c :: cs)) (xs.map (Java.descend i) ++ ys) where
  ordered := by
    refine List.pairwise_append.mpr ⟨pairwise_map_descend hc.ordered, hcs.ordered, ?_⟩
    rintro ⟨p, x⟩ hx ⟨q, y⟩ hy
    obtain ⟨p, rfl, _⟩ := mem_map_descend.mp hx
    obtain ⟨k, _, q, _, rfl, _⟩ := hcs.mem_iff.mp hy
    exact .rel (by omega)
  mem_iff := by
    intro p x
    rw [List.mem_append, mem_map_descend, hcs.mem_iff]
    constructor
    · rintro (⟨q, rfl, hq⟩ | ⟨k, d, q, hd, rfl, hq⟩)
      · exact ⟨0, c, q, rfl, rfl, hc.mem_iff.mp hq⟩
      · exact ⟨k + 1, d, q, hd, by rw [Nat.add_right_comm, Nat.add_assoc], hq⟩
    · rintro ⟨k, d, q, hd, rfl, hq⟩
      cases k with
      | zero =>
        obtain rfl : c = d := by simpa using hd
        exact .inl ⟨q, rfl, hc.mem_iff.mpr hq⟩
      | succ k => exact .inr ⟨k, d, q, hd, by rw [Nat.add_right_comm, Nat.add_assoc], hq⟩

end Lists

theorem map_snd_descend (i : Nat) (xs : List (List Nat × α)) :
    (xs.map (descend i)).map Prod.snd = xs.map Prod.snd := by
  rw [List.map_map]
  rfl

/-! ## Selections from a list -/

/-- The things of a type that have their key in a list, in the order of the list. -/
noncomputable def select (key : β → α) (xs : List α) : List β :=
  xs.filterMap (Function.partialInv key)

section Select

variable {key : β → α} {xs : List α}

theorem mem_select_iff (hkey : key.Injective) {b : β} : b ∈ select key xs ↔ key b ∈ xs := by
  constructor
  · intro h
    obtain ⟨a, ha, hb⟩ := List.mem_filterMap.mp h
    rwa [(hkey.isPartialInv b a).mp hb]
  · intro h
    exact List.mem_filterMap.mpr ⟨key b, h, Function.partialInv_left hkey b⟩

theorem pairwise_select (hkey : key.Injective) {r : α → α → Prop} (h : xs.Pairwise r) :
    (select key xs).Pairwise fun a b => r (key a) (key b) := by
  refine List.pairwise_filterMap.mpr (h.imp ?_)
  intro a b hab c hc d hd
  rwa [(hkey.isPartialInv c a).mp hc, (hkey.isPartialInv d b).mp hd]

/-- What is collected from a list comes from the selected things alone, when nothing is
collected from the others. -/
theorem flatMap_select (hkey : key.Injective) {γ : Type} {g : α → List γ} {g' : β → List γ}
    (hg : ∀ b, key b ∈ xs → g (key b) = g' b)
    (hnone : ∀ a ∈ xs, (∀ b, key b ≠ a) → g a = []) :
    xs.flatMap g = (select key xs).flatMap g' := by
  induction xs with
  | nil => rfl
  | cons a xs ih =>
    rw [List.flatMap_cons, ih (fun b hb => hg b (List.mem_cons_of_mem _ hb))
      fun x hx => hnone x (List.mem_cons_of_mem _ hx), select, select, List.filterMap_cons]
    cases hb : Function.partialInv key a with
    | none =>
      have ha : ∀ b, key b ≠ a := by
        rintro b rfl
        simp [Function.partialInv_left hkey] at hb
      rw [hnone a List.mem_cons_self ha, List.nil_append]
    | some b =>
      obtain rfl := (hkey.isPartialInv b a).mp hb
      rw [hg b List.mem_cons_self, List.flatMap_cons]

end Select

/-! ## Nodes by their positions -/

namespace Node

def at? : Node → List Nat → Option Node
  | n, [] => some n
  | n, i :: p => n.children[i]?.bind fun c => c.at? p

@[simp] theorem at?_nil (n : Node) : n.at? [] = some n := by
  rw [at?]

theorem at?_cons (n : Node) (i : Nat) (p : List Nat) :
    n.at? (i :: p) = n.children[i]?.bind fun c => c.at? p := by
  rw [at?]

theorem at?_append {n m : Node} {p : List Nat} (h : n.at? p = some m) (q : List Nat) :
    n.at? (p ++ q) = m.at? q := by
  induction p generalizing n with
  | nil =>
    obtain rfl := Option.some.inj ((at?_nil n).symm.trans h)
    rfl
  | cons i p ih =>
    rw [at?_cons] at h
    obtain ⟨c, hc, h⟩ := Option.bind_eq_some_iff.mp h
    rw [List.cons_append, at?_cons, hc]
    exact ih h

theorem at?_cons_eq_some_iff {n m : Node} {i : Nat} {p : List Nat} :
    n.at? (i :: p) = some m ↔ ∃ c, n.children[i]? = some c ∧ c.at? p = some m := by
  rw [at?_cons, Option.bind_eq_some_iff]

theorem at?_iff (n m : Node) (p : List Nat) :
    n.at? p = some m ↔
      p = [] ∧ m = n ∨ Among (fun c q m => c.at? q = some m) 0 n.children p m := by
  cases p with
  | nil => simp [Among, eq_comm]
  | cons i p => simp [Among, at?_cons_eq_some_iff]

mutual

theorem exists_lists_preorder : ∀ n : Node,
    ∃ xs, Lists (fun p m => n.at? p = some m) xs ∧ xs.map Prod.snd = n.preorder
  | .mk k r a b cs => by
    obtain ⟨xs, hxs, hmap⟩ := exists_lists_preorderAll 0 cs
    refine ⟨([], .mk k r a b cs) :: xs, ?_, ?_⟩
    · exact (hxs.root _ (by simp [Among])).congr fun p m => at?_iff _ m p
    · rw [List.map_cons, hmap, preorder]

theorem exists_lists_preorderAll : ∀ (i : Nat) (ns : List Node),
    ∃ xs, Lists (Among (fun c p m => c.at? p = some m) i ns) xs ∧
      xs.map Prod.snd = preorderAll ns
  | i, [] => ⟨[], Lists.among_nil _ i, by rw [preorderAll]; rfl⟩
  | i, n :: ns => by
    obtain ⟨xs, hxs, hmap⟩ := exists_lists_preorder n
    obtain ⟨ys, hys, hmap'⟩ := exists_lists_preorderAll (i + 1) ns
    refine ⟨xs.map (descend i) ++ ys, hxs.among_cons hys, ?_⟩
    rw [List.map_append, map_snd_descend, hmap, hmap', preorderAll]

end

theorem mem_preorder_iff {n m : Node} : m ∈ n.preorder ↔ ∃ p, n.at? p = some m := by
  obtain ⟨xs, hxs, hmap⟩ := exists_lists_preorder n
  rw [← hmap]
  constructor
  · intro h
    obtain ⟨⟨p, m⟩, hm, rfl⟩ := List.mem_map.mp h
    exact ⟨p, hxs.mem_iff.mp hm⟩
  · rintro ⟨p, hp⟩
    exact List.mem_map.mpr ⟨(p, m), hxs.mem_iff.mpr hp, rfl⟩

theorem mem_preorder_trans {l m n : Node} (h : m ∈ n.preorder) (hl : l ∈ m.preorder) :
    l ∈ n.preorder := by
  obtain ⟨p, hp⟩ := mem_preorder_iff.mp h
  obtain ⟨q, hq⟩ := mem_preorder_iff.mp hl
  exact mem_preorder_iff.mpr ⟨p ++ q, by rw [at?_append hp, hq]⟩

theorem mem_preorder_of_mem_children {n c : Node} (h : c ∈ n.children) : c ∈ n.preorder := by
  obtain ⟨i, hi⟩ := List.mem_iff_getElem?.mp h
  exact mem_preorder_iff.mpr ⟨[i], by rw [at?_cons, hi]; exact at?_nil c⟩

end Node

end CodeAtlas.Java
