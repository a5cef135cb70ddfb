import CodeAtlas.Java.Outline
import CodeAtlas.Proofs.Java.Displaced

/-! # Comments in trees

A comment is a child of the innermost node that it stands in, and part of the text of every node
around it. Nothing that is looked for in a tree by its kind or its role is a comment, so that with
a comment put in, the same nodes are found as before, with the same texts where the comment is not
inside.
-/

namespace CodeAtlas.Java.Node

def Covers (n : Node) (pos : Nat) : Prop := n.start ≤ pos ∧ pos < n.stop

instance (n : Node) (pos : Nat) : Decidable (n.Covers pos) :=
  inferInstanceAs (Decidable (_ ∧ _))

/-! ## Trees with a comment put in -/

variable (src src' : Source) (pos : Nat)

mutual

/-- A tree over one source, and the tree over another with a comment put in at an offset. The
text of a node is the same unless the comment is inside. -/
inductive Commented : Node → Node → Prop
  | mk {k : Kind} {r : Option Role} {a b a' b' : Nat} {cs cs' : List Node} :
      (¬ (Node.mk k r a' b' cs').Covers pos → src.text a b = src'.text a' b') →
      CommentedAll cs cs' → Commented (.mk k r a b cs) (.mk k r a' b' cs')

inductive CommentedAll : List Node → List Node → Prop
  | nil : CommentedAll [] []
  | cons {n n' : Node} {ns ns' : List Node} :
      Commented n n' → CommentedAll ns ns' → CommentedAll (n :: ns) (n' :: ns')
  | comment {stop : Nat} {ns ns' : List Node} : pos < stop → CommentedAll ns ns' →
      CommentedAll ns (.mk .blockComment none pos stop [] :: ns')

end

variable {src src' pos} {n n' : Node} {ns ns' : List Node}

theorem covers_comment {stop : Nat} (h : pos < stop) :
    (Node.mk .blockComment none pos stop []).Covers pos := ⟨Nat.le_refl _, h⟩

namespace Commented

theorem kind_eq (h : Commented src src' pos n n') : n.kind = n'.kind := by
  cases h
  rfl

theorem role_eq (h : Commented src src' pos n n') : n.role = n'.role := by
  cases h
  rfl

theorem text_eq (h : Commented src src' pos n n') (hclear : ¬ n'.Covers pos) :
    n.text src = n'.text src' := by
  cases h with
  | mk htext _ => exact htext hclear

theorem children (h : Commented src src' pos n n') :
    CommentedAll src src' pos n.children n'.children := by
  cases h with
  | mk _ hcs => exact hcs

end Commented

namespace CommentedAll

theorem select (g : Kind → Option Role → Bool) :
    ∀ {ns ns' : List Node}, CommentedAll src src' pos ns ns' →
      CommentedAll src src' pos (ns.filter fun c => g c.kind c.role)
        (ns'.filter fun c => g c.kind c.role)
  | _, _, .nil => .nil
  | _, _, .cons hn hns => by
    rw [List.filter_cons, List.filter_cons, hn.kind_eq, hn.role_eq]
    split
    · exact .cons hn (hns.select g)
    · exact hns.select g
  | _, _, .comment hstop hns => by
    rw [List.filter_cons]
    split
    · exact .comment hstop (hns.select g)
    · exact hns.select g

theorem forall₂ : ∀ {ns ns' : List Node}, CommentedAll src src' pos ns ns' →
    (∀ n' ∈ ns', ¬ (n'.kind = .blockComment ∧ n'.role = none)) →
    List.Forall₂ (Commented src src' pos) ns ns'
  | _, _, .nil, _ => .nil
  | _, _, .cons hn hns, hno =>
    .cons hn (hns.forall₂ fun n' hn' => hno n' (List.mem_cons_of_mem _ hn'))
  | _, _, .comment _ _, hno => absurd ⟨rfl, rfl⟩ (hno _ List.mem_cons_self)

/-- What is looked for by kind and role is found with the comment as without. -/
theorem filter (g : Kind → Option Role → Bool) (hg : g .blockComment none = false)
    (h : CommentedAll src src' pos ns ns') :
    List.Forall₂ (Commented src src' pos) (ns.filter fun c => g c.kind c.role)
      (ns'.filter fun c => g c.kind c.role) := by
  refine (h.select g).forall₂ fun n' hn' hcomment => ?_
  have hselected := (List.mem_filter.mp hn').2
  rw [hcomment.1, hcomment.2, hg] at hselected
  exact Bool.false_ne_true hselected

theorem find? (g : Kind → Option Role → Bool) (hg : g .blockComment none = false)
    (h : CommentedAll src src' pos ns ns') :
    Option.Rel (Commented src src' pos) (ns.find? fun c => g c.kind c.role)
      (ns'.find? fun c => g c.kind c.role) := by
  rw [← List.head?_filter, ← List.head?_filter]
  exact rel_head? (h.filter g hg)

theorem any_eq (g : Kind → Option Role → Bool) (hg : g .blockComment none = false)
    (h : CommentedAll src src' pos ns ns') :
    (ns.any fun c => g c.kind c.role) = ns'.any fun c => g c.kind c.role := by
  have hfound := h.find? g hg
  rw [Bool.eq_iff_iff, List.any_eq_true, List.any_eq_true, ← List.find?_isSome,
    ← List.find?_isSome]
  generalize ns.find? (fun c => g c.kind c.role) = c at hfound
  generalize ns'.find? (fun c => g c.kind c.role) = c' at hfound
  cases hfound <;> rfl

end CommentedAll

namespace Commented

theorem child? (h : Commented src src' pos n n') (r : Role) :
    Option.Rel (Commented src src' pos) (n.child? r) (n'.child? r) :=
  h.children.find? (fun _ role => role == some r) rfl

theorem childrenOf (h : Commented src src' pos n n') (r : Role) :
    List.Forall₂ (Commented src src' pos) (n.childrenOf r) (n'.childrenOf r) :=
  h.children.filter (fun _ role => role == some r) rfl

theorem childOfKind? (h : Commented src src' pos n n') {k : Kind} (hk : k ≠ .blockComment) :
    Option.Rel (Commented src src' pos) (n.childOfKind? k) (n'.childOfKind? k) := by
  rw [Node.childOfKind?, Node.childOfKind?, named, named, List.find?_filter, List.find?_filter]
  exact h.children.find? (fun kind _ => decide (kind.isNamed = true ∧ (kind == k) = true))
    (by simpa using fun _ => hk.symm)

theorem namedOfKind (h : Commented src src' pos n n') {k : Kind} (hk : k ≠ .blockComment) :
    List.Forall₂ (Commented src src' pos) (n.named.filter fun c => c.kind == k)
      (n'.named.filter fun c => c.kind == k) := by
  rw [named, named, List.filter_filter, List.filter_filter]
  exact h.children.filter (fun kind _ => kind == k && kind.isNamed)
    (by simpa using fun h => absurd h hk.symm)

end Commented

def Clear (pos : Nat) (ms : List Node) : Prop := ∀ m ∈ ms, ¬ m.Covers pos

instance (pos : Nat) (ms : List Node) : Decidable (Clear pos ms) :=
  inferInstanceAs (Decidable (∀ m ∈ ms, ¬ m.Covers pos))

theorem clear_append_iff {as bs : List Node} :
    Clear pos (as ++ bs) ↔ Clear pos as ∧ Clear pos bs := List.forall_mem_append

theorem Clear.of_flatMap {texts : Node → List Node} (h : Clear pos (ns.flatMap texts))
    (hn : n ∈ ns) : Clear pos (texts n) :=
  fun m hm => h m (List.mem_flatMap.mpr ⟨n, hn, hm⟩)

namespace CommentedAll

theorem named (h : CommentedAll src src' pos n.children n'.children) :
    CommentedAll src src' pos n.named n'.named := h.select fun k _ => k.isNamed

theorem head? (h : CommentedAll src src' pos ns ns') (hclear : Clear pos ns'.head?.toList) :
    Option.Rel (Commented src src' pos) ns.head? ns'.head? := by
  cases h with
  | nil => exact .none
  | cons hn _ => exact .some hn
  | comment hstop _ => exact absurd (covers_comment hstop) (hclear _ (by simp))

theorem append : ∀ {ns ns' ms ms' : List Node}, CommentedAll src src' pos ns ns' →
    CommentedAll src src' pos ms ms' → CommentedAll src src' pos (ns ++ ms) (ns' ++ ms')
  | _, _, _, _, .nil, hms => hms
  | _, _, _, _, .cons hn hns, hms => .cons hn (hns.append hms)
  | _, _, _, _, .comment hstop hns, hms => .comment hstop (hns.append hms)

end CommentedAll

/-! ## What is read from many nodes -/

section Lists

variable {α : Type}

/-- What is read from each of some nodes, and from no comment, is read as without it. -/
theorem CommentedAll.flatMap_eq {g g' : Node → List α}
    (hcomment : ∀ stop, g' (.mk .blockComment none pos stop []) = []) :
    ∀ {ns ns' : List Node}, CommentedAll src src' pos ns ns' →
      (∀ {m m'}, m' ∈ ns' → Commented src src' pos m m' → g m = g' m') →
      ns.flatMap g = ns'.flatMap g'
  | _, _, .nil, _ => rfl
  | _, _, .cons hn hns, hg => by
    rw [List.flatMap_cons, List.flatMap_cons, hg (by simp) hn,
      hns.flatMap_eq hcomment fun hmem => hg (List.mem_cons_of_mem _ hmem)]
  | _, _, .comment _ hns, hg => by
    rw [List.flatMap_cons, hcomment, List.nil_append,
      hns.flatMap_eq hcomment fun hmem => hg (List.mem_cons_of_mem _ hmem)]

mutual

/-- What is read from the nodes below a node, by the texts that each of them is read by. -/
theorem flatMap_preorderOutside_eq {g g' : Node → List α} {texts : Node → List Node}
    {skip : Kind → Bool}
    (hcomment : ∀ stop, g' (.mk .blockComment none pos stop []) = [])
    (hg : ∀ {m m'}, Commented src src' pos m m' → Clear pos (texts m') → g m = g' m') :
    ∀ {n n' : Node}, Commented src src' pos n n' →
      Clear pos ((n'.preorderOutside skip).flatMap texts) →
      (n.preorderOutside skip).flatMap g = (n'.preorderOutside skip).flatMap g'
  | .mk k r a b cs, .mk _ _ a' b' cs', .mk htext hcs, hclear => by
    unfold preorderOutside at hclear ⊢
    split
    · rfl
    · rename_i hk
      rw [if_neg hk, List.flatMap_cons, clear_append_iff] at hclear
      rw [List.flatMap_cons, List.flatMap_cons, hg (.mk htext hcs) hclear.1,
        flatMap_preorderOutsideAll_eq hcomment hg hcs hclear.2]

theorem flatMap_preorderOutsideAll_eq {g g' : Node → List α} {texts : Node → List Node}
    {skip : Kind → Bool}
    (hcomment : ∀ stop, g' (.mk .blockComment none pos stop []) = [])
    (hg : ∀ {m m'}, Commented src src' pos m m' → Clear pos (texts m') → g m = g' m') :
    ∀ {ns ns' : List Node}, CommentedAll src src' pos ns ns' →
      Clear pos ((preorderOutsideAll skip ns').flatMap texts) →
      (preorderOutsideAll skip ns).flatMap g = (preorderOutsideAll skip ns').flatMap g'
  | [], [], .nil, _ => rfl
  | n :: ns, n' :: ns', .cons hn hns, hclear => by
    rw [preorderOutsideAll, List.flatMap_append, clear_append_iff] at hclear
    rw [preorderOutsideAll, preorderOutsideAll, List.flatMap_append, List.flatMap_append,
      flatMap_preorderOutside_eq hcomment hg hn hclear.1,
      flatMap_preorderOutsideAll_eq hcomment hg hns hclear.2]
  | _, _ :: ns', @CommentedAll.comment _ _ _ stop _ _ _ hns, hclear => by
    rw [preorderOutsideAll, List.flatMap_append, clear_append_iff] at hclear
    have hown :
        ((Node.mk .blockComment none pos stop []).preorderOutside skip).flatMap g' = [] := by
      unfold preorderOutside
      split
      · rfl
      · simp [hcomment, preorderOutsideAll]
    rw [preorderOutsideAll, List.flatMap_append, hown, List.nil_append,
      flatMap_preorderOutsideAll_eq hcomment hg hns hclear.2]

end
end Lists

mutual

theorem preorderOutside_false : ∀ n : Node, n.preorderOutside (fun _ => false) = n.preorder
  | .mk k r a b cs => by
    rw [preorderOutside, preorder, preorderOutsideAll_false cs, if_neg Bool.false_ne_true]

theorem preorderOutsideAll_false : ∀ ns : List Node,
    preorderOutsideAll (fun _ => false) ns = preorderAll ns
  | [] => rfl
  | n :: ns => by
    rw [preorderOutsideAll, preorderAll, preorderOutside_false n, preorderOutsideAll_false ns]

end

mutual

theorem membersOf_commented : ∀ {n n' : Node}, Commented src src' pos n n' →
    CommentedAll src src' pos (membersOf n) (membersOf n')
  | .mk k r a b cs, .mk _ _ a' b' cs', .mk htext hcs => by
    unfold membersOf
    split
    · exact membersIn_commented hcs
    · split
      · exact .cons (.mk htext hcs) .nil
      · exact .nil

theorem membersIn_commented : ∀ {ns ns' : List Node}, CommentedAll src src' pos ns ns' →
    CommentedAll src src' pos (membersIn ns) (membersIn ns')
  | [], [], .nil => .nil
  | n :: ns, n' :: ns', .cons hn hns => by
    rw [membersIn, membersIn]
    exact (membersOf_commented hn).append (membersIn_commented hns)
  | _, _ :: ns', .comment hstop hns => by
    rw [membersIn]
    exact .comment hstop (membersIn_commented hns)

end

end CodeAtlas.Java.Node
