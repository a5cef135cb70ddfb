import CodeAtlas.Proofs.Java.Linking
import CodeAtlas.Proofs.Java.Positions

/-! # What an outline is made from

Reading a tree comes to the nodes at its top level and, inside a type, to the members of the
type; error nodes and the second part of an enum body are passed through. An outline is what
these nodes yield, each by itself, in the order in which they stand in the tree. So whatever
is said about the records of an outline can be said about one node at a time.
-/

namespace CodeAtlas

namespace Outline

theorem empty_append (a : Outline) : {} ++ a = a := rfl

theorem append_empty (a : Outline) : a ++ {} = a := by
  change append a {} = a
  simp [append]

theorem append_assoc (a b c : Outline) : a ++ b ++ c = a ++ (b ++ c) := by
  change append (append a b) c = append a (append b c)
  simp [append]

def join (os : List Outline) : Outline := os.foldr append {}

theorem join_cons (o : Outline) (os : List Outline) : join (o :: os) = o ++ join os := rfl

theorem join_append (as bs : List Outline) : join (as ++ bs) = join as ++ join bs := by
  induction as with
  | nil => rfl
  | cons a as ih => rw [List.cons_append, join_cons, join_cons, ih, append_assoc]

theorem foldl_append_eq_join {α : Type} (g : α → Outline) (xs : List α) (a : Outline) :
    xs.foldl (fun out x => out ++ g x) a = a ++ join (xs.map g) := by
  induction xs generalizing a with
  | nil => exact (append_empty a).symm
  | cons x xs ih => rw [List.foldl_cons, ih, List.map_cons, join_cons, append_assoc]

theorem symbols_join (os : List Outline) : (join os).symbols = os.flatMap symbols := by
  induction os with
  | nil => rfl
  | cons o os ih =>
    rw [List.flatMap_cons, ← ih]
    rfl

theorem calls_join (os : List Outline) : (join os).calls = os.flatMap calls := by
  induction os with
  | nil => rfl
  | cons o os ih =>
    rw [List.flatMap_cons, ← ih]
    rfl

theorem annotations_join (os : List Outline) : (join os).annotations = os.flatMap annotations := by
  induction os with
  | nil => rfl
  | cons o os ih =>
    rw [List.flatMap_cons, ← ih]
    rfl

end Outline

namespace Java

open Outline

namespace Node

theorem sizeOf_children_lt (n : Node) : sizeOf n.children < sizeOf n := by
  obtain ⟨k, r, a, b, cs⟩ := n
  simp only [children, mk.sizeOf_spec]
  omega

/-- The number of the first child that plays a role. -/
def childIndex? (n : Node) (r : Role) : Option Nat := n.children.findIdx? fun c => c.role == some r

theorem exists_childIndex? {n c : Node} {r : Role} (h : n.child? r = some c) :
    ∃ i, n.childIndex? r = some i ∧ n.children[i]? = some c := by
  obtain ⟨hc, i, hi, rfl, hfirst⟩ := List.find?_eq_some_iff_getElem.mp h
  refine ⟨i, ?_, List.getElem?_eq_getElem hi⟩
  exact List.findIdx?_eq_some_iff_getElem.mpr ⟨hi, hc, fun j hj => by simpa using hfirst j hj⟩

theorem child?_of_childIndex? {n c : Node} {r : Role} {i : Nat} (hi : n.childIndex? r = some i)
    (hc : n.children[i]? = some c) : n.child? r = some c := by
  obtain ⟨hlt, hrole, hfirst⟩ := List.findIdx?_eq_some_iff_getElem.mp hi
  obtain rfl := Option.some.inj ((List.getElem?_eq_getElem hlt).symm.trans hc)
  exact List.find?_eq_some_iff_getElem.mpr
    ⟨hrole, i, hlt, rfl, fun j hj => by simpa using hfirst j hj⟩

theorem mem_children_of_child? {n c : Node} {r : Role} (h : n.child? r = some c) :
    c ∈ n.children := List.mem_of_find?_eq_some h

end Node

/-! ## Where declarations are looked for -/

/-- The top level of a file, or the inside of a type with its qualified name and the fields
that its bodies see. -/
inductive Place where
  | top
  | inType (owner : String) (fields : Bindings)

namespace Place

/-- The name that what is declared here has for its parent. -/
def owner : Place → String
  | .top => ""
  | .inType owner _ => owner

def fields : Place → Bindings
  | .top => {}
  | .inType _ fields => fields

/-- The kinds of nodes that stand for what is inside them. -/
def passes : Place → Kind → Bool
  | .top, k => k == .error
  | .inType _ _, k => isTransparent k

def within (src : Source) (package : String) (place : Place) (type : Node) (name : String) :
    Place :=
  .inType (qualify (scopeOf package place.owner) name) (visibleFields src type place.fields)

theorem typeKind?_of_passes {place : Place} {k : Kind} (h : place.passes k = true) :
    typeKind? k = none := by
  cases place with
  | top =>
    obtain rfl : k = .error := by simpa [passes] using h
    rfl
  | inType owner fields => cases k <;> first | rfl | simp [passes, isTransparent] at h

end Place

section Visits

variable (src : Source)

/-- A type with a name, and its body, with the number that the body has. -/
structure TypeBody (n : Node) (name : String) (i : Nat) (body : Node) : Prop where
  isType : (typeKind? n.kind).isSome = true
  isNamed : declaredName? src n = some name
  isBody : n.childIndex? .body = some i
  hasBody : n.children[i]? = some body

variable (package : String)

/-- The nodes that reading comes to from a node, each at its position there, and with the
place that it is read in. -/
inductive Visits : Place → Node → List Nat → Place × Node → Prop
  | self {place : Place} {n : Node} : place.passes n.kind = false → Visits place n [] (place, n)
  | through {place : Place} {n c : Node} {i : Nat} {p : List Nat} {x : Place × Node} :
      place.passes n.kind = true → n.children[i]? = some c → Visits place c p x →
      Visits place n (i :: p) x
  | inside {place : Place} {n body c : Node} {name : String} {i j : Nat} {p : List Nat}
      {x : Place × Node} : TypeBody src n name i body → body.children[j]? = some c →
      Visits (place.within src package n name) c p x → Visits place n (i :: j :: p) x

variable {src package} {place : Place} {n : Node} {p : List Nat} {x : Place × Node}

namespace TypeBody

variable {body body' : Node} {name name' : String} {i i' : Nat}

theorem unique (h : TypeBody src n name i body) (h' : TypeBody src n name' i' body') :
    name = name' ∧ i = i' ∧ body = body' := by
  obtain rfl := Option.some.inj (h.isBody.symm.trans h'.isBody)
  exact ⟨Option.some.inj (h.isNamed.symm.trans h'.isNamed), rfl,
    Option.some.inj (h.hasBody.symm.trans h'.hasBody)⟩

theorem passes (h : TypeBody src n name i body) (place : Place) :
    place.passes n.kind = false := by
  by_contra hp
  have hnone := Place.typeKind?_of_passes (by simpa using hp)
  simpa [hnone] using h.isType

theorem child? (h : TypeBody src n name i body) : n.child? .body = some body :=
  Node.child?_of_childIndex? h.isBody h.hasBody

end TypeBody

theorem visits_iff_of_passes (h : place.passes n.kind = true) :
    Visits src package place n p x ↔ Among (Visits src package place) 0 n.children p x := by
  constructor
  · intro hx
    cases hx with
    | self hn => simp [h] at hn
    | through _ hc hx => exact ⟨_, _, _, hc, by rw [Nat.zero_add], hx⟩
    | inside hb => simp [hb.passes] at h
  · rintro ⟨i, c, q, hc, rfl, hx⟩
    rw [Nat.zero_add]
    exact .through h hc hx

theorem visits_iff_of_typeBody {name : String} {i : Nat} {body : Node}
    (h : TypeBody src n name i body) :
    Visits src package place n p x ↔ p = [] ∧ x = (place, n) ∨
      ∃ q, p = i :: q ∧
        Among (Visits src package (place.within src package n name)) 0 body.children q x := by
  constructor
  · intro hx
    cases hx with
    | self => exact .inl ⟨rfl, rfl⟩
    | through hn => simp [h.passes] at hn
    | inside hb hc hx =>
      obtain ⟨rfl, rfl, rfl⟩ := h.unique hb
      exact .inr ⟨_, rfl, _, _, _, hc, by rw [Nat.zero_add], hx⟩
  · rintro (⟨rfl, rfl⟩ | ⟨q, rfl, j, c, q, hc, rfl, hx⟩)
    · exact .self (h.passes place)
    · rw [Nat.zero_add]
      exact .inside h hc hx

theorem visits_iff_of_leaf (h : place.passes n.kind = false)
    (hleaf : ∀ name i body, ¬TypeBody src n name i body) :
    Visits src package place n p x ↔ p = [] ∧ x = (place, n) := by
  constructor
  · intro hx
    cases hx with
    | self => exact ⟨rfl, rfl⟩
    | through hn => simp [h] at hn
    | inside hb => exact absurd hb (hleaf _ _ _)
  · rintro ⟨rfl, rfl⟩
    exact .self h

theorem Visits.at? (h : Visits src package place n p x) : n.at? p = some x.2 := by
  induction h with
  | self => exact Node.at?_nil _
  | through _ hc _ ih => exact Node.at?_cons_eq_some_iff.mpr ⟨_, hc, ih⟩
  | inside hb hc _ ih =>
    exact Node.at?_cons_eq_some_iff.mpr ⟨_, hb.hasBody, Node.at?_cons_eq_some_iff.mpr ⟨_, hc, ih⟩⟩

theorem Visits.mem_preorder (h : Visits src package place n p x) : x.2 ∈ n.preorder :=
  Node.mem_preorder_iff.mpr ⟨p, h.at?⟩

/-- A node stands in the place that the reading began in, or inside a type that is read too. -/
theorem Visits.place_cases (h : Visits src package place n p x) :
    x.1 = place ∨ ∃ q outer t name i body, Visits src package place n q (outer, t) ∧
      TypeBody src t name i body ∧ x.1 = outer.within src package t name ∧
      x.2 ∈ t.preorder := by
  induction h with
  | self => exact .inl rfl
  | through hn hc _ ih =>
    rcases ih with h | ⟨q, outer, t, name, i, body, ht, hb, hx⟩
    · exact .inl h
    · exact .inr ⟨_, outer, t, name, i, body, .through hn hc ht, hb, hx⟩
  | @inside place n body c name i j p x hb hc hx ih =>
    rcases ih with h | ⟨q, outer, t, name, i, body, ht, hb', hx⟩
    · exact .inr ⟨[], place, n, name, i, body, .self (hb.passes place), hb, h,
        (Visits.inside hb hc hx).mem_preorder⟩
    · exact .inr ⟨_, outer, t, name, i, body, .inside hb hc ht, hb', hx⟩

theorem Visits.eq_nil_of_append {y : Place × Node} (h : Visits src package place n p x)
    (hx : typeKind? x.2.kind = none) {q : List Nat}
    (hy : Visits src package place n (p ++ q) y) : q = [] := by
  induction h with
  | self hn =>
    rw [List.nil_append] at hy
    cases hy with
    | self => rfl
    | through hn' => simp [hn] at hn'
    | inside hb => simpa [hx] using hb.isType
  | through hn hc _ ih =>
    rw [List.cons_append] at hy
    generalize hr : _ ++ q = r at hy
    cases hy with
    | through _ hc' hy =>
      obtain rfl := Option.some.inj (hc.symm.trans hc')
      exact ih hx (hr ▸ hy)
    | inside hb => simp [hb.passes] at hn
  | inside hb hc _ ih =>
    rw [List.cons_append, List.cons_append] at hy
    cases hy with
    | through hn => simp [hb.passes] at hn
    | inside hb' hc' hy =>
      obtain ⟨rfl, _, rfl⟩ := hb.unique hb'
      obtain rfl := Option.some.inj (hc.symm.trans hc')
      exact ih hx hy

end Visits

/-! ## What each node yields -/

section Outlines

variable (src : Source) (facts : FileFacts)

/-- What a node yields by itself, without what is inside a type. -/
def ownOutline (place : Place) (n : Node) : Outline :=
  match typeKind? n.kind with
  | some kind =>
    match declaredName? src n with
    | some name =>
      declare src facts n (qualify (scopeOf facts.scope.package place.owner) name) name kind
        (typeSignature src n name (modifierTexts src n)) place.owner (modifierTexts src n)
    | none => {}
  | none =>
    match place with
    | .top => {}
    | .inType owner fields => memberOutline src facts owner fields n

/-- What sibling nodes yield, with everything inside them. -/
def Place.outlineOf (place : Place) (ns : List Node) : Outline :=
  match place with
  | .top => topOutlines src facts ns
  | .inType owner fields => membersOutline src facts owner fields ns

variable {src facts} {place : Place} {n : Node}

theorem ownOutline_of_type {kind : SymbolKind} {name : String}
    (hkind : typeKind? n.kind = some kind) (hname : declaredName? src n = some name) :
    ownOutline src facts place n =
      declare src facts n (qualify (scopeOf facts.scope.package place.owner) name) name kind
        (typeSignature src n name (modifierTexts src n)) place.owner (modifierTexts src n) := by
  simp only [ownOutline, hkind, hname]

theorem ownOutline_of_unnamed {kind : SymbolKind} (hkind : typeKind? n.kind = some kind)
    (hname : declaredName? src n = none) : ownOutline src facts place n = {} := by
  simp only [ownOutline, hkind, hname]

theorem ownOutline_top (hkind : typeKind? n.kind = none) : ownOutline src facts .top n = {} := by
  simp only [ownOutline, hkind]

theorem ownOutline_inType {owner : String} {fields : Bindings} (hkind : typeKind? n.kind = none) :
    ownOutline src facts (.inType owner fields) n = memberOutline src facts owner fields n := by
  simp only [ownOutline, hkind]

theorem outlineOf_nil : place.outlineOf src facts [] = {} := by
  cases place with
  | top => rw [Place.outlineOf, topOutlines]
  | inType owner fields => rw [Place.outlineOf, membersOutline]

theorem outlineOf_cons (ns : List Node) :
    place.outlineOf src facts (n :: ns) =
      place.outlineOf src facts [n] ++ place.outlineOf src facts ns := by
  cases place with
  | top => simp only [Place.outlineOf, topOutlines, append_empty]
  | inType owner fields =>
    obtain ⟨k, r, a, b, cs⟩ := n
    simp only [Place.outlineOf, membersOutline, append_empty]

theorem outlineOf_of_passes (h : place.passes n.kind = true) :
    place.outlineOf src facts [n] = place.outlineOf src facts n.children := by
  have htype := Place.typeKind?_of_passes h
  obtain ⟨k, r, a, b, cs⟩ := n
  rw [Node.kind] at h htype
  cases place with
  | top =>
    have hk : (k == .error) = true := h
    simp only [Place.outlineOf, topOutlines, topOutline, append_empty, htype, hk, if_true,
      Node.children]
  | inType owner fields =>
    have hk : isTransparent k = true := h
    simp only [Place.outlineOf, membersOutline, append_empty, hk, if_true, Node.children]

theorem outlineOf_of_type {kind : SymbolKind} (h : typeKind? n.kind = some kind) :
    place.outlineOf src facts [n] = typeOutline src facts place.owner place.fields kind n := by
  obtain ⟨k, r, a, b, cs⟩ := n
  rw [Node.kind] at h
  cases place with
  | top => simp only [Place.outlineOf, topOutlines, topOutline, append_empty, h, Place.owner,
      Place.fields]
  | inType owner fields =>
    have hk : isTransparent k = false := by
      cases k <;> first | rfl | simp [typeKind?] at h
    simp only [Place.outlineOf, membersOutline, append_empty, hk, h, Place.owner, Place.fields,
      Bool.false_eq_true, if_false]

theorem outlineOf_of_typeBody {name : String} {i : Nat} {body : Node}
    (h : TypeBody src n name i body) :
    place.outlineOf src facts [n] = ownOutline src facts place n ++
      (place.within src facts.scope.package n name).outlineOf src facts body.children := by
  obtain ⟨kind, hkind⟩ := Option.isSome_iff_exists.mp h.isType
  rw [outlineOf_of_type hkind, ownOutline_of_type hkind h.isNamed]
  have hbody := h.child?
  have hname := h.isNamed
  obtain ⟨k, r, a, b, cs⟩ := n
  rw [typeOutline, hname]
  simp only
  rw [bodyOutline_of_find? src facts _ _ cs hbody]
  rfl

theorem bodyOutline_of_find?_eq_none (owner : String) (fields : Bindings) :
    ∀ ns : List Node, ns.find? (fun c => c.role == some .body) = none →
      bodyOutline src facts owner fields ns = {}
  | [], _ => by rw [bodyOutline]
  | .mk k r a b cs :: ns, h => by
    rw [List.find?_eq_none, List.forall_mem_cons] at h
    have hr : ¬(r == some .body) = true := h.1
    rw [bodyOutline, if_neg hr]
    exact bodyOutline_of_find?_eq_none owner fields ns (List.find?_eq_none.mpr h.2)

theorem outlineOf_of_member (h : place.passes n.kind = false) (hkind : typeKind? n.kind = none) :
    place.outlineOf src facts [n] = ownOutline src facts place n := by
  cases place with
  | top =>
    rw [ownOutline_top hkind]
    obtain ⟨k, r, a, b, cs⟩ := n
    have hk : (k == .error) = false := h
    rw [Node.kind] at hkind
    simp only [Place.outlineOf, topOutlines, topOutline, append_empty, hkind, hk,
      Bool.false_eq_true, if_false]
  | inType owner fields =>
    rw [ownOutline_inType hkind]
    obtain ⟨k, r, a, b, cs⟩ := n
    have hk : isTransparent k = false := h
    rw [Node.kind] at hkind
    simp only [Place.outlineOf, membersOutline, append_empty, hkind, hk, Bool.false_eq_true,
      if_false]

theorem outlineOf_of_bodiless {kind : SymbolKind} {name : String}
    (hkind : typeKind? n.kind = some kind) (hname : declaredName? src n = some name)
    (hbody : n.child? .body = none) :
    place.outlineOf src facts [n] = ownOutline src facts place n := by
  rw [outlineOf_of_type hkind, ownOutline_of_type hkind hname]
  obtain ⟨k, r, a, b, cs⟩ := n
  rw [typeOutline, hname]
  simp only
  rw [bodyOutline_of_find?_eq_none _ _ cs hbody, append_empty]

theorem outlineOf_of_leaf (h : place.passes n.kind = false)
    (hleaf : ∀ name i body, ¬TypeBody src n name i body) :
    place.outlineOf src facts [n] = ownOutline src facts place n := by
  cases hkind : typeKind? n.kind with
  | none => exact outlineOf_of_member h hkind
  | some kind =>
    cases hname : declaredName? src n with
    | none =>
      rw [outlineOf_of_type hkind, ownOutline_of_unnamed hkind hname]
      obtain ⟨k, r, a, b, cs⟩ := n
      rw [typeOutline, hname]
    | some name =>
      refine outlineOf_of_bodiless hkind hname ?_
      by_contra hsome
      obtain ⟨body, hbody⟩ := Option.ne_none_iff_exists'.mp hsome
      obtain ⟨i, hi, hc⟩ := Node.exists_childIndex? hbody
      exact hleaf name i body ⟨by rw [hkind]; rfl, hname, hi, hc⟩

/-! ## Everything that is read -/

mutual

/-- What a node yields is what the nodes read from it yield, each by itself. -/
theorem exists_lists_visits (place : Place) (n : Node) :
    ∃ xs, Lists (Visits src facts.scope.package place n) xs ∧
      place.outlineOf src facts [n] =
        join ((xs.map Prod.snd).map fun x => ownOutline src facts x.1 x.2) := by
  cases hp : place.passes n.kind with
  | true =>
    obtain ⟨xs, hxs, hmap⟩ := exists_lists_among place 0 n.children
    refine ⟨xs, hxs.congr fun p x => visits_iff_of_passes hp, ?_⟩
    rw [outlineOf_of_passes hp, hmap]
  | false =>
    by_cases hb : ∃ name i body, TypeBody src n name i body
    · obtain ⟨name, i, body, hb⟩ := hb
      obtain ⟨xs, hxs, hmap⟩ :=
        exists_lists_among (place.within src facts.scope.package n name) 0 body.children
      refine ⟨([], place, n) :: xs.map (descend i), ?_, ?_⟩
      · exact ((hxs.descend i).root _ (by simp)).congr fun p x => visits_iff_of_typeBody hb
      · rw [outlineOf_of_typeBody hb, hmap, List.map_cons, map_snd_descend]
        rfl
    · have hleaf : ∀ name i body, ¬TypeBody src n name i body := by
        intro name i body h
        exact hb ⟨name, i, body, h⟩
      refine ⟨[([], place, n)], ⟨List.pairwise_singleton _ _, ?_⟩, ?_⟩
      · intro p x
        rw [visits_iff_of_leaf hp hleaf, List.mem_singleton, Prod.mk.injEq]
      · rw [outlineOf_of_leaf hp hleaf]
        exact (append_empty _).symm
  termination_by sizeOf n
  decreasing_by
    · calc sizeOf body.children
        _ < sizeOf body := body.sizeOf_children_lt
        _ < sizeOf n.children := List.sizeOf_lt_of_mem (List.mem_of_getElem? hb.hasBody)
        _ < sizeOf n := n.sizeOf_children_lt
    · exact n.sizeOf_children_lt

theorem exists_lists_among (place : Place) (i : Nat) (ns : List Node) :
    ∃ xs, Lists (Among (Visits src facts.scope.package place) i ns) xs ∧
      place.outlineOf src facts ns =
        join ((xs.map Prod.snd).map fun x => ownOutline src facts x.1 x.2) := by
  match ns with
  | [] => exact ⟨[], Lists.among_nil _ i, outlineOf_nil⟩
  | n :: ns =>
    obtain ⟨xs, hxs, hmap⟩ := exists_lists_visits place n
    obtain ⟨ys, hys, hmap'⟩ := exists_lists_among place (i + 1) ns
    refine ⟨xs.map (descend i) ++ ys, hxs.among_cons hys, ?_⟩
    rw [outlineOf_cons, hmap, hmap', List.map_append, map_snd_descend, List.map_append, join_append]
  termination_by sizeOf ns

end

/-! ## Members -/

theorem fieldOutline_eq_join (owner : String) (n : Node) :
    fieldOutline src facts owner n = join ((declaratorNames src n).map fun name =>
      declare src facts n (qualify owner name) name .field
        (joinParts [" ".intercalate (modifierTexts src n), childText src (n.child? .type), name])
        owner (modifierTexts src n)) := by
  rw [fieldOutline, foldl_append_eq_join, empty_append]

/-- The calls in the body of a method or constructor, if it has one. -/
def routineCalls (src : Source) (scope : FileScope) (owner : String) (fields : Bindings)
    (caller : String) (n : Node) : List CallEdge :=
  match n.child? .body with
  | some body => bodyCalls src ⟨scope, owner, localTypes src fields n body⟩ caller body
  | none => []

theorem callableOutline_of_name {owner name : String} {fields : Bindings} {kind : SymbolKind}
    (hname : declaredName? src n = some name) :
    callableOutline src facts owner fields kind n =
      { declare src facts n (qualify owner (if kind == .constructor then "<init>" else name)) name
          kind (callableSignature src n name (modifierTexts src n)) owner (modifierTexts src n) with
        calls := routineCalls src facts.scope owner fields
          (qualify owner (if kind == .constructor then "<init>" else name)) n } := by
  rw [callableOutline, hname, routineCalls]
  cases n.child? .body with
  | none => rfl
  | some body => rfl

theorem memberOutline_cases (src : Source) (facts : FileFacts) (owner : String)
    (fields : Bindings) (n : Node) :
    (isFieldKind n.kind = true ∧
      memberOutline src facts owner fields n = fieldOutline src facts owner n) ∨
    (n.kind = .enumConstant ∧
      memberOutline src facts owner fields n = enumConstantOutline src facts owner n) ∨
    (∃ kind, callableKind? n.kind = some kind ∧
      memberOutline src facts owner fields n = callableOutline src facts owner fields kind n) ∨
    memberOutline src facts owner fields n = {} := by
  unfold memberOutline
  split
  · exact .inl ⟨by rw [‹n.kind = _›]; rfl, rfl⟩
  · exact .inl ⟨by rw [‹n.kind = _›]; rfl, rfl⟩
  · exact .inr (.inr (.inl ⟨.method, by rw [‹n.kind = _›]; rfl, rfl⟩))
  · exact .inr (.inr (.inl ⟨.method, by rw [‹n.kind = _›]; rfl, rfl⟩))
  · exact .inr (.inr (.inl ⟨.constructor, by rw [‹n.kind = _›]; rfl, rfl⟩))
  · exact .inr (.inr (.inl ⟨.constructor, by rw [‹n.kind = _›]; rfl, rfl⟩))
  · exact .inr (.inl ⟨‹_›, rfl⟩)
  · exact .inr (.inr (.inr rfl))

/-! ## Symbols and annotations -/

def isDeclaration (k : Kind) : Bool :=
  (typeKind? k).isSome || isFieldKind k || (callableKind? k).isSome || k == .enumConstant

/-- The symbols of an outline are declared by one node, and its annotations are those that the
node carries, once for each symbol. -/
structure DeclaredBy (src : Source) (facts : FileFacts) (owner : String) (n : Node) (o : Outline) :
    Prop where
  isDeclaration : o.symbols ≠ [] → isDeclaration n.kind = true
  symbols : ∀ s ∈ o.symbols, s.parent = owner ∧ (s.lineStart, s.lineEnd) = spanOf src facts n
  annotations : o.annotations =
    o.symbols.flatMap fun s => annotationsOf src n s.fqn (.ofSymbol s.kind)

namespace DeclaredBy

variable {owner : String} {a b : Outline}

theorem empty : DeclaredBy src facts owner n {} where
  isDeclaration h := absurd rfl h
  symbols := by simp
  annotations := rfl

theorem append (ha : DeclaredBy src facts owner n a) (hb : DeclaredBy src facts owner n b) :
    DeclaredBy src facts owner n (a ++ b) where
  isDeclaration h := by
    rcases not_and_or.mp (mt List.append_eq_nil_iff.mpr h) with h | h
    · exact ha.isDeclaration h
    · exact hb.isDeclaration h
  symbols s hs := by
    rcases List.mem_append.mp hs with hs | hs
    · exact ha.symbols s hs
    · exact hb.symbols s hs
  annotations := by
    change a.annotations ++ b.annotations = (a.symbols ++ b.symbols).flatMap _
    rw [List.flatMap_append, ha.annotations, hb.annotations]

theorem declare (h : Java.isDeclaration n.kind = true) (fqn name : String) (kind : SymbolKind)
    (signature : String) (modifiers : List String) :
    DeclaredBy src facts owner n
      (declare src facts n fqn name kind signature owner modifiers) where
  isDeclaration _ := h
  symbols s hs := by
    obtain rfl := List.mem_singleton.mp hs
    exact ⟨rfl, rfl⟩
  annotations := (List.append_nil _).symm

theorem join {os : List Outline} (h : ∀ o ∈ os, DeclaredBy src facts owner n o) :
    DeclaredBy src facts owner n (join os) := by
  induction os with
  | nil => exact empty
  | cons o os ih =>
    rw [List.forall_mem_cons] at h
    exact h.1.append (ih h.2)

theorem withCalls (h : DeclaredBy src facts owner n a) (calls : List CallEdge) :
    DeclaredBy src facts owner n { a with calls := calls } :=
  ⟨h.isDeclaration, h.symbols, h.annotations⟩

end DeclaredBy

theorem memberOutline_declaredBy (owner : String) (fields : Bindings) (n : Node) :
    DeclaredBy src facts owner n (memberOutline src facts owner fields n) := by
  rcases memberOutline_cases src facts owner fields n with
    ⟨hkind, h⟩ | ⟨hkind, h⟩ | ⟨kind, hkind, h⟩ | h
  · rw [h, fieldOutline_eq_join]
    apply DeclaredBy.join
    intro o ho
    obtain ⟨name, _, rfl⟩ := List.mem_map.mp ho
    exact .declare (by simp [isDeclaration, hkind]) ..
  · rw [h, enumConstantOutline]
    cases declaredName? src n with
    | none => exact .empty
    | some name => exact .declare (by simp [isDeclaration, hkind]) ..
  · rw [h]
    cases hname : declaredName? src n with
    | none =>
      rw [callableOutline, hname]
      exact .empty
    | some name =>
      rw [callableOutline_of_name hname]
      exact (DeclaredBy.declare (by simp [isDeclaration, hkind]) ..).withCalls _
  · rw [h]
    exact .empty

theorem ownOutline_declaredBy (place : Place) (n : Node) :
    DeclaredBy src facts place.owner n (ownOutline src facts place n) := by
  cases hkind : typeKind? n.kind with
  | none =>
    cases place with
    | top =>
      rw [ownOutline_top hkind]
      exact .empty
    | inType owner fields =>
      rw [ownOutline_inType hkind]
      exact memberOutline_declaredBy owner fields n
  | some kind =>
    cases hname : declaredName? src n with
    | none =>
      rw [ownOutline_of_unnamed hkind hname]
      exact .empty
    | some name =>
      rw [ownOutline_of_type hkind hname]
      exact .declare (by simp [isDeclaration, hkind]) ..

/-! ## Methods and constructors -/

theorem typeKind?_of_callable {k : Kind} {kind : SymbolKind} (h : callableKind? k = some kind) :
    typeKind? k = none := by
  cases k <;> first | rfl | simp [callableKind?] at h

theorem isCallable_of_callableKind? {k : Kind} {kind : SymbolKind}
    (h : callableKind? k = some kind) : kind.isCallable = true := by
  cases k <;> simp [callableKind?] at h <;> subst h <;> rfl

theorem ownOutline_of_routine {owner name : String} {fields : Bindings} {kind : SymbolKind}
    (hkind : callableKind? n.kind = some kind) (hname : declaredName? src n = some name) :
    ownOutline src facts (.inType owner fields) n =
      { declare src facts n (qualify owner (if kind == .constructor then "<init>" else name)) name
          kind (callableSignature src n name (modifierTexts src n)) owner (modifierTexts src n) with
        calls := routineCalls src facts.scope owner fields
          (qualify owner (if kind == .constructor then "<init>" else name)) n } := by
  have hentry := entryOutline_of_callable src facts hkind owner fields
  rw [entryOutline, typeKind?_of_callable hkind] at hentry
  rw [ownOutline_inType (typeKind?_of_callable hkind), ← callableOutline_of_name hname]
  exact hentry

theorem ownOutline_of_not_routine
    (h : ∀ owner fields kind name, place = .inType owner fields → callableKind? n.kind = some kind →
      declaredName? src n ≠ some name) :
    (ownOutline src facts place n).calls = [] ∧
      ∀ s ∈ (ownOutline src facts place n).symbols, s.kind.isCallable = false := by
  cases hkind : typeKind? n.kind with
  | some kind =>
    cases hname : declaredName? src n with
    | none => simp [ownOutline_of_unnamed hkind hname]
    | some name =>
      rw [ownOutline_of_type hkind hname]
      have htype := isType_of_typeKind? hkind
      refine ⟨rfl, fun s hs => ?_⟩
      obtain rfl := List.mem_singleton.mp hs
      cases kind <;> first | rfl | simp [SymbolKind.isType] at htype
  | none =>
    cases place with
    | top => simp [ownOutline_top hkind]
    | inType owner fields =>
      rw [ownOutline_inType hkind]
      rcases memberOutline_cases src facts owner fields n with
        ⟨_, he⟩ | ⟨_, he⟩ | ⟨kind, hcallable, he⟩ | he
      · rw [he, fieldOutline_eq_join, calls_join, symbols_join]
        constructor
        · simp [declare]
        · intro s hs
          simp only [List.mem_flatMap, List.mem_map] at hs
          obtain ⟨_, ⟨name, _, rfl⟩, hs⟩ := hs
          obtain rfl := List.mem_singleton.mp hs
          rfl
      · rw [he, enumConstantOutline]
        cases declaredName? src n with
        | none => simp
        | some name => simp [declare, SymbolKind.isCallable]
      · cases hname : declaredName? src n with
        | none => simp [he, callableOutline, hname]
        | some name => exact absurd hname (h owner fields kind name rfl hcallable)
      · simp [he]

theorem exists_routine_of_mem_calls {e : CallEdge}
    (h : e ∈ (ownOutline src facts place n).calls) :
    ∃ owner fields kind name, place = .inType owner fields ∧ callableKind? n.kind = some kind ∧
      declaredName? src n = some name := by
  by_contra hnone
  have hcalls : (ownOutline src facts place n).calls = [] :=
    (ownOutline_of_not_routine fun owner fields kind name hplace hkind hname =>
      hnone ⟨owner, fields, kind, name, hplace, hkind, hname⟩).1
  simp [hcalls] at h

end Outlines

namespace ParsedFile

def Visited (f : ParsedFile) (p : List Nat) (x : Place × Node) : Prop :=
  Among (Visits f.source f.scope.package .top) 0 f.root.children p x

def yield (f : ParsedFile) (x : Place × Node) : Outline := ownOutline f.source f.facts x.1 x.2

variable {f : ParsedFile} {p : List Nat} {x : Place × Node}

theorem exists_lists_visited (f : ParsedFile) :
    ∃ xs : List (List Nat × Place × Node), Lists f.Visited xs ∧
      f.outline.symbols = xs.flatMap (fun v => (f.yield v.2).symbols) ∧
      f.outline.calls = xs.flatMap (fun v => (f.yield v.2).calls) ∧
      f.outline.annotations = xs.flatMap (fun v => (f.yield v.2).annotations) := by
  obtain ⟨xs, hxs, hmap⟩ := @exists_lists_among f.source f.facts .top 0 f.root.children
  have hsymbols := congrArg symbols hmap
  have hcalls := congrArg calls hmap
  have hannotations := congrArg annotations hmap
  rw [symbols_join, List.flatMap_map, List.flatMap_map] at hsymbols
  rw [calls_join, List.flatMap_map, List.flatMap_map] at hcalls
  rw [annotations_join, List.flatMap_map, List.flatMap_map] at hannotations
  exact ⟨xs, hxs, hsymbols, hcalls, hannotations⟩

theorem mem_symbols_iff {s : Symbol} :
    s ∈ f.outline.symbols ↔ ∃ p x, f.Visited p x ∧ s ∈ (f.yield x).symbols := by
  obtain ⟨xs, hxs, hsymbols, -, -⟩ := f.exists_lists_visited
  simp only [hsymbols, List.mem_flatMap, Prod.exists, ← hxs.mem_iff]

theorem mem_calls_iff {e : CallEdge} :
    e ∈ f.outline.calls ↔ ∃ p x, f.Visited p x ∧ e ∈ (f.yield x).calls := by
  obtain ⟨xs, hxs, -, hcalls, -⟩ := f.exists_lists_visited
  simp only [hcalls, List.mem_flatMap, Prod.exists, ← hxs.mem_iff]

theorem mem_annotations_iff {a : Annotation} :
    a ∈ f.outline.annotations ↔ ∃ p x, f.Visited p x ∧ a ∈ (f.yield x).annotations := by
  obtain ⟨xs, hxs, -, -, hannotations⟩ := f.exists_lists_visited
  simp only [hannotations, List.mem_flatMap, Prod.exists, ← hxs.mem_iff]

theorem Visited.at? (h : f.Visited p x) : f.root.at? p = some x.2 := by
  obtain ⟨i, c, q, hc, rfl, hx⟩ := h
  exact Node.at?_cons_eq_some_iff.mpr ⟨c, by rwa [Nat.zero_add], hx.at?⟩

theorem Visited.mem_preorder (h : f.Visited p x) : x.2 ∈ f.root.preorder :=
  Node.mem_preorder_iff.mpr ⟨p, h.at?⟩

theorem Visited.place_cases (h : f.Visited p x) :
    x.1 = .top ∨ ∃ q outer t name i body, f.Visited q (outer, t) ∧
      TypeBody f.source t name i body ∧ x.1 = outer.within f.source f.scope.package t name ∧
      x.2 ∈ t.preorder := by
  obtain ⟨i, c, q, hc, rfl, hx⟩ := h
  rcases hx.place_cases with htop | ⟨r, outer, t, name, j, body, ht, hin⟩
  · exact .inl htop
  · exact .inr ⟨_, outer, t, name, j, body, ⟨i, c, r, hc, rfl, ht⟩, hin⟩

theorem Visited.eq_nil_of_append {y : Place × Node} {q : List Nat} (h : f.Visited p x)
    (hx : typeKind? x.2.kind = none) (hy : f.Visited (p ++ q) y) : q = [] := by
  obtain ⟨i, c, r, hc, rfl, h⟩ := h
  obtain ⟨j, d, s, hd, he, hy⟩ := hy
  obtain ⟨hij, rfl⟩ := List.cons.inj he
  obtain rfl : i = j := by omega
  obtain rfl := Option.some.inj (hc.symm.trans hd)
  exact h.eq_nil_of_append hx hy

end ParsedFile

end Java

end CodeAtlas
