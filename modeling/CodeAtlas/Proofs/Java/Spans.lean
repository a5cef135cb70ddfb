import CodeAtlas.Proofs.Java.Declarations

/-! # Lines of symbols and calls

The lines of a symbol come from the rows of its node, and the number of lines of a file from
its bytes alone. In a tree whose nodes lie inside their parents the two fit together: every
symbol lies in the file, and inside the type it is a member of, and every call lies inside the
method or constructor that makes it.
-/

namespace CodeAtlas

namespace Outline

/-- Every symbol has lines of the file, inside those of its parent, and every call is on a line
of its caller. -/
structure Spanned (lines : Nat) (o : Outline) : Prop where
  spans : ∀ s ∈ o.symbols, 1 ≤ s.lineStart ∧ s.lineStart ≤ s.lineEnd ∧ s.lineEnd ≤ lines
  parents : ∀ s ∈ o.symbols, s.parent ≠ "" →
    ∃ t ∈ o.symbols, t.fqn = s.parent ∧ t.lineStart ≤ s.lineStart ∧ s.lineEnd ≤ t.lineEnd
  calls : ∀ e ∈ o.calls,
    ∃ t ∈ o.symbols, t.fqn = e.caller ∧ t.lineStart ≤ e.line ∧ e.line ≤ t.lineEnd

end Outline

/-! ## Rows and lines -/

namespace Text

theorem lineCount_concat (bytes : List UInt8) (b : UInt8) :
    lineCount (bytes ++ [b]) = bytes.count lineFeed + 1 := by
  by_cases hb : b = lineFeed <;> simp [lineCount, List.count_append, hb]

theorem count_take_lt_lineCount {bytes : List UInt8} {pos : Nat} (h : pos < bytes.length) :
    (bytes.take pos).count lineFeed < lineCount bytes := by
  rcases List.eq_nil_or_concat bytes with rfl | ⟨front, last, rfl⟩
  · simp at h
  · rw [List.length_concat] at h
    rw [List.concat_eq_append, lineCount_concat, List.take_append_of_le_length (by omega)]
    exact Nat.lt_succ_of_le ((List.take_sublist pos front).count_le _)

end Text

namespace Java

namespace Source

theorem row_ofBytes (bytes : List UInt8) (pos : Nat) :
    (ofBytes bytes).row pos = (bytes.take pos).count Text.lineFeed := by
  simp [row, ofBytes, ← Array.count_toList]

theorem row_mono (bytes : List UInt8) {p q : Nat} (h : p ≤ q) :
    (ofBytes bytes).row p ≤ (ofBytes bytes).row q := by
  rw [row_ofBytes, row_ofBytes]
  exact (List.take_sublist_take_left h).count_le _

end Source

/-! ## Trees over bytes -/

namespace Node

/-- A node that takes up bytes of the file, whichever byte it begins with. -/
def Solid (bytes : List UInt8) (n : Node) : Prop := n.start < n.stop ∧ n.start < bytes.length

instance (bytes : List UInt8) (n : Node) : Decidable (n.Solid bytes) :=
  inferInstanceAs (Decidable (_ ∧ _))

/-- The nodes of a tree lie inside their parents, and its declarations and the names of its
calls take up bytes of the file. -/
structure Over (bytes : List UInt8) (root : Node) : Prop where
  nested : ∀ n ∈ root.preorder, ∀ c ∈ n.children, n.start ≤ c.start ∧ c.stop ≤ n.stop
  declarations : ∀ n ∈ root.preorder, isDeclaration n.kind = true → n.Solid bytes
  callNames : ∀ n ∈ root.preorder, n.kind = .methodInvocation →
    ∀ name ∈ n.child? .name, name.Solid bytes

instance (bytes : List UInt8) (root : Node) : Decidable (root.Over bytes) :=
  decidable_of_iff
    ((∀ n ∈ root.preorder, ∀ c ∈ n.children, n.start ≤ c.start ∧ c.stop ≤ n.stop) ∧
      (∀ n ∈ root.preorder, isDeclaration n.kind = true → n.Solid bytes) ∧
      ∀ n ∈ root.preorder, n.kind = .methodInvocation → ∀ name ∈ n.child? .name, name.Solid bytes)
    ⟨fun h => ⟨h.1, h.2.1, h.2.2⟩, fun h => ⟨h.nested, h.declarations, h.callNames⟩⟩

variable {bytes : List UInt8} {root n m : Node}

theorem Over.inside (h : root.Over bytes) (hn : n ∈ root.preorder) (hm : m ∈ n.preorder) :
    n.start ≤ m.start ∧ m.stop ≤ n.stop := by
  obtain ⟨p, hp⟩ := mem_preorder_iff.mp hm
  clear hm
  induction p generalizing n with
  | nil =>
    obtain rfl := Option.some.inj ((at?_nil n).symm.trans hp)
    exact ⟨Nat.le_refl _, Nat.le_refl _⟩
  | cons i p ih =>
    obtain ⟨c, hc, hp⟩ := at?_cons_eq_some_iff.mp hp
    have hchild := List.mem_of_getElem? hc
    have hin := h.nested n hn c hchild
    have hbelow := ih (mem_preorder_trans hn (mem_preorder_of_mem_children hchild)) hp
    omega

end Node

/-! ## Spans -/

section Spans

variable {bytes : List UInt8} {n m : Node}

/-- The facts that the declarations of some bytes are read with. -/
def factsOf (bytes : List UInt8) (scope : FileScope) : FileFacts := ⟨Text.lineCount bytes, scope⟩

theorem Node.Solid.row_lt (h : n.Solid bytes) :
    (Source.ofBytes bytes).row n.start < Text.lineCount bytes := by
  rw [Source.row_ofBytes]
  exact Text.count_take_lt_lineCount h.2

theorem Node.Solid.row_le (h : n.Solid bytes) :
    (Source.ofBytes bytes).row n.start ≤ (Source.ofBytes bytes).row n.stop :=
  Source.row_mono bytes (Nat.le_of_lt h.1)

theorem spanOf_valid (scope : FileScope) (h : n.Solid bytes) :
    1 ≤ (spanOf (Source.ofBytes bytes) (factsOf bytes scope) n).1 ∧
      (spanOf (Source.ofBytes bytes) (factsOf bytes scope) n).1 ≤
        (spanOf (Source.ofBytes bytes) (factsOf bytes scope) n).2 ∧
      (spanOf (Source.ofBytes bytes) (factsOf bytes scope) n).2 ≤ Text.lineCount bytes := by
  have hrow := h.row_lt
  simp only [spanOf, factsOf]
  omega

theorem spanOf_inside (scope : FileScope) (hn : n.Solid bytes) (hm : m.Solid bytes)
    (h : n.start ≤ m.start ∧ m.stop ≤ n.stop) :
    (spanOf (Source.ofBytes bytes) (factsOf bytes scope) n).1 ≤
        (spanOf (Source.ofBytes bytes) (factsOf bytes scope) m).1 ∧
      (spanOf (Source.ofBytes bytes) (factsOf bytes scope) m).2 ≤
        (spanOf (Source.ofBytes bytes) (factsOf bytes scope) n).2 := by
  have hfirst := Source.row_mono bytes h.1
  have hlast := Source.row_mono bytes h.2
  have hrows := hm.row_le
  have hline := hn.row_lt
  have hline' := hm.row_lt
  simp only [spanOf, factsOf]
  omega

theorem line_inside (scope : FileScope) (hn : n.Solid bytes) (hm : m.Solid bytes)
    (h : n.start ≤ m.start ∧ m.stop ≤ n.stop) :
    (spanOf (Source.ofBytes bytes) (factsOf bytes scope) n).1 ≤ m.line (Source.ofBytes bytes) ∧
      m.line (Source.ofBytes bytes) ≤
        (spanOf (Source.ofBytes bytes) (factsOf bytes scope) n).2 := by
  have hspan := spanOf_inside scope hn hm h
  have hvalid := spanOf_valid scope hm
  simp only [Node.line]
  simp only [spanOf] at hspan hvalid ⊢
  omega

end Spans

namespace ParsedFile

variable {f : ParsedFile} {p : List Nat} {x : Place × Node}

theorem Visited.solid (hover : f.root.Over f.bytes) (h : f.Visited p x) {s : Symbol}
    (hs : s ∈ (f.yield x).symbols) : x.2.Solid f.bytes :=
  hover.declarations x.2 h.mem_preorder
    ((ownOutline_declaredBy x.1 x.2).isDeclaration (List.ne_nil_of_mem hs))

theorem span_eq {s : Symbol} (hs : s ∈ (f.yield x).symbols) :
    (s.lineStart, s.lineEnd) = spanOf f.source f.facts x.2 :=
  ((ownOutline_declaredBy x.1 x.2).symbols s hs).2

theorem spans_valid (hover : f.root.Over f.bytes) {s : Symbol} (hs : s ∈ f.outline.symbols) :
    1 ≤ s.lineStart ∧ s.lineStart ≤ s.lineEnd ∧ s.lineEnd ≤ Text.lineCount f.bytes := by
  obtain ⟨p, x, hx, hs⟩ := mem_symbols_iff.mp hs
  have hvalid := spanOf_valid f.scope (hx.solid hover hs)
  obtain ⟨hfirst, hlast⟩ := Prod.mk.inj (span_eq hs)
  rw [hfirst, hlast]
  exact hvalid

/-- A type that is read has a symbol, and what is inside it is named by that. -/
theorem exists_type_symbol (outer : Place) {t body : Node} {name : String} {i : Nat}
    (ht : TypeBody f.source t name i body) :
    ∃ s ∈ (f.yield (outer, t)).symbols,
      s.fqn = (outer.within f.source f.scope.package t name).owner := by
  obtain ⟨kind, hkind⟩ := Option.isSome_iff_exists.mp ht.isType
  rw [yield, ownOutline_of_type hkind ht.isNamed]
  exact ⟨_, List.mem_singleton_self _, rfl⟩

theorem parents_around (hover : f.root.Over f.bytes) {s : Symbol} (hs : s ∈ f.outline.symbols)
    (hparent : s.parent ≠ "") :
    ∃ t ∈ f.outline.symbols, t.fqn = s.parent ∧
      t.lineStart ≤ s.lineStart ∧ s.lineEnd ≤ t.lineEnd := by
  obtain ⟨p, x, hx, hs⟩ := mem_symbols_iff.mp hs
  have howner := ((ownOutline_declaredBy x.1 x.2).symbols s hs).1
  rcases hx.place_cases with htop | ⟨q, outer, t, name, i, body, ht, hbody, hplace, hin⟩
  · rw [htop] at howner
    exact absurd howner hparent
  · obtain ⟨u, hu, hfqn⟩ := exists_type_symbol outer hbody
    have hspan := spanOf_inside f.scope (ht.solid hover hu) (hx.solid hover hs)
      (hover.inside ht.mem_preorder hin)
    obtain ⟨hfirst, hlast⟩ := Prod.mk.inj (span_eq hs)
    obtain ⟨hfirst', hlast'⟩ := Prod.mk.inj (span_eq hu)
    refine ⟨u, mem_symbols_iff.mpr ⟨q, _, ht, hu⟩, by rw [hfqn, howner, hplace], ?_⟩
    rw [hfirst, hlast, hfirst', hlast']
    exact hspan

/-- A call is below its caller, and on the line of the name that is called. -/
theorem of_mem_routineCalls {src : Source} {scope : FileScope} {owner caller : String}
    {fields : Bindings} {n : Node} {e : CallEdge}
    (h : e ∈ routineCalls src scope owner fields caller n) :
    e.caller = caller ∧ ∃ m ∈ n.preorder, m.kind = .methodInvocation ∧
      ∃ name ∈ m.child? .name, e.line = name.line src := by
  unfold routineCalls at h
  split at h
  · rename_i body hbody
    refine ⟨caller_of_mem_bodyCalls src h, ?_⟩
    obtain ⟨m, hm, he⟩ := List.mem_filterMap.mp h
    have hbelow := Node.mem_preorder_trans
      (Node.mem_preorder_of_mem_children (Node.mem_children_of_child? hbody)) hm
    unfold callEdge? at he
    split at he
    · obtain ⟨name, hname, rfl⟩ := Option.map_eq_some_iff.mp he
      exact ⟨m, hbelow, by simpa using ‹(m.kind == _) = true›, name, hname, rfl⟩
    · simp at he
  · simp at h

theorem calls_around (hover : f.root.Over f.bytes) {e : CallEdge} (he : e ∈ f.outline.calls) :
    ∃ t ∈ f.outline.symbols, t.fqn = e.caller ∧ t.lineStart ≤ e.line ∧ e.line ≤ t.lineEnd := by
  obtain ⟨p, x, hx, he⟩ := mem_calls_iff.mp he
  obtain ⟨s, hs, hcaller, m, hm, hkind, name, hname, hline⟩ : ∃ s ∈ (f.yield x).symbols,
      e.caller = s.fqn ∧ ∃ m ∈ x.2.preorder, m.kind = .methodInvocation ∧
        ∃ name ∈ m.child? .name, e.line = name.line f.source := by
    obtain ⟨owner, fields, kind, name, hplace, hkind, hname⟩ := exists_routine_of_mem_calls he
    rw [yield, hplace, ownOutline_of_routine hkind hname] at he ⊢
    exact ⟨_, List.mem_singleton_self _, of_mem_routineCalls he⟩
  have hinside := hover.inside (Node.mem_preorder_trans hx.mem_preorder hm)
    (Node.mem_preorder_of_mem_children (Node.mem_children_of_child? hname))
  have hspan := line_inside f.scope (hx.solid hover hs)
    (hover.callNames m (Node.mem_preorder_trans hx.mem_preorder hm) hkind name hname) (by
      have hbelow := hover.inside hx.mem_preorder hm
      omega)
  obtain ⟨hfirst, hlast⟩ := Prod.mk.inj (span_eq hs)
  refine ⟨s, mem_symbols_iff.mpr ⟨p, x, hx, hs⟩, hcaller.symm, ?_⟩
  rw [hfirst, hlast, hline]
  exact hspan

end ParsedFile

/-- In a tree over the bytes of a file, the lines of symbols and calls are inside the file and
inside one another. -/
theorem outlineOf_spanned {bytes : List UInt8} {root : Node} (h : root.Over bytes)
    (fallback : String) : (outlineOf bytes root fallback).Spanned (Text.lineCount bytes) where
  spans _ hs := ParsedFile.spans_valid (f := ⟨bytes, root, fallback⟩) h hs
  parents _ hs := ParsedFile.parents_around (f := ⟨bytes, root, fallback⟩) h hs
  calls _ he := ParsedFile.calls_around (f := ⟨bytes, root, fallback⟩) h he

namespace Sample

/-- A type in a type, calls on two lines, and no brace at the end. -/
def unfinished : List UInt8 :=
  "class A \x7b\n class B \x7b\n  void m() \x7b\n   n(\n    o.p());\n  \x7d\n \x7d\n".toUTF8.toList

end Sample

open Java.Sample in
theorem outlineOf_spanned_unfinished :
    (parseTree unfinished).Over unfinished ∧
      (outlineOf unfinished (parseTree unfinished) "").Spanned (Text.lineCount unfinished) := by
  have hover : (parseTree unfinished).Over unfinished := by decide +kernel
  exact ⟨hover, outlineOf_spanned hover ""⟩

end Java

end CodeAtlas
