import CodeAtlas.Java.FrontEnd
import CodeAtlas.Proofs.Store.Attached

/-! # The names in an outline

An outline is a forest written out in the order of the text: a type stands before everything
inside it, and a symbol is named by the type it stands in, or by the package of the file.
Calls hang on methods and constructors, and annotations on symbols of the kind that their
scope is for. This holds whatever the parse tree looks like: a declaration without a name
yields nothing, and an empty name is a name like any other. So what is kept by name can be
found again from the symbols of the same file.
-/

namespace CodeAtlas

def Symbol.memberName (s : Symbol) : String := if s.kind = .constructor then "<init>" else s.name

namespace Outline

/-- Every symbol is named by its parent, or by the package where it has none; every caller is
a method or constructor of the outline, and every annotation is on a symbol of the outline
that its scope is for. -/
structure Named (package : String) (o : Outline) : Prop where
  fqns : ∀ s ∈ o.symbols, s.fqn = qualify (Java.scopeOf package s.parent) s.memberName
  callers : ∀ e ∈ o.calls, ∃ t ∈ o.symbols, t.kind.isCallable = true ∧ t.fqn = e.caller
  annotated : ∀ a ∈ o.annotations, ∃ t ∈ o.symbols,
    t.fqn = a.symbol ∧ AnnotationScope.ofSymbol t.kind = a.scope

/-- Moreover, every parent is declared as a type before its members. -/
structure WellNamed (package : String) (o : Outline) : Prop extends o.Named package where
  parents : ∀ before s after, o.symbols = before ++ s :: after → s.parent ≠ "" →
    ∃ t ∈ before, t.kind.isType = true ∧ t.fqn = s.parent

variable {package owner : String} {a b : Outline}

theorem named_empty : ({} : Outline).Named package where
  fqns := by simp
  callers := by simp
  annotated := by simp

theorem Named.append (ha : a.Named package) (hb : b.Named package) : (a ++ b).Named package where
  fqns s hs := by
    rcases List.mem_append.mp hs with hs | hs
    · exact ha.fqns s hs
    · exact hb.fqns s hs
  callers e he := by
    rcases List.mem_append.mp he with he | he
    · obtain ⟨t, ht, h⟩ := ha.callers e he
      exact ⟨t, List.mem_append_left _ ht, h⟩
    · obtain ⟨t, ht, h⟩ := hb.callers e he
      exact ⟨t, List.mem_append_right _ ht, h⟩
  annotated x hx := by
    rcases List.mem_append.mp hx with hx | hx
    · obtain ⟨t, ht, h⟩ := ha.annotated x hx
      exact ⟨t, List.mem_append_left _ ht, h⟩
    · obtain ⟨t, ht, h⟩ := hb.annotated x hx
      exact ⟨t, List.mem_append_right _ ht, h⟩

theorem Named.closed (h : a.Named package) : a.Closed where
  callers e he := by
    obtain ⟨t, ht, _, hfqn⟩ := h.callers e he
    exact List.mem_map.mpr ⟨t, ht, hfqn⟩
  annotated x hx := by
    obtain ⟨t, ht, hfqn, _⟩ := h.annotated x hx
    exact List.mem_map.mpr ⟨t, ht, hfqn⟩

/-! ## Parents before their members -/

/-- Symbols that stand inside `owner`, whose own symbol is not among them: each is a member
of `owner` or of a type before it. -/
def Inside (owner : String) (symbols : List Symbol) : Prop :=
  ∀ before s after, symbols = before ++ s :: after →
    s.parent = owner ∨ ∃ t ∈ before, t.kind.isType = true ∧ t.fqn = s.parent

theorem inside_nil : Inside owner [] := by
  intro before s after h
  simp at h

theorem inside_singleton {s : Symbol} (h : s.parent = owner) : Inside owner [s] := by
  intro before t after ht
  cases before with
  | nil =>
    obtain ⟨rfl, _⟩ := List.cons.inj ht
    exact .inl h
  | cons => simp at ht

theorem Inside.append {xs ys : List Symbol} (hx : Inside owner xs) (hy : Inside owner ys) :
    Inside owner (xs ++ ys) := by
  intro before s after h
  rcases List.append_eq_append_iff.mp h with ⟨mid, rfl, hys⟩ | ⟨mid, hxs, hmid⟩
  · rcases hy mid s after hys with hs | ⟨t, ht, hkind, hfqn⟩
    · exact .inl hs
    · exact .inr ⟨t, List.mem_append_right _ ht, hkind, hfqn⟩
  · cases mid with
    | nil =>
      rcases hy [] s after hmid.symm with hs | ⟨t, ht, _⟩
      · exact .inl hs
      · simp at ht
    | cons t mid =>
      obtain ⟨rfl, rfl⟩ := List.cons.inj hmid
      exact hx before s mid hxs

theorem Inside.under {t : Symbol} {xs : List Symbol} (hparent : t.parent = owner)
    (hkind : t.kind.isType = true) (hx : Inside t.fqn xs) : Inside owner (t :: xs) := by
  intro before s after h
  cases before with
  | nil =>
    obtain ⟨rfl, _⟩ := List.cons.inj h
    exact .inl hparent
  | cons u before =>
    obtain ⟨rfl, hxs⟩ := List.cons.inj h
    rcases hx before s after hxs with hs | ⟨v, hv, hv'⟩
    · exact .inr ⟨t, List.mem_cons_self, hkind, hs.symm⟩
    · exact .inr ⟨v, List.mem_cons_of_mem _ hv, hv'⟩

/-- A part of an outline that stands inside `owner`. -/
structure NamedIn (package owner : String) (o : Outline) : Prop extends o.Named package where
  inside : Inside owner o.symbols

theorem namedIn_empty : ({} : Outline).NamedIn package owner := ⟨named_empty, inside_nil⟩

theorem NamedIn.append (ha : a.NamedIn package owner) (hb : b.NamedIn package owner) :
    (a ++ b).NamedIn package owner :=
  ⟨ha.toNamed.append hb.toNamed, ha.inside.append hb.inside⟩

theorem NamedIn.wellNamed (h : a.NamedIn package "") : a.WellNamed package where
  toNamed := h.toNamed
  parents before s after hs hparent := by
    rcases h.inside before s after hs with hp | ht
    · exact absurd hp hparent
    · exact ht

end Outline

namespace Java

open Outline

/-! ## Joined names -/

variable {package owner name : String}

theorem qualify_eq_empty_iff {scope : String} :
    qualify scope name = "" ↔ scope = "" ∧ name = "" := by
  unfold qualify
  split
  · have hs : scope = "" := by simpa using ‹scope.isEmpty = true›
    simp [hs]
  · have hs : scope ≠ "" := by simpa using ‹¬scope.isEmpty = true›
    simp [hs]

theorem package_eq_empty_of_qualify {parent : String}
    (h : qualify (scopeOf package parent) name = "") : package = "" := by
  have hs := (qualify_eq_empty_iff.mp h).1
  unfold scopeOf at hs
  split at hs
  · exact hs
  · exact absurd hs (by simpa using ‹¬parent.isEmpty = true›)

/-- Naming a member by its type alone is the same as by the type or else the package, when
only types outside any package can be without a name. -/
theorem qualify_scopeOf (h : owner = "" → package = "") :
    qualify (scopeOf package owner) name = qualify owner name := by
  unfold scopeOf
  split
  · have ho : owner = "" := by simpa using ‹owner.isEmpty = true›
    rw [ho, h ho]
  · rfl

/-! ## Declarations -/

variable (src : Source) (facts : FileFacts)

theorem of_mem_annotationsOf {n : Node} {fqn : String} {scope : AnnotationScope}
    {a : Annotation} (h : a ∈ annotationsOf src n fqn scope) :
    a.symbol = fqn ∧ a.scope = scope := by
  unfold annotationsOf at h
  split at h
  · simp at h
  · obtain ⟨c, _, hc⟩ := List.mem_filterMap.mp h
    obtain ⟨name, _, rfl⟩ := Option.map_eq_some_iff.mp hc
    exact ⟨rfl, rfl⟩

theorem caller_of_mem_bodyCalls {ctx : CallContext} {caller : String} {body : Node} {e : CallEdge}
    (h : e ∈ bodyCalls src ctx caller body) : e.caller = caller := by
  obtain ⟨n, _, hn⟩ := List.mem_filterMap.mp h
  unfold callEdge? at hn
  split at hn
  · obtain ⟨name, _, rfl⟩ := Option.map_eq_some_iff.mp hn
    rfl
  · simp at hn

theorem declare_named {fqn : String} {kind : SymbolKind}
    (h : fqn = qualify (scopeOf package owner) (if kind = .constructor then "<init>" else name))
    (n : Node) (signature : String) (modifiers : List String) :
    (declare src facts n fqn name kind signature owner modifiers).NamedIn package owner where
  fqns s hs := by
    obtain rfl := List.mem_singleton.mp hs
    exact h
  callers := by simp [declare]
  annotated a ha := by
    obtain ⟨hsymbol, hscope⟩ := of_mem_annotationsOf src ha
    exact ⟨_, List.mem_singleton_self _, hsymbol.symm, hscope.symm⟩
  inside := inside_singleton rfl

theorem fieldOutline_named (h : owner = "" → package = "") (n : Node) :
    (fieldOutline src facts owner n).NamedIn package owner := by
  unfold fieldOutline
  generalize declaratorNames src n = names
  suffices hfold : ∀ out : Outline, out.NamedIn package owner → (names.foldl (fun out name =>
      out ++ declare src facts n (qualify owner name) name .field
        (joinParts [" ".intercalate (modifierTexts src n), childText src (n.child? .type), name])
        owner (modifierTexts src n)) out).NamedIn package owner from hfold _ namedIn_empty
  induction names with
  | nil => exact fun out hout => hout
  | cons name names ih =>
    intro out hout
    exact ih _ (hout.append (declare_named src facts (by rw [qualify_scopeOf h]; rfl) n _ _))

theorem enumConstantOutline_named (h : owner = "" → package = "") (n : Node) :
    (enumConstantOutline src facts owner n).NamedIn package owner := by
  unfold enumConstantOutline
  split
  · exact declare_named src facts (by rw [qualify_scopeOf h]; rfl) n _ _
  · exact namedIn_empty

theorem callableOutline_named (h : owner = "" → package = "") (fields : Bindings)
    {kind : SymbolKind} (hkind : kind.isCallable = true) (n : Node) :
    (callableOutline src facts owner fields kind n).NamedIn package owner := by
  unfold callableOutline
  split
  · exact namedIn_empty
  · rename_i name _
    have hfqn : qualify owner (if kind == .constructor then "<init>" else name)
        = qualify (scopeOf package owner) (if kind = .constructor then "<init>" else name) := by
      rw [qualify_scopeOf h]
      simp only [beq_iff_eq]
    have hd := declare_named src facts hfqn n (callableSignature src n name (modifierTexts src n))
      (modifierTexts src n)
    simp only
    split
    · exact hd
    · refine { hd with callers := fun e he => ?_ }
      rw [caller_of_mem_bodyCalls src he]
      exact ⟨_, List.mem_singleton_self _, hkind, rfl⟩

theorem memberOutline_named (h : owner = "" → package = "") (fields : Bindings) (n : Node) :
    (memberOutline src facts owner fields n).NamedIn package owner := by
  unfold memberOutline
  split
  · exact fieldOutline_named src facts h n
  · exact fieldOutline_named src facts h n
  · exact callableOutline_named src facts h fields rfl n
  · exact callableOutline_named src facts h fields rfl n
  · exact callableOutline_named src facts h fields rfl n
  · exact callableOutline_named src facts h fields rfl n
  · exact enumConstantOutline_named src facts h n
  · exact namedIn_empty

theorem isType_of_typeKind? {k : Kind} {kind : SymbolKind} (h : typeKind? k = some kind) :
    kind.isType = true := by
  cases k <;> simp [typeKind?] at h <;> subst h <;> rfl

/-! ## Types and files -/

mutual

theorem typeOutline_named : ∀ (parent : String) (outer : Bindings) (kind : SymbolKind) (n : Node),
    kind.isType = true →
    (typeOutline src facts parent outer kind n).NamedIn facts.scope.package parent
  | parent, outer, kind, .mk k r a b cs, hkind => by
    rw [typeOutline]
    split
    · exact namedIn_empty
    · rename_i name _
      have hfqn : qualify (scopeOf facts.scope.package parent) name
          = qualify (scopeOf facts.scope.package parent)
            (if kind = .constructor then "<init>" else name) := by
        rw [if_neg]
        rintro rfl
        simp [SymbolKind.isType] at hkind
      have hd := declare_named src facts hfqn (.mk k r a b cs)
        (typeSignature src (.mk k r a b cs) name (modifierTexts src (.mk k r a b cs)))
        (modifierTexts src (.mk k r a b cs))
      have hb := bodyOutline_named (qualify (scopeOf facts.scope.package parent) name)
        (visibleFields src (.mk k r a b cs) outer) cs package_eq_empty_of_qualify
      exact ⟨hd.toNamed.append hb.toNamed, Inside.under rfl hkind hb.inside⟩

theorem bodyOutline_named : ∀ (owner : String) (fields : Bindings) (ns : List Node),
    (owner = "" → facts.scope.package = "") →
    (bodyOutline src facts owner fields ns).NamedIn facts.scope.package owner
  | _, _, [], _ => by
    rw [bodyOutline]
    exact namedIn_empty
  | owner, fields, .mk _ r _ _ cs :: ns, h => by
    rw [bodyOutline]
    split
    · exact membersOutline_named owner fields cs h
    · exact bodyOutline_named owner fields ns h

theorem membersOutline_named : ∀ (owner : String) (fields : Bindings) (ns : List Node),
    (owner = "" → facts.scope.package = "") →
    (membersOutline src facts owner fields ns).NamedIn facts.scope.package owner
  | _, _, [], _ => by
    rw [membersOutline]
    exact namedIn_empty
  | owner, fields, .mk k r a b cs :: ns, h => by
    rw [membersOutline]
    refine NamedIn.append ?_ (membersOutline_named owner fields ns h)
    split
    · exact membersOutline_named owner fields cs h
    · split
      · exact typeOutline_named owner fields _ (.mk k r a b cs) (isType_of_typeKind? ‹_›)
      · exact memberOutline_named src facts h fields _

end

mutual

theorem topOutline_named : ∀ n : Node,
    (topOutline src facts n).NamedIn facts.scope.package ""
  | .mk k r a b cs => by
    rw [topOutline]
    split
    · exact typeOutline_named src facts _ _ _ _ (isType_of_typeKind? ‹_›)
    · split
      · exact topOutlines_named cs
      · exact namedIn_empty

theorem topOutlines_named : ∀ ns : List Node,
    (topOutlines src facts ns).NamedIn facts.scope.package ""
  | [] => by
    rw [topOutlines]
    exact namedIn_empty
  | n :: ns => by
    rw [topOutlines]
    exact (topOutline_named n).append (topOutlines_named ns)

end

theorem fileScope_package (root : Node) (fallback : String) :
    (fileScope src root fallback).package = packageOf src root fallback := by
  suffices h : ∀ (imports : List Import) (scope : FileScope),
      (imports.foldl (fun s i => s.addImport i.path) scope).package = scope.package from h _ _
  intro imports
  induction imports with
  | nil => exact fun _ => rfl
  | cons i imports ih =>
    intro scope
    rw [List.foldl_cons, ih]
    rfl

theorem outlineOf_named (bytes : List UInt8) (root : Node) (fallback : String) :
    (outlineOf bytes root fallback).NamedIn
      (packageOf (Source.ofBytes bytes) root fallback) "" := by
  have h := topOutlines_named (Source.ofBytes bytes)
    ⟨Text.lineCount bytes, fileScope (Source.ofBytes bytes) root fallback⟩ root.children
  rw [fileScope_package] at h
  exact ⟨⟨h.fqns, h.callers, h.annotated⟩, h.inside⟩

theorem outlineOfBytes_closed (bytes : List UInt8) (fallback : String) :
    (outlineOfBytes bytes fallback).Closed :=
  (outlineOf_named bytes (parseTree bytes) fallback).closed

/-! ## The package of a file -/

/-- What a package declaration names: the text of its first child that is a name, without white
space. -/
def NamesPackage (src : Source) (n : Node) (package : String) : Prop :=
  ∃ front c back, n.named = front ++ c :: back ∧
    (∀ d ∈ front, d.kind ≠ .identifier ∧ d.kind ≠ .scopedIdentifier) ∧
    (c.kind = .identifier ∨ c.kind = .scopedIdentifier) ∧ Text.squeeze (c.text src) = package

/-- The last package declaration of a file. -/
def LastPackage (root n : Node) : Prop :=
  n.kind = .packageDeclaration ∧ ∃ front back, root.named = front ++ n :: back ∧
    ∀ d ∈ back, d.kind ≠ .packageDeclaration

/-- The package of a file: what its last package declaration names, or else the fallback. -/
inductive HasPackage (src : Source) (root : Node) (fallback : String) : String → Prop
  | declared {n : Node} {package : String} : LastPackage root n → NamesPackage src n package →
      HasPackage src root fallback package
  | undeclared : (∀ n package, LastPackage root n → ¬ NamesPackage src n package) →
      HasPackage src root fallback fallback

variable {src : Source} {root n : Node} {fallback : String}

theorem namesPackage_iff : NamesPackage src n package ↔ dottedName? src n.named = some package := by
  simp only [dottedName?, Option.map_eq_some_iff, List.find?_eq_some_iff_append, Bool.or_eq_true,
    beq_iff_eq, Bool.not_eq_true', Bool.or_eq_false_iff, beq_eq_false_iff_ne]
  constructor
  · rintro ⟨front, c, back, hnamed, hfront, hc, rfl⟩
    exact ⟨c, ⟨hc, front, back, hnamed, hfront⟩, rfl⟩
  · rintro ⟨c, ⟨hc, front, back, hnamed, hfront⟩, rfl⟩
    exact ⟨front, c, back, hnamed, hfront, hc, rfl⟩

theorem lastPackage_iff :
    LastPackage root n ↔
      (root.named.filter fun c => c.kind == .packageDeclaration).getLast? = some n := by
  simp only [LastPackage, List.getLast?_eq_some_iff, List.filter_eq_append_iff,
    List.filter_eq_cons_iff, List.filter_eq_nil_iff, beq_iff_eq]
  constructor
  · rintro ⟨hn, front, back, hnamed, hback⟩
    exact ⟨_, front, n :: back, hnamed, rfl, [], back, rfl, by simp, hn, hback⟩
  · rintro ⟨_, front, _, hnamed, rfl, mid, back, rfl, _, hn, hback⟩
    exact ⟨hn, front ++ mid, back, by simp [hnamed], hback⟩

theorem hasPackage_packageOf (src : Source) (root : Node) (fallback : String) :
    HasPackage src root fallback (packageOf src root fallback) := by
  unfold packageOf
  split
  · rename_i n hlast
    cases hname : dottedName? src n.named with
    | some package => exact .declared (lastPackage_iff.mpr hlast) (namesPackage_iff.mpr hname)
    | none =>
      refine .undeclared fun m package hm hpackage => ?_
      obtain rfl := Option.some.inj ((lastPackage_iff.mp hm).symm.trans hlast)
      rw [namesPackage_iff, hname] at hpackage
      cases hpackage
  · rename_i hnone
    refine .undeclared fun m _ hm _ => ?_
    rw [lastPackage_iff, hnone] at hm
    cases hm

theorem HasPackage.eq_packageOf (h : HasPackage src root fallback package) :
    package = packageOf src root fallback := by
  have hof := hasPackage_packageOf src root fallback
  generalize packageOf src root fallback = other at hof
  have hsame : ∀ {m m' p p'}, LastPackage root m → NamesPackage src m p → LastPackage root m' →
      NamesPackage src m' p' → p = p' := by
    intro m m' p p' hm hp hm' hp'
    obtain rfl := Option.some.inj ((lastPackage_iff.mp hm).symm.trans (lastPackage_iff.mp hm'))
    exact Option.some.inj ((namesPackage_iff.mp hp).symm.trans (namesPackage_iff.mp hp'))
  cases h with
  | declared hm hp =>
    cases hof with
    | declared hm' hp' => exact hsame hm hp hm' hp'
    | undeclared hnone => exact absurd hp (hnone _ _ hm)
  | undeclared hnone =>
    cases hof with
    | declared hm' hp' => exact absurd hp' (hnone _ _ hm')
    | undeclared _ => rfl

/-- Every file has a package, and its outline is well named in it, whatever its parse tree. -/
theorem outlineOf_wellNamed (bytes : List UInt8) (root : Node) (fallback : String) :
    (∃ package, HasPackage (.ofBytes bytes) root fallback package) ∧
    ∀ package, HasPackage (.ofBytes bytes) root fallback package →
      (outlineOf bytes root fallback).WellNamed package := by
  refine ⟨⟨_, hasPackage_packageOf _ root fallback⟩, fun package h => ?_⟩
  rw [h.eq_packageOf]
  exact (outlineOf_named bytes root fallback).wellNamed

end Java

namespace Sample

/-- A type in a package, with an annotation and a constructor that makes a call. -/
def packaged : List UInt8 := "package p . q;@A class X{X(){n();}}".toUTF8.toList

theorem hasPackage_packaged :
    Java.HasPackage (.ofBytes packaged) (Java.parseTree packaged) "" "p.q" := by
  have hof : Java.packageOf (.ofBytes packaged) (Java.parseTree packaged) "" = "p.q" := by
    decide +kernel
  exact hof ▸ Java.hasPackage_packageOf _ _ _

end Sample

open Sample in
/-- The type, its annotation, the constructor and its call are named in the package. -/
theorem Java.outlineOf_wellNamed_packaged :
    (outlineOfBytes packaged "").WellNamed "p.q" ∧
    (outlineOfBytes packaged "").symbols.map Symbol.fqn = ["p.q.X", "p.q.X.<init>"] ∧
    (outlineOfBytes packaged "").calls.map CallEdge.caller = ["p.q.X.<init>"] ∧
    (outlineOfBytes packaged "").annotations.map Annotation.symbol = ["p.q.X"] :=
  ⟨(outlineOf_wellNamed packaged (parseTree packaged) "").2 _ hasPackage_packaged,
    by decide +kernel, by decide +kernel, by decide +kernel⟩

end CodeAtlas
