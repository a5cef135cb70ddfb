import CodeAtlas.Proofs.Java.Resolution

/-! # Calls between files

Files are read one at a time, so a call into another file is tied to its target by name
alone: the file that declares a method builds the name from the types around it, and the
file that calls it builds one from the text of a type. A call on a variable of a declared
type leads to the method that the other file declares, under the conditions that the names
are looked up by.
-/

namespace CodeAtlas

/-! ## Parts of outlines -/

namespace Outline

/-- The symbols and the calls of one outline are among those of another. -/
structure Within (a b : Outline) : Prop where
  symbols : a.symbols ⊆ b.symbols
  calls : a.calls ⊆ b.calls

variable {a b c : Outline}

theorem Within.refl (a : Outline) : a.Within a := ⟨List.Subset.refl _, List.Subset.refl _⟩

theorem Within.trans (hab : a.Within b) (hbc : b.Within c) : a.Within c :=
  ⟨List.Subset.trans hab.symbols hbc.symbols, List.Subset.trans hab.calls hbc.calls⟩

theorem Within.append_left (h : a.Within b) (c : Outline) : a.Within (b ++ c) :=
  ⟨List.subset_append_of_subset_left _ h.symbols, List.subset_append_of_subset_left _ h.calls⟩

theorem Within.append_right (h : a.Within b) (c : Outline) : a.Within (c ++ b) :=
  ⟨List.subset_append_of_subset_right _ h.symbols, List.subset_append_of_subset_right _ h.calls⟩

end Outline

namespace Java

open Outline

/-! ## Members -/

/-- A node is a member of a type when it is in its body. -/
def IsMember (type member : Node) : Prop :=
  ∃ body, type.child? .body = some body ∧ member ∈ membersIn body.children

section Members

variable (src : Source) (facts : FileFacts)

def entryOutline (owner : String) (fields : Bindings) (n : Node) : Outline :=
  match typeKind? n.kind with
  | some kind => typeOutline src facts owner fields kind n
  | none => memberOutline src facts owner fields n

theorem entryOutline_within_membersOutline (owner : String) (fields : Bindings) {m : Node} :
    ∀ ns : List Node, m ∈ membersIn ns →
      (entryOutline src facts owner fields m).Within (membersOutline src facts owner fields ns)
  | [], h => by simp [membersIn] at h
  | .mk k r a b cs :: ns, h => by
    rw [membersIn, List.mem_append] at h
    rw [membersOutline]
    rcases h with h | h
    · apply Within.append_left
      rw [membersOf] at h
      split at h
      · rw [if_pos ‹_›]
        exact entryOutline_within_membersOutline owner fields cs h
      · rw [if_neg ‹_›]
        split at h
        · obtain rfl := List.mem_singleton.mp h
          exact Within.refl _
        · simp at h
    · exact (entryOutline_within_membersOutline owner fields ns h).append_right _

theorem bodyOutline_of_find? (owner : String) (fields : Bindings) {body : Node} :
    ∀ ns : List Node, ns.find? (fun c => c.role == some .body) = some body →
      bodyOutline src facts owner fields ns = membersOutline src facts owner fields body.children
  | [], h => by simp at h
  | .mk k r a b cs :: ns, h => by
    rw [bodyOutline]
    rw [List.find?_cons, Node.role] at h
    cases hr : r == some .body with
    | true =>
      rw [hr] at h
      obtain rfl := Option.some.inj h
      rfl
    | false =>
      rw [hr] at h
      exact bodyOutline_of_find? owner fields ns h

theorem entryOutline_within_typeOutline (parent : String) (outer : Bindings) (kind : SymbolKind)
    {n m : Node} {name : String} (hname : declaredName? src n = some name) (hm : IsMember n m) :
    (entryOutline src facts (qualify (scopeOf facts.scope.package parent) name)
      (visibleFields src n outer) m).Within (typeOutline src facts parent outer kind n) := by
  obtain ⟨body, hbody, hm⟩ := hm
  obtain ⟨k, r, a, b, cs⟩ := n
  rw [typeOutline, hname]
  apply Within.append_right
  rw [bodyOutline_of_find? src facts _ _ cs hbody]
  exact entryOutline_within_membersOutline src facts _ _ _ hm

/-- The kind of symbol that a method or constructor is. -/
def callableKind? : Kind → Option SymbolKind
  | .methodDeclaration | .annotationElement => some .method
  | .constructorDeclaration | .compactConstructor => some .constructor
  | _ => none

theorem entryOutline_of_callable {n : Node} {kind : SymbolKind}
    (h : callableKind? n.kind = some kind) (owner : String) (fields : Bindings) :
    entryOutline src facts owner fields n = callableOutline src facts owner fields kind n := by
  obtain ⟨k, r, a, b, cs⟩ := n
  cases k <;> simp [Node.kind, callableKind?] at h <;> subst h <;> rfl

theorem symbol_mem_callableOutline (owner : String) (fields : Bindings) (kind : SymbolKind)
    {n : Node} {name : String} (hname : declaredName? src n = some name) :
    ∃ t ∈ (callableOutline src facts owner fields kind n).symbols,
      t.kind = kind ∧ t.name = name ∧ t.parent = owner ∧
        t.fqn = qualify owner (if kind == .constructor then "<init>" else name) := by
  rw [callableOutline, hname]
  cases n.child? .body with
  | none => simp [declare]
  | some body => simp [declare]

def localTypes (fields : Bindings) (n body : Node) : Bindings :=
  (fields.insertAll (paramBindings src (n.child? .parameters))).insertAll (bodyBindings src body)

theorem calls_callableOutline (owner : String) (fields : Bindings) (kind : SymbolKind)
    {n body : Node} {name : String} (hname : declaredName? src n = some name)
    (hbody : n.child? .body = some body) :
    (callableOutline src facts owner fields kind n).calls =
      bodyCalls src ⟨facts.scope, owner, localTypes src fields n body⟩
        (qualify owner (if kind == .constructor then "<init>" else name)) body := by
  rw [callableOutline, hname, hbody]
  rfl

theorem receiverOf_identifier {n : Node} (h : n.kind = .identifier) :
    receiverOf src n = .identifier (n.text src) := by
  obtain ⟨k, r, a, b, cs⟩ := n
  obtain rfl : k = .identifier := h
  rw [receiverOf]
  rfl

end Members

/-! ## Files -/

/-- A file with a parse tree over its bytes, and the package it is in where it names none. -/
structure ParsedFile where
  bytes : List UInt8
  root : Node
  fallback : String

namespace ParsedFile

def source (f : ParsedFile) : Source := Source.ofBytes f.bytes

def scope (f : ParsedFile) : FileScope := fileScope f.source f.root f.fallback

def facts (f : ParsedFile) : FileFacts := ⟨Text.lineCount f.bytes, f.scope⟩

def outline (f : ParsedFile) : Outline := outlineOf f.bytes f.root f.fallback

/-- The nodes at the top level, those inside error nodes included. -/
inductive AtTop (f : ParsedFile) : Node → Prop
  | child {n : Node} : n ∈ f.root.children → f.AtTop n
  | recovered {e n : Node} : f.AtTop e → e.kind = .error → n ∈ e.children → f.AtTop n

/-- The types that a file declares, by the names on the way to them, each with the fields
that its bodies see. -/
inductive HasType (f : ParsedFile) : List String → Node → Bindings → Prop
  | top {n : Node} {name : String} : f.AtTop n → (typeKind? n.kind).isSome = true →
      declaredName? f.source n = some name → f.HasType [name] n (visibleFields f.source n {})
  | nested {path : List String} {n m : Node} {fields : Bindings} {name : String} :
      f.HasType path n fields → IsMember n m → (typeKind? m.kind).isSome = true →
      declaredName? f.source m = some name →
      f.HasType (path ++ [name]) m (visibleFields f.source m fields)

variable {f : ParsedFile}

theorem topOutline_within_topOutlines (f : ParsedFile) {n : Node} {ns : List Node} (h : n ∈ ns) :
    (topOutline f.source f.facts n).Within (topOutlines f.source f.facts ns) := by
  induction ns with
  | nil => simp at h
  | cons m ns ih =>
    rw [topOutlines]
    rcases List.mem_cons.mp h with rfl | h
    · exact (Within.refl _).append_left _
    · exact (ih h).append_right _

theorem AtTop.topOutline_within {n : Node} (h : f.AtTop n) :
    (topOutline f.source f.facts n).Within f.outline := by
  induction h with
  | child hn =>
    have hin := f.topOutline_within_topOutlines hn
    exact ⟨hin.symbols, hin.calls⟩
  | @recovered e n _ hkind hn ih =>
    obtain ⟨k, r, a, b, cs⟩ := e
    obtain rfl : k = .error := hkind
    rw [topOutline] at ih
    exact (f.topOutline_within_topOutlines hn).trans ih

theorem HasType.entryOutline_within {path : List String} {n : Node} {fields : Bindings}
    (h : f.HasType path n fields) {m : Node} (hm : IsMember n m) :
    (entryOutline f.source f.facts (declaredFqn f.scope.package path) fields m).Within
      f.outline := by
  induction h generalizing m with
  | @top n name htop hkind hname =>
    obtain ⟨kind, hkind⟩ := Option.isSome_iff_exists.mp hkind
    have hn : topOutline f.source f.facts n = typeOutline f.source f.facts "" {} kind n := by
      obtain ⟨k, r, a, b, cs⟩ := n
      rw [Node.kind] at hkind
      rw [topOutline, hkind]
    have hin := htop.topOutline_within
    rw [hn] at hin
    exact (entryOutline_within_typeOutline f.source f.facts "" {} kind hname hm).trans hin
  | @nested path n n' fields name _ hn' hkind hname ih =>
    obtain ⟨kind, hkind⟩ := Option.isSome_iff_exists.mp hkind
    have hin := ih hn'
    rw [entryOutline, hkind] at hin
    rw [declaredFqn_concat]
    exact (entryOutline_within_typeOutline f.source f.facts _ fields kind hname hm).trans hin

end ParsedFile

/-! ## Methods and constructors -/

/-- A method or constructor of a type in a file. -/
structure Routine (f : ParsedFile) where
  path : List String
  type : Node
  fields : Bindings
  node : Node
  kind : SymbolKind
  name : String
  hasType : f.HasType path type fields
  isMember : IsMember type node
  isCallable : callableKind? node.kind = some kind
  isNamed : declaredName? f.source node = some name

namespace Routine

variable {f : ParsedFile} (r : Routine f)

def owner : String := declaredFqn f.scope.package r.path

def fqn : String := qualify r.owner (if r.kind == .constructor then "<init>" else r.name)

theorem callableOutline_within :
    (callableOutline f.source f.facts r.owner r.fields r.kind r.node).Within f.outline := by
  rw [← entryOutline_of_callable f.source f.facts r.isCallable]
  exact r.hasType.entryOutline_within r.isMember

theorem exists_symbol : ∃ t ∈ f.outline.symbols,
    t.kind = r.kind ∧ t.name = r.name ∧ t.parent = r.owner ∧ t.fqn = r.fqn := by
  obtain ⟨t, ht, h⟩ := symbol_mem_callableOutline f.source f.facts r.owner r.fields r.kind r.isNamed
  exact ⟨t, r.callableOutline_within.symbols ht, h⟩

end Routine

/-! ## Calls on variables -/

/-- A call on a name, in the body of a method or constructor. -/
structure NamedCall (f : ParsedFile) where
  caller : Routine f
  body : Node
  node : Node
  object : Node
  method : Node
  hasBody : caller.node.child? .body = some body
  isInside : node ∈ body.preorder
  isCall : node.kind = .methodInvocation
  hasObject : node.child? .object = some object
  isIdentifier : object.kind = .identifier
  hasMethod : node.child? .name = some method

namespace NamedCall

variable {f : ParsedFile} (c : NamedCall f)

def context : CallContext :=
  ⟨f.scope, c.caller.owner, localTypes f.source c.caller.fields c.caller.node c.body⟩

/-- The text of the declared type of the variable that the call is on. -/
def objectType? : Option String := c.context.locals.find? (c.object.text f.source)

def methodName : String := c.method.text f.source

def edge? : Option CallEdge := callEdge? f.source c.context c.caller.fqn c.node

theorem mem_calls {e : CallEdge} (h : c.edge? = some e) : e ∈ f.outline.calls := by
  apply c.caller.callableOutline_within.calls
  rw [calls_callableOutline f.source f.facts _ _ _ c.caller.isNamed c.hasBody]
  exact List.mem_filterMap.mpr ⟨c.node, c.isInside, h⟩

/-- A call on a variable of a known type leads to the method of that name in the type. -/
theorem edge?_of_resolved {declared : String} {t : ResolvedType}
    (hdeclared : c.objectType? = some declared) (ht : f.scope.resolveType? declared = some t) :
    ∃ e, c.edge? = some e ∧ e.callee = t.fqn ++ "." ++ c.methodName ∧
      e.confidence = Confidence.typedReceiver := by
  have hvariable : c.context.variableType? (c.object.text f.source) = some t := by
    rw [CallContext.variableType?, ← objectType?, hdeclared]
    exact ht
  have htarget : c.context.resolve (receiverOf f.source c.object) (c.method.text f.source) =
      CallContext.typed t c.methodName := by
    rw [receiverOf_identifier f.source c.isIdentifier, CallContext.resolve,
      CallContext.resolveIdentifier, hvariable]
    rfl
  refine ⟨⟨c.caller.fqn, t.fqn ++ "." ++ c.methodName, .ofExternal t.isExternal,
    c.method.line f.source, Confidence.typedReceiver⟩, ?_, by simp only, by simp only⟩
  rw [edge?, callEdge?, if_pos (by rw [c.isCall]; rfl), c.hasMethod, c.hasObject]
  simp only [Option.map_some, htarget, CallContext.typed]

end NamedCall

/-- A call on a variable leads to the method that another file declares in the type of the
variable: the type is written as it is nested, and its outermost name is imported, or is
found in the package that both files are in. -/
theorem call_leads_to_declared_method {f g : ParsedFile} (m : Routine f) (c : NamedCall g)
    {outer suffix : String} {names : List String} (hmethod : m.kind = .method)
    (hpath : m.path = outer :: names) (hplain : ∀ name ∈ m.path, IsPlain name)
    (hcapital : IsCapital outer) (hname : c.methodName = m.name)
    (htype : c.objectType? = some (writtenName m.path ++ suffix)) (hsuffix : IsTypeSuffix suffix)
    (hreaches : g.scope.Reaches f.scope.package outer) :
    ∃ e t, c.edge? = some e ∧ e ∈ g.outline.calls ∧ t ∈ f.outline.symbols ∧
      t.kind = .method ∧ t.name = m.name ∧
      t.parent = qualify f.scope.package (writtenName m.path) ∧
      e.callee = t.fqn ∧ e.confidence = .ofDecimal false 7 (-1) := by
  rw [hpath, List.forall_mem_cons] at hplain
  rw [hpath] at htype
  obtain ⟨type, hresolve, hfqn⟩ := Option.map_eq_some_iff.mp
    (FileScope.resolveType?_writtenName hcapital hplain.1 hplain.2 hsuffix hreaches)
  obtain ⟨e, he, hcallee, hconfidence⟩ := c.edge?_of_resolved htype hresolve
  obtain ⟨t, ht, hkind, htname, hparent, htfqn⟩ := m.exists_symbol
  have howner : m.owner = declaredFqn f.scope.package (outer :: names) := by
    rw [Routine.owner, hpath]
  refine ⟨e, t, he, c.mem_calls he, ht, hkind.trans hmethod, htname, ?_, ?_, hconfidence⟩
  · rw [hparent, howner, hpath, declaredFqn_eq hcapital.ne_empty]
  · have hne : ¬m.owner.isEmpty = true := by
      simpa [howner, declaredFqn_eq hcapital.ne_empty, qualify_eq_empty_iff] using
        fun _ => writtenName_ne_empty hcapital.ne_empty names
    rw [hcallee, hfqn, htfqn, Routine.fqn, hmethod, hname, ← howner, qualify, if_neg hne]
    rfl

namespace Sample

/-- The method `m` of `class T{class N{void m(){}}}`. -/
def method : Node :=
  .mk .methodDeclaration none 16 26
    [.mk .typeName (some .type) 16 20 [], .mk .identifier (some .name) 21 22 [],
      .mk .formalParameters (some .parameters) 22 24 [], .mk .block (some .body) 24 26 []]

def innerType : Node :=
  .mk .classDeclaration none 8 27
    [.mk .token none 8 13 [], .mk .identifier (some .name) 14 15 [],
      .mk .classBody (some .body) 15 27 [method]]

def outerType : Node :=
  .mk .classDeclaration none 0 28
    [.mk .token none 0 5 [], .mk .identifier (some .name) 6 7 [],
      .mk .classBody (some .body) 7 28 [innerType]]

def declaring : ParsedFile where
  bytes := "class T{class N{void m(){}}}".toUTF8.toList
  root := .mk .program none 0 28 [outerType]
  fallback := "p"

/-- The call in `class U{void r(T.N<?>[] x){x.m();}}`. -/
def call : Node :=
  .mk .methodInvocation none 27 32
    [.mk .identifier (some .object) 27 28 [], .mk .token none 28 29 [],
      .mk .identifier (some .name) 29 30 [], .mk .arguments (some .arguments) 30 32 []]

def routine : Node :=
  .mk .methodDeclaration none 8 34
    [.mk .typeName (some .type) 8 12 [], .mk .identifier (some .name) 13 14 [],
      .mk .formalParameters (some .parameters) 14 26
        [.mk .formalParameter none 15 25
          [.mk .typeName (some .type) 15 23 [], .mk .identifier (some .name) 24 25 []]],
      .mk .block (some .body) 26 34 [.mk .statement none 27 33 [call]]]

def callingType : Node :=
  .mk .classDeclaration none 0 35
    [.mk .token none 0 5 [], .mk .identifier (some .name) 6 7 [],
      .mk .classBody (some .body) 7 35 [routine]]

def calling : ParsedFile where
  bytes := "class U{void r(T.N<?>[] x){x.m();}}".toUTF8.toList
  root := .mk .program none 0 35 [callingType]
  fallback := "p"

theorem hasType_outer :
    declaring.HasType ["T"] outerType (visibleFields declaring.source outerType {}) :=
  .top (.child List.mem_cons_self) rfl (by decide +kernel)

/-- The method `p.T.N.m`. -/
def declared : Routine declaring where
  path := ["T", "N"]
  type := innerType
  fields := visibleFields declaring.source innerType (visibleFields declaring.source outerType {})
  node := method
  kind := .method
  name := "m"
  hasType := .nested hasType_outer ⟨_, rfl, List.mem_cons_self⟩ rfl (by decide +kernel)
  isMember := ⟨_, rfl, List.mem_cons_self⟩
  isCallable := rfl
  isNamed := by decide +kernel

/-- The method `p.U.r`. -/
def caller : Routine calling where
  path := ["U"]
  type := callingType
  fields := visibleFields calling.source callingType {}
  node := routine
  kind := .method
  name := "r"
  hasType := .top (.child List.mem_cons_self) rfl (by decide +kernel)
  isMember := ⟨_, rfl, List.mem_cons_self⟩
  isCallable := rfl
  isNamed := by decide +kernel

/-- The call `x.m()` in it. -/
def called : NamedCall calling where
  caller := caller
  body := .mk .block (some .body) 26 34 [.mk .statement none 27 33 [call]]
  node := call
  object := .mk .identifier (some .object) 27 28 []
  method := .mk .identifier (some .name) 29 30 []
  hasBody := rfl
  isInside := by simp [Node.preorder, Node.preorderAll, call]
  isCall := rfl
  hasObject := rfl
  isIdentifier := rfl
  hasMethod := rfl

end Sample

open Java.Sample in
/-- The call on an array of `T.N<?>` leads to the method of the nested type. -/
theorem nested_call_leads_to_method :
    called.objectType? = some (writtenName ["T", "N"] ++ "<?>[]") ∧
      calling.scope.Reaches declaring.scope.package "T" ∧
      ∃ e t, called.edge? = some e ∧ e ∈ calling.outline.calls ∧ t ∈ declaring.outline.symbols ∧
        t.kind = .method ∧ t.name = declared.name ∧
        t.parent = qualify declaring.scope.package (writtenName declared.path) ∧
        e.callee = t.fqn ∧ e.confidence = .ofDecimal false 7 (-1) := by
  have htype : called.objectType? = some (writtenName ["T", "N"] ++ "<?>[]") := by decide +kernel
  have hreaches : calling.scope.Reaches declaring.scope.package "T" := by decide +kernel
  have hname : called.methodName = declared.name := by decide +kernel
  exact ⟨htype, hreaches, call_leads_to_declared_method declared called rfl rfl (by decide +kernel)
    (by decide +kernel) hname htype (by decide +kernel) hreaches⟩

end Java

end CodeAtlas
