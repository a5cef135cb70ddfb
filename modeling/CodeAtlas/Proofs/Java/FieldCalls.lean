import CodeAtlas.Proofs.Java.Linking

/-! # Calls on fields of the enclosing object

A method or constructor has one table of variables: the fields of the types around it, then
its parameters, then the variables of its body, and each declaration of a name replaces the
one before. A call on `this.f` is looked up in this table like a call on the bare name. So it
leads to the type of the field only where the last declaration of the name agrees with it; a
parameter with the name of the field takes its place.
-/

namespace CodeAtlas.Java

/-! ## The last declaration of a name -/

def lastValue? (entries : List (String × String)) (name : String) : Option String :=
  (entries.reverse.find? fun e => e.1 == name).map Prod.snd

theorem lastValue?_concat (entries : List (String × String)) (e : String × String)
    (name : String) :
    lastValue? (entries ++ [e]) name =
      if e.1 = name then some e.2 else lastValue? entries name := by
  by_cases h : e.1 = name <;> simp [lastValue?, h]

theorem lastValue?_isSome {entries : List (String × String)} {name value : String}
    (h : (name, value) ∈ entries) : (lastValue? entries name).isSome = true := by
  simp only [lastValue?, Option.isSome_map, List.find?_isSome, List.mem_reverse]
  exact ⟨_, h, by simp⟩

theorem mem_of_lastValue? {entries : List (String × String)} {name value : String}
    (h : lastValue? entries name = some value) : (name, value) ∈ entries := by
  obtain ⟨e, he, rfl⟩ := Option.map_eq_some_iff.mp h
  obtain rfl : e.1 = name := by simpa using List.find?_some he
  exact List.mem_reverse.mp (List.mem_of_find?_eq_some he)

namespace Bindings

theorem insertAll_append (b : Bindings) (entries more : List (String × String)) :
    b.insertAll (entries ++ more) = (b.insertAll entries).insertAll more :=
  List.foldl_append

theorem find?_insertAll (b : Bindings) (entries : List (String × String)) (name : String) :
    (b.insertAll entries).find? name = (lastValue? entries name).or (b.find? name) := by
  induction entries using List.reverseRecOn with
  | nil => rfl
  | append_singleton entries e ih =>
    have hlast : (b.insertAll entries).insertAll [e] = (b.insertAll entries).insert e.1 e.2 := rfl
    rw [insertAll_append, hlast, find?_insert, lastValue?_concat, ih]
    split <;> rfl

end Bindings

/-! ## Fields and the variables that hide them -/

section Fields

variable (src : Source)

/-- The fields that the body of a type declares, in order. -/
def ownFields (type : Node) : List (String × String) :=
  match type.child? .body with
  | some body => (membersIn body.children).flatMap (fieldBindings src)
  | none => []

/-- The body of a type declares a field with a type text. -/
def DeclaresField (type : Node) (name declared : String) : Prop :=
  ∃ member, IsMember type member ∧ (name, declared) ∈ fieldBindings src member

theorem mem_ownFields_iff {type : Node} {name declared : String} :
    (name, declared) ∈ ownFields src type ↔ DeclaresField src type name declared := by
  unfold ownFields DeclaresField IsMember
  cases type.child? .body with
  | none => simp
  | some body => simp

/-- The parameters and the variables of a method or constructor, in order. -/
def variablesOf (routine body : Node) : List (String × String) :=
  paramBindings src (routine.child? .parameters) ++ bodyBindings src body

/-- The table that names are looked up in: what is around the type, then what is declared in
it, and last what the method or constructor declares. -/
theorem localTypes_visibleFields (type routine body : Node) (outer : Bindings) :
    localTypes src (visibleFields src type outer) routine body =
      (outer.insertAll (paramBindings src (type.child? .parameters))).insertAll
        (ownFields src type ++ variablesOf src routine body) := by
  rw [variablesOf, Bindings.insertAll_append, Bindings.insertAll_append]
  rfl

theorem receiverOf_thisField {n this field : Node} (hkind : n.kind = .fieldAccess)
    (hobject : n.child? .object = some this) (hthis : this.kind = .thisReference)
    (hfield : n.child? .field = some field) :
    receiverOf src n = .thisField (field.text src) := by
  have hreceiver : fieldReceiver src n = .thisField (field.text src) := by
    simp [fieldReceiver, hobject, hfield, hthis]
  obtain ⟨k, r, a, b, cs⟩ := n
  obtain rfl : k = .fieldAccess := hkind
  rw [receiverOf]
  exact hreceiver

end Fields

theorem ParsedFile.HasType.exists_outer {f : ParsedFile} {path : List String} {n : Node}
    {fields : Bindings} (h : f.HasType path n fields) :
    ∃ outer, fields = visibleFields f.source n outer := by
  cases h with
  | top => exact ⟨_, rfl⟩
  | nested => exact ⟨_, rfl⟩

/-! ## Calls on fields -/

/-- A call `this.f.m()` in the body of a method or constructor. -/
structure FieldCall (f : ParsedFile) where
  caller : Routine f
  body : Node
  node : Node
  object : Node
  this : Node
  field : Node
  method : Node
  hasBody : caller.node.child? .body = some body
  isInside : node ∈ body.preorder
  isCall : node.kind = .methodInvocation
  hasObject : node.child? .object = some object
  isAccess : object.kind = .fieldAccess
  hasThis : object.child? .object = some this
  isThis : this.kind = .thisReference
  hasField : object.child? .field = some field
  hasMethod : node.child? .name = some method

namespace FieldCall

variable {f : ParsedFile} (c : FieldCall f)

def context : CallContext :=
  ⟨f.scope, c.caller.owner, localTypes f.source c.caller.fields c.caller.node c.body⟩

def fieldName : String := c.field.text f.source

def methodName : String := c.method.text f.source

def edge? : Option CallEdge := callEdge? f.source c.context c.caller.fqn c.node

/-- The names declared for the body with their type texts: the fields of the type, then the
parameters, then the variables of the body. -/
def declarations : List (String × String) :=
  ownFields f.source c.caller.type ++ variablesOf f.source c.caller.node c.body

/-- The type text that the name of the field is declared with last. -/
def lastType? : Option String := lastValue? c.declarations c.fieldName

theorem mem_calls {e : CallEdge} (h : c.edge? = some e) : e ∈ f.outline.calls := by
  apply c.caller.callableOutline_within.calls
  rw [calls_callableOutline f.source f.facts _ _ _ c.caller.isNamed c.hasBody]
  exact List.mem_filterMap.mpr ⟨c.node, c.isInside, h⟩

theorem find?_locals {declared : String}
    (h : DeclaresField f.source c.caller.type c.fieldName declared) :
    ∃ last, c.lastType? = some last ∧ c.context.locals.find? c.fieldName = some last := by
  obtain ⟨outer, houter⟩ := c.caller.hasType.exists_outer
  obtain ⟨last, hlast⟩ := Option.isSome_iff_exists.mp
    (lastValue?_isSome (List.mem_append_left (variablesOf f.source c.caller.node c.body)
      ((mem_ownFields_iff f.source).mpr h)))
  refine ⟨last, hlast, ?_⟩
  rw [context, houter, localTypes_visibleFields, Bindings.find?_insertAll, hlast]
  rfl

def target : ResolvedCall := c.context.resolve (.thisField c.fieldName) c.methodName

theorem edge?_eq : c.edge? = some ⟨c.caller.fqn, c.target.callee, c.target.callType,
    c.method.line f.source, c.target.confidence⟩ := by
  rw [edge?, callEdge?, if_pos (by rw [c.isCall]; rfl), c.hasMethod, c.hasObject]
  simp only [receiverOf_thisField f.source c.isAccess c.hasThis c.isThis c.hasField]
  rfl

/-- A call on a field leads to a type exactly when the text that the field is looked up by
stands for this type. -/
theorem target_iff {last : String} (hfind : c.context.locals.find? c.fieldName = some last)
    (fqn : String) :
    (c.target.callee = fqn ++ "." ++ c.methodName ∧
      c.target.confidence = Confidence.typedReceiver) ↔
    (f.scope.resolveType? last).map ResolvedType.fqn = some fqn := by
  have hvariable : c.context.variableType? c.fieldName = f.scope.resolveType? last := by
    rw [CallContext.variableType?, hfind]
    rfl
  rw [target, CallContext.resolve, hvariable]
  cases f.scope.resolveType? last with
  | none =>
    have hne : Confidence.unresolved ≠ Confidence.typedReceiver := by decide +kernel
    simp [hne]
  | some t => simp [CallContext.typed, String.append_assoc]

end FieldCall

/-- A call on a field of the enclosing object has the declared type of the field for its
target if and only if the last declaration of the name, by a field, a parameter or a variable
of the body, stands for the same type; so it does when they all have the same text. -/
theorem field_call_follows_last_declaration {f : ParsedFile} (c : FieldCall f) {declared : String}
    (hfield : DeclaresField f.source c.caller.type c.fieldName declared) :
    ∃ e, c.edge? = some e ∧ e ∈ f.outline.calls ∧
      ∀ t, f.scope.resolveType? declared = some t →
        ((e.callee = t.fqn ++ "." ++ c.methodName ∧ e.confidence = .ofDecimal false 7 (-1)) ↔
          (c.lastType?.bind f.scope.resolveType?).map ResolvedType.fqn = some t.fqn) ∧
        ((∀ text, (c.fieldName, text) ∈ c.declarations → text = declared) →
          e.callee = t.fqn ++ "." ++ c.methodName ∧ e.confidence = .ofDecimal false 7 (-1)) := by
  obtain ⟨last, hlast, hfind⟩ := c.find?_locals hfield
  refine ⟨_, c.edge?_eq, c.mem_calls c.edge?_eq, fun t ht => ?_⟩
  have hiff := c.target_iff hfind t.fqn
  simp only [hlast, Option.bind_some]
  refine ⟨hiff, fun hall => hiff.mpr ?_⟩
  rw [hall last (mem_of_lastValue? hlast), ht]
  rfl

namespace Sample

/-- The call in `class A{B x;void s(C x){this.x.m();}}`. -/
def fieldCall : Node :=
  .mk .methodInvocation none 24 34
    [.mk .fieldAccess (some .object) 24 30
        [.mk .thisReference (some .object) 24 28 [], .mk .token none 28 29 [],
          .mk .identifier (some .field) 29 30 []],
      .mk .token none 30 31 [], .mk .identifier (some .name) 31 32 [],
      .mk .arguments (some .arguments) 32 34 []]

def setter : Node :=
  .mk .methodDeclaration none 12 36
    [.mk .typeName (some .type) 12 16 [], .mk .identifier (some .name) 17 18 [],
      .mk .formalParameters (some .parameters) 18 23
        [.mk .formalParameter none 19 22
          [.mk .typeName (some .type) 19 20 [], .mk .identifier (some .name) 21 22 []]],
      .mk .block (some .body) 23 36 [.mk .statement none 24 35 [fieldCall]]]

def fieldOwner : Node :=
  .mk .classDeclaration none 0 37
    [.mk .token none 0 5 [], .mk .identifier (some .name) 6 7 [],
      .mk .classBody (some .body) 7 37
        [.mk .fieldDeclaration none 8 12
            [.mk .typeName (some .type) 8 9 [],
              .mk .variableDeclarator (some .declarator) 10 11
                [.mk .identifier (some .name) 10 11 []]],
          setter]]

def setting : ParsedFile where
  bytes := "class A{B x;void s(C x){this.x.m();}}".toUTF8.toList
  root := .mk .program none 0 37 [fieldOwner]
  fallback := ""

/-- The call on the field `x`, where the parameter `x` hides it. -/
def hiddenField : FieldCall setting where
  caller :=
    { path := ["A"]
      type := fieldOwner
      fields := visibleFields setting.source fieldOwner {}
      node := setter
      kind := .method
      name := "s"
      hasType := .top (.child List.mem_cons_self) rfl (by decide +kernel)
      isMember := ⟨_, rfl, List.mem_cons_of_mem _ List.mem_cons_self⟩
      isCallable := rfl
      isNamed := by decide +kernel }
  body := .mk .block (some .body) 23 36 [.mk .statement none 24 35 [fieldCall]]
  node := fieldCall
  object := .mk .fieldAccess (some .object) 24 30
    [.mk .thisReference (some .object) 24 28 [], .mk .token none 28 29 [],
      .mk .identifier (some .field) 29 30 []]
  this := .mk .thisReference (some .object) 24 28 []
  field := .mk .identifier (some .field) 29 30 []
  method := .mk .identifier (some .name) 31 32 []
  hasBody := rfl
  isInside := by simp [Node.preorder, Node.preorderAll, fieldCall]
  isCall := rfl
  hasObject := rfl
  isAccess := rfl
  hasThis := rfl
  isThis := rfl
  hasField := rfl
  hasMethod := rfl

theorem declaresField_setting : DeclaresField setting.source hiddenField.caller.type "x" "B" :=
  (mem_ownFields_iff setting.source).mp (by decide +kernel)

theorem fieldName_hiddenField : hiddenField.fieldName = "x" := by decide +kernel

end Sample

open Java.Sample in
/-- The parameter of type `C` decides, not the field of type `B`. -/
theorem hidden_field_follows_parameter :
    setting.scope.resolveType? "B" = some ⟨"B", false⟩ ∧ hiddenField.lastType? = some "C" ∧
      ∃ e, hiddenField.edge? = some e ∧ e ∈ setting.outline.calls ∧
        ((e.callee = "B" ++ "." ++ hiddenField.methodName ∧
            e.confidence = .ofDecimal false 7 (-1)) ↔
          (hiddenField.lastType?.bind setting.scope.resolveType?).map ResolvedType.fqn =
            some "B") := by
  have htype : setting.scope.resolveType? "B" = some ⟨"B", false⟩ := by decide +kernel
  have hfield : DeclaresField setting.source hiddenField.caller.type hiddenField.fieldName "B" :=
    fieldName_hiddenField ▸ declaresField_setting
  obtain ⟨e, he, hmem, hall⟩ := field_call_follows_last_declaration hiddenField hfield
  exact ⟨htype, by decide +kernel, e, he, hmem, (hall _ htype).1⟩

open Java.Sample in
/-- A field of type `B`, and still the call on it leads to `C`. -/
theorem hidden_field_misses_its_type :
    DeclaresField setting.source hiddenField.caller.type hiddenField.fieldName "B" ∧
      setting.scope.resolveType? "B" = some ⟨"B", false⟩ ∧
      (∀ e, hiddenField.edge? = some e → e.callee ≠ "B" ++ "." ++ hiddenField.methodName) ∧
      (outlineOfBytes setting.bytes "").calls.map CallEdge.callee = ["C.m"] := by
  have hedge : hiddenField.edge?.map CallEdge.callee = some "C.m" := by decide +kernel
  refine ⟨fieldName_hiddenField ▸ declaresField_setting, by decide +kernel, fun e he => ?_,
    by decide +kernel⟩
  have hcallee : e.callee = "C.m" := by simpa [he] using hedge
  rw [hcallee]
  decide +kernel

end CodeAtlas.Java
