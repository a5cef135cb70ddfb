import CodeAtlas.Java.Call
import CodeAtlas.Java.Tree

/-! # From parse trees to outlines

Every type, method, constructor and field of a parse tree becomes a symbol, annotations in
its modifiers become annotations, and the calls in the body of a method or constructor
become call edges. Initialisers, field values and the bodies of enum constants yield none.
-/

namespace CodeAtlas.Java

/-- The kind of symbol that a type declaration introduces. -/
def typeKind? : Kind → Option SymbolKind
  | .classDeclaration | .recordDeclaration => some .classType
  | .interfaceDeclaration | .annotationDeclaration => some .interfaceType
  | .enumDeclaration => some .enumType
  | _ => Option.none

def typeKeyword : Kind → String
  | .interfaceDeclaration => "interface"
  | .enumDeclaration => "enum"
  | .recordDeclaration => "record"
  | .annotationDeclaration => "@interface"
  | _ => "class"

def isTransparent : Kind → Bool
  | .enumBodyDeclarations | .error => true
  | _ => false

mutual

/-- The members among the children of a body, those inside transparent nodes included. -/
def membersOf : Node → List Node
  | .mk k r a b cs =>
    if isTransparent k then membersIn cs
    else if k.isNamed then [.mk k r a b cs]
    else []

def membersIn : List Node → List Node
  | [] => []
  | n :: ns => membersOf n ++ membersIn ns

end

/-- The signature put together from its parts, blank ones left out. -/
def joinParts (parts : List String) : String :=
  " ".intercalate ((parts.map Text.trim).filter fun p => !p.isEmpty)

section

variable (src : Source)

/-! ## Header -/

/-- The dotted name in a package or import declaration, without white space. -/
def dottedName? (children : List Node) : Option String :=
  (children.find? fun c => c.kind == .identifier || c.kind == .scopedIdentifier).map fun c =>
    Text.squeeze (c.text src)

def importOf? (n : Node) : Option Import :=
  (dottedName? src n.children).map fun path =>
    let isStatic := n.children.any fun c => c.kind == .token && c.text src == "static"
    let isWildcard := n.children.any fun c => c.kind == .asterisk
    ⟨path, if isWildcard then .wildcard else if isStatic then .static else .single⟩

def importsOf (root : Node) : List Import :=
  (root.named.filter fun c => c.kind == .importDeclaration).filterMap (importOf? src)

/-- The package that the last package declaration names, else the given one. -/
def packageOf (root : Node) (fallback : String) : String :=
  match (root.named.filter fun c => c.kind == .packageDeclaration).getLast? with
  | some n => (dottedName? src n.named).getD fallback
  | Option.none => fallback

def declaredName? (n : Node) : Option String := (n.child? .name).map (Node.text src)

/-! ## Declared types -/

/-- The scope that the members of a type are named in. -/
def scopeOf (package parent : String) : String := if parent.isEmpty then package else parent

mutual

/-- The types that a declaration declares, itself first, as simple and qualified names. -/
def declaredTypes (package parent : String) : Node → List (String × String)
  | .mk k r a b cs =>
    match declaredName? src (.mk k r a b cs) with
    | Option.none => []
    | some name =>
      let fqn := qualify (scopeOf package parent) name
      (name, fqn) :: declaredInBody package fqn cs

/-- The types declared in the first body among the children of a declaration. -/
def declaredInBody (package parent : String) : List Node → List (String × String)
  | [] => []
  | .mk _ r _ _ cs :: ns =>
    if r == some .body then declaredInMembers package parent cs
    else declaredInBody package parent ns

def declaredInMembers (package parent : String) : List Node → List (String × String)
  | [] => []
  | .mk k r a b cs :: ns =>
    (if isTransparent k then declaredInMembers package parent cs
      else if (typeKind? k).isSome then declaredTypes package parent (.mk k r a b cs)
      else []) ++ declaredInMembers package parent ns

end

mutual

/-- The types declared at the top level, also inside error nodes. -/
def declaredAtTop (package : String) : Node → List (String × String)
  | .mk k r a b cs =>
    if (typeKind? k).isSome then declaredTypes src package "" (.mk k r a b cs)
    else if k == .error then declaredAtTopIn package cs
    else []

def declaredAtTopIn (package : String) : List Node → List (String × String)
  | [] => []
  | n :: ns => declaredAtTop package n ++ declaredAtTopIn package ns

end

/-- What the header and the type declarations of a file say about names. The first type of
a name keeps it. -/
def fileScope (root : Node) (fallback : String) : FileScope :=
  let package := packageOf src root fallback
  let single := (importsOf src root).filter fun i => i.kind != .wildcard
  let scope : FileScope := single.foldl (fun s i => s.addImport i.path) { package := package }
  let types := declaredAtTopIn src package root.children
  { scope with declared := types.foldl (fun b e => b.insertNew e.1 e.2) {} }

/-! ## Modifiers and annotations -/

def modifierTexts (n : Node) : List String :=
  match n.childOfKind? .modifiers with
  | Option.none => []
  | some mods =>
    (mods.children.filter fun c => c.kind != .annotationUse && !c.kind.isComment).map
      (Node.text src)

mutual

/-- The text of an annotation value. Quotes around strings and characters are removed, the
values in braces are joined by commas, and anything else is kept as it is written. -/
def elementText : Node → String
  | .mk k r a b cs =>
    match k with
    | .stringLiteral =>
      let t := src.text a b
      Text.stripMark (if Text.beginsWith t "\"\"\"" then "\"\"\"" else "\"") t
    | .characterLiteral => Text.stripMark (String.ofList [Char.ofNat 39]) (src.text a b)
    | .elementArray => ",".intercalate (elementTexts cs)
    | _ => Text.collapse ((Node.mk k r a b cs).text src)

def elementTexts : List Node → List String
  | [] => []
  | .mk k r a b cs :: ns =>
    if k.isNamed && !k.isComment then elementText (.mk k r a b cs) :: elementTexts ns
    else elementTexts ns

end

/-- Set a parameter in a list sorted by name. -/
def setParam (params : List (String × String)) (key value : String) : List (String × String) :=
  match params with
  | [] => [(key, value)]
  | (k, v) :: rest =>
    if k == key then (key, value) :: rest
    else if key < k then (key, value) :: (k, v) :: rest
    else (k, v) :: setParam rest key value

/-- The name and text of an argument of an annotation; an argument without a name is the
value. -/
def argumentParam? (arg : Node) : Option (String × String) :=
  if arg.kind.isComment then Option.none
  else if arg.kind == .elementPair then
    match arg.child? .key, arg.child? .value with
    | some key, some value => some (key.text src, elementText src value)
    | _, _ => Option.none
  else some ("value", elementText src arg)

def annotationParams (n : Node) : List (String × String) :=
  match n.child? .arguments with
  | Option.none => []
  | some args =>
    (args.named.filterMap (argumentParam? src)).foldl (fun ps p => setParam ps p.1 p.2) []

/-- The annotations in the modifiers of a declaration. -/
def annotationsOf (n : Node) (fqn : String) (scope : AnnotationScope) : List Annotation :=
  match n.childOfKind? .modifiers with
  | Option.none => []
  | some mods =>
    (mods.named.filter fun c => c.kind == .annotationUse).filterMap fun c =>
      (c.child? .name).map fun name =>
        ⟨fqn, Text.squeeze (name.text src), scope, annotationParams src c⟩

/-! ## Variables -/

def textPair? (type name : Option Node) : Option (String × String) :=
  match type, name with
  | some t, some n => some (n.text src, t.text src)
  | _, _ => Option.none

/-- The name and type of a parameter. A spread parameter is an array. -/
def paramBinding? (p : Node) : Option (String × String) :=
  match p.kind with
  | .formalParameter => textPair? src (p.child? .type) (p.child? .name)
  | .spreadParameter =>
    let type := p.named.find? fun c => c.kind != .modifiers && c.kind != .variableDeclarator
    let name := (p.childOfKind? .variableDeclarator).bind fun d => d.child? .name
    (textPair? src type name).map fun e => (e.1, e.2 ++ "[]")
  | _ => Option.none

def paramBindings (params : Option Node) : List (String × String) :=
  match params with
  | some ps => ps.named.filterMap (paramBinding? src)
  | Option.none => []

def declaratorNames (n : Node) : List String :=
  (n.childrenOf .declarator).filterMap (declaredName? src)

def isFieldKind (k : Kind) : Bool := k == .fieldDeclaration || k == .constantDeclaration

def fieldBindings (member : Node) : List (String × String) :=
  if isFieldKind member.kind then
    match member.child? .type with
    | some t => (declaratorNames src member).map fun name => (name, t.text src)
    | Option.none => []
  else []

/-- The type that an untyped variable takes from the object created for it. -/
def inferredType? (declarator : Node) : Option String :=
  match declarator.child? .value with
  | some v =>
    if v.kind == .objectCreation then (v.child? .type).map (Node.text src) else Option.none
  | Option.none => Option.none

/-- The variables that a node of a method body declares. -/
def localBindings (n : Node) : List (String × String) :=
  match n.kind with
  | .localVariables =>
    match n.child? .type with
    | Option.none => []
    | some t =>
      let declared := t.text src
      (n.childrenOf .declarator).filterMap fun d =>
        (declaredName? src d).bind fun name =>
          if declared == "var" then (inferredType? src d).map fun t => (name, t)
          else some (name, declared)
  | .enhancedFor | .resource =>
    ((textPair? src (n.child? .type) (n.child? .name)).filter fun e => e.2 != "var").toList
  | .catchParameter =>
    let type := (n.childOfKind? .catchType).bind fun c => c.named.head?
    (textPair? src type (n.child? .name)).toList
  | _ => []

/-- The variables declared anywhere in a body, class bodies inside it left out. -/
def bodyBindings (body : Node) : List (String × String) :=
  (body.preorderOutside (· == .classBody)).flatMap (localBindings src)

/-! ## Calls -/

mutual

/-- The name that a chain of calls and field accesses starts with. -/
def chainRoot? : Node → Option String
  | .mk k r a b cs =>
    match k with
    | .methodInvocation | .fieldAccess => chainRootOf? cs
    | .identifier => some ((Node.mk k r a b cs).text src)
    | .thisReference => some "this"
    | _ => Option.none

/-- The root of the object among the children of a call or field access. -/
def chainRootOf? : List Node → Option String
  | [] => Option.none
  | .mk k r a b cs :: ns =>
    if r == some .object then chainRoot? (.mk k r a b cs) else chainRootOf? ns

end

mutual

/-- Whether a chain of field accesses leads to a call. -/
def leadsToCall : Node → Bool
  | .mk k _ _ _ cs =>
    match k with
    | .methodInvocation => true
    | .fieldAccess => objectLeadsToCall cs
    | _ => false

def objectLeadsToCall : List Node → Bool
  | [] => false
  | .mk k r a b cs :: ns =>
    if r == some .object then leadsToCall (.mk k r a b cs) else objectLeadsToCall ns

end

def fieldReceiver (n : Node) : Receiver :=
  match n.child? .object, n.child? .field with
  | some object, some field =>
    if object.kind == .thisReference then .thisField (field.text src)
    else if leadsToCall n then .chained (chainRoot? src n)
    else .expression (Text.collapse (n.text src))
  | _, _ =>
    if leadsToCall n then .chained (chainRoot? src n)
    else .expression (Text.collapse (n.text src))

mutual

/-- The receiver that an expression is. Parentheses stand for the first thing in them. -/
def receiverOf : Node → Receiver
  | .mk k r a b cs =>
    match k with
    | .thisReference => .this
    | .superReference => .super
    | .identifier => .identifier (src.text a b)
    | .fieldAccess => fieldReceiver src (.mk k r a b cs)
    | .methodInvocation => .chained (chainRoot? src (.mk k r a b cs))
    | .objectCreation =>
      match (Node.mk k r a b cs).child? .type with
      | some t => .construct (t.text src)
      | Option.none => .chained Option.none
    | .stringLiteral => .construct "String"
    | .parenthesized => firstReceiver cs
    | _ => .chained Option.none

def firstReceiver : List Node → Receiver
  | [] => .chained Option.none
  | n :: ns => if n.kind.isNamed then receiverOf n else firstReceiver ns

end

def callEdge? (ctx : CallContext) (caller : String) (n : Node) : Option CallEdge :=
  if n.kind == .methodInvocation then
    (n.child? .name).map fun name =>
      let receiver :=
        match n.child? .object with
        | some object => receiverOf src object
        | Option.none => .none
      let target := ctx.resolve receiver (name.text src)
      ⟨caller, target.callee, target.callType, name.line src, target.confidence⟩
  else Option.none

/-- The edges of all calls in a body, an outer call before those inside it. -/
def bodyCalls (ctx : CallContext) (caller : String) (body : Node) : List CallEdge :=
  body.preorder.filterMap (callEdge? src ctx caller)

/-! ## Declarations -/

/-- What declarations are read with: the file's lines and names. -/
structure FileFacts where
  lines : Nat
  scope : FileScope

/-- The collapsed text of a child, when there is one. -/
def childText (child : Option Node) : String :=
  ((child.map (Node.text src)).map Text.collapse).getD ""

/-- The lines of a declaration. It ends no later than the file. -/
def spanOf (facts : FileFacts) (n : Node) : Nat × Nat :=
  let first := src.row n.start + 1
  let last := src.row n.stop + 1
  (first, min (max last first) (max facts.lines first))

def declare (facts : FileFacts) (n : Node) (fqn name : String) (kind : SymbolKind)
    (signature parent : String) (modifiers : List String) : Outline :=
  let (first, last) := spanOf src facts n
  { symbols := [⟨fqn, name, kind, first, last, signature, parent, .ofModifiers modifiers⟩]
    annotations := annotationsOf src n fqn (.ofSymbol kind) }

def fieldOutline (facts : FileFacts) (owner : String) (n : Node) : Outline :=
  let modifiers := modifierTexts src n
  let type := childText src (n.child? .type)
  (declaratorNames src n).foldl
    (fun out name =>
      out ++ declare src facts n (qualify owner name) name .field
        (joinParts [" ".intercalate modifiers, type, name]) owner modifiers)
    {}

def enumConstantOutline (facts : FileFacts) (owner : String) (n : Node) : Outline :=
  match declaredName? src n with
  | some name => declare src facts n (qualify owner name) name .field name owner ["public"]
  | Option.none => {}

def callableSignature (n : Node) (name : String) (modifiers : List String) : String :=
  let params :=
    match n.child? .parameters with
    | some ps => Text.collapse (ps.text src)
    | Option.none => "()"
  joinParts [" ".intercalate modifiers, childText src (n.childOfKind? .typeParameters),
    childText src (n.child? .type), name ++ params, childText src (n.childOfKind? .throws)]

/-- A method or constructor with its calls. Parameters shadow fields, and local variables
shadow both. -/
def callableOutline (facts : FileFacts) (owner : String) (fields : Bindings) (kind : SymbolKind)
    (n : Node) : Outline :=
  match declaredName? src n with
  | Option.none => {}
  | some name =>
    let fqn := qualify owner (if kind == .constructor then "<init>" else name)
    let modifiers := modifierTexts src n
    let out := declare src facts n fqn name kind (callableSignature src n name modifiers) owner
      modifiers
    match n.child? .body with
    | Option.none => out
    | some body =>
      let locals := (fields.insertAll (paramBindings src (n.child? .parameters))).insertAll
        (bodyBindings src body)
      { out with calls := bodyCalls src ⟨facts.scope, owner, locals⟩ fqn body }

def typeSignature (n : Node) (name : String) (modifiers : List String) : String :=
  joinParts
    ([" ".intercalate modifiers, typeKeyword n.kind, name]
      ++ ([Kind.typeParameters, .formalParameters, .superclass, .superInterfaces,
          .extendsInterfaces].map fun k => childText src (n.childOfKind? k)))

/-- The fields that the bodies of a type see: those of the enclosing types, then the
components of a record, then its own. -/
def visibleFields (n : Node) (outer : Bindings) : Bindings :=
  let own :=
    match n.child? .body with
    | some body => (membersIn body.children).flatMap (fieldBindings src)
    | Option.none => []
  (outer.insertAll (paramBindings src (n.child? .parameters))).insertAll own

def memberOutline (facts : FileFacts) (owner : String) (fields : Bindings) (n : Node) : Outline :=
  match n.kind with
  | .fieldDeclaration | .constantDeclaration => fieldOutline src facts owner n
  | .methodDeclaration | .annotationElement => callableOutline src facts owner fields .method n
  | .constructorDeclaration | .compactConstructor =>
    callableOutline src facts owner fields .constructor n
  | .enumConstant => enumConstantOutline src facts owner n
  | _ => {}

mutual

def typeOutline (facts : FileFacts) (parent : String) (outer : Bindings) (kind : SymbolKind) :
    Node → Outline
  | .mk k r a b cs =>
    let n := Node.mk k r a b cs
    match declaredName? src n with
    | Option.none => {}
    | some name =>
      let fqn := qualify (scopeOf facts.scope.package parent) name
      let modifiers := modifierTexts src n
      declare src facts n fqn name kind (typeSignature src n name modifiers) parent modifiers
        ++ bodyOutline facts fqn (visibleFields src n outer) cs

def bodyOutline (facts : FileFacts) (owner : String) (fields : Bindings) : List Node → Outline
  | [] => {}
  | .mk _ r _ _ cs :: ns =>
    if r == some .body then membersOutline facts owner fields cs
    else bodyOutline facts owner fields ns

def membersOutline (facts : FileFacts) (owner : String) (fields : Bindings) :
    List Node → Outline
  | [] => {}
  | .mk k r a b cs :: ns =>
    (if isTransparent k then membersOutline facts owner fields cs
      else
        match typeKind? k with
        | some kind => typeOutline facts owner fields kind (.mk k r a b cs)
        | Option.none => memberOutline src facts owner fields (.mk k r a b cs))
      ++ membersOutline facts owner fields ns

end

mutual

/-- The types at the top level, also inside error nodes. -/
def topOutline (facts : FileFacts) : Node → Outline
  | .mk k r a b cs =>
    match typeKind? k with
    | some kind => typeOutline src facts "" {} kind (.mk k r a b cs)
    | Option.none => if k == .error then topOutlines facts cs else {}

def topOutlines (facts : FileFacts) : List Node → Outline
  | [] => {}
  | n :: ns => topOutline facts n ++ topOutlines facts ns

end

end

/-- The outline of a parse tree over the bytes of a file. -/
def outlineOf (bytes : List UInt8) (root : Node) (fallback : String) : Outline :=
  let src := Source.ofBytes bytes
  let facts : FileFacts := ⟨Text.lineCount bytes, fileScope src root fallback⟩
  { topOutlines src facts root.children with imports := importsOf src root }

end CodeAtlas.Java
