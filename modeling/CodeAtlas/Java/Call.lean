import CodeAtlas.Java.Scope

/-! # Call targets

A call is attributed to a target by its receiver. The first rule that applies decides, and
each rule carries a fixed confidence.
-/

namespace CodeAtlas.Java

namespace Confidence

def sameClass : Binary64 := .ofDecimal false 8 (-1)

def typedReceiver : Binary64 := .ofDecimal false 7 (-1)

def imported : Binary64 := .ofDecimal false 6 (-1)

def unresolved : Binary64 := .ofDecimal false 4 (-1)

def chained : Binary64 := .ofDecimal false 2 (-1)

end Confidence

/-- What a method is called on. -/
inductive Receiver where
  /-- A call without a receiver. -/
  | none
  | this
  | super
  | identifier (name : String)
  /-- A field of the enclosing object. -/
  | thisField (name : String)
  /-- A new object, or a literal, of a type. -/
  | construct (type : String)
  /-- The result of a call, with the name that the chain starts with, if any. -/
  | chained (root : Option String)
  /-- Any other expression, as it is written. -/
  | expression (text : String)
  deriving Repr, DecidableEq, Inhabited

structure ResolvedCall where
  callee : String
  confidence : Binary64
  callType : CallType
  deriving Repr, DecidableEq, Inhabited

/-- What names mean inside one method body. -/
structure CallContext where
  scope : FileScope
  /-- The qualified name of the enclosing type. -/
  owner : String
  locals : Bindings
  deriving Repr, Inhabited

namespace CallContext

def variableType? (ctx : CallContext) (name : String) : Option ResolvedType :=
  match ctx.locals.find? name with
  | some declared => ctx.scope.resolveType? declared
  | Option.none => Option.none

/-- The call of a method on a receiver of a known type. -/
def typed (t : ResolvedType) (method : String) : ResolvedCall :=
  ⟨t.fqn ++ "." ++ method, Confidence.typedReceiver, .ofExternal t.isExternal⟩

def resolveIdentifier (ctx : CallContext) (name method : String) : ResolvedCall :=
  match ctx.variableType? name with
  | some t => typed t method
  | Option.none =>
    match ctx.scope.importType? name with
    | some t => ⟨t.fqn ++ "." ++ method, Confidence.imported, .ofExternal t.isExternal⟩
    | Option.none =>
      ⟨name ++ "." ++ method, Confidence.unresolved, .ofExternal (wellKnown? name).isSome⟩

/-- Whether a name at the root of a chain stands for something external. -/
def rootIsExternal (ctx : CallContext) (root : String) : Option Bool :=
  ((ctx.variableType? root).or (ctx.scope.importType? root)).map ResolvedType.isExternal

def resolve (ctx : CallContext) (receiver : Receiver) (method : String) : ResolvedCall :=
  match receiver with
  | .none | .this => ⟨ctx.owner ++ "." ++ method, Confidence.sameClass, .internal⟩
  | .super => ⟨"super." ++ method, Confidence.unresolved, .internal⟩
  | .identifier name => ctx.resolveIdentifier name method
  | .thisField name =>
    match ctx.variableType? name with
    | some t => typed t method
    | Option.none => ⟨"this." ++ name ++ "." ++ method, Confidence.unresolved, .internal⟩
  | .construct type =>
    match ctx.scope.resolveType? type with
    | some t => typed t method
    | Option.none => ⟨"?." ++ method, Confidence.chained, .internal⟩
  | .chained root =>
    match root with
    | some r =>
      ⟨r ++ ".?." ++ method, Confidence.chained, .ofExternal ((ctx.rootIsExternal r).getD false)⟩
    | Option.none => ⟨"?." ++ method, Confidence.chained, .internal⟩
  | .expression text =>
    let root := Text.trim (String.ofList (text.toList.takeWhile (· != '.')))
    let known := (ctx.rootIsExternal root).getD (wellKnown? root).isSome
    ⟨text ++ "." ++ method, Confidence.unresolved, .ofExternal known⟩

end CallContext

end CodeAtlas.Java
