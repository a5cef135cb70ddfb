import CodeAtlas.Proofs.Java.Resolution

/-! # What more knowledge does to a call

A file may come to know one more import, and a body the type of one more variable. Where the
name is new, a call on any receiver is trusted as much as before or more. Where the call has
nothing to do with the name, its target stays the same altogether.
-/

namespace CodeAtlas.Java

/-- Something to know in a body: an import of its file, or the declared type of a variable. -/
inductive Finding where
  | importOf (path : String)
  | binding (name declared : String)
  deriving Repr, DecidableEq

def Finding.name : Finding → String
  | .importOf path => lastSegment path
  | .binding name _ => name

/-- The name that a receiver is, or that it starts with. -/
def Receiver.root? : Receiver → Option String
  | .identifier name | .thisField name => some name
  | .chained root => root
  | .expression text => some (Text.trim (firstSegment text))
  | _ => Option.none

/-! ## Types -/

namespace FileScope

variable {scope : FileScope} {path : String}

theorem importType?_addImport {name : String} (h : name ≠ lastSegment path) :
    (scope.addImport path).importType? name = scope.importType? name := by
  rw [importType?, addImport, Bindings.find?_insert, if_neg (Ne.symm h), importType?]

theorem resolveSimple?_addImport {name : String} (h : name ≠ lastSegment path) :
    (scope.addImport path).resolveSimple? name = scope.resolveSimple? name := by
  simp only [resolveSimple?, importType?_addImport h]
  rfl

/-- An import matters to a type by the first segment of its base name only. -/
theorem resolveType?_addImport {declared : String}
    (h : firstSegment (baseTypeName declared) ≠ lastSegment path) :
    (scope.addImport path).resolveType? declared = scope.resolveType? declared := by
  rw [resolveType?_eq, resolveType?_eq, resolveSimple?_addImport h]

theorem isSome_resolveSimple? (scope : FileScope) (name : String) :
    (scope.resolveSimple? name).isSome =
      !(name.isEmpty || name == "var" || primitiveTypes.contains name) := by
  unfold resolveSimple?
  cases name.isEmpty || name == "var" || primitiveTypes.contains name with
  | true => rfl
  | false =>
    cases scope.importType? name with
    | some t => rfl
    | none =>
      cases scope.declared.find? name with
      | some fqn => rfl
      | none => cases wellKnown? name <;> rfl

theorem isSome_resolveType? (scope scope' : FileScope) (declared : String) :
    (scope.resolveType? declared).isSome = (scope'.resolveType? declared).isSome := by
  rw [resolveType?_eq, resolveType?_eq]
  split
  · rfl
  · rw [Option.isSome_map, Option.isSome_map, isSome_resolveSimple?, isSome_resolveSimple?]

end FileScope

/-! ## Calls -/

namespace CallContext

variable {ctx ctx' : CallContext} {f : Finding} {receiver : Receiver}

def learn (ctx : CallContext) : Finding → CallContext
  | .importOf path => { ctx with scope := ctx.scope.addImport path }
  | .binding name declared => { ctx with locals := ctx.locals.insert name declared }

/-- The name of a finding is not bound yet: among the imports, or among the variables. -/
def Lacks (ctx : CallContext) : Finding → Prop
  | .importOf path => ctx.scope.imports.find? (lastSegment path) = none
  | .binding name _ => ctx.locals.find? name = none

/-- The type texts that a receiver is looked up by. -/
inductive HasType (ctx : CallContext) : Receiver → String → Prop where
  | variable {receiver : Receiver} {name declared : String} (hroot : receiver.root? = some name)
      (hlocal : ctx.locals.find? name = some declared) : HasType ctx receiver declared
  | construct {declared : String} : HasType ctx (.construct declared) declared

/-- A finding that may matter to a receiver: its name is the receiver's or its root, or it
is an import of the first segment of a type that the receiver is looked up by. -/
inductive Concerns (ctx : CallContext) : Finding → Receiver → Prop where
  | root {f : Finding} {receiver : Receiver} (h : receiver.root? = some f.name) :
      Concerns ctx f receiver
  | type {path declared : String} {receiver : Receiver} (h : ctx.HasType receiver declared)
      (hname : firstSegment (baseTypeName declared) = lastSegment path) :
      Concerns ctx (.importOf path) receiver

theorem variableType?_eq (ctx : CallContext) (name : String) :
    ctx.variableType? name = (ctx.locals.find? name).bind ctx.scope.resolveType? := by
  rw [variableType?]
  cases hlocal : ctx.locals.find? name with
  | none => rfl
  | some declared => simp only [Option.bind_some]

theorem resolve_congr (howner : ctx'.owner = ctx.owner)
    (hvariable : ∀ name, receiver.root? = some name →
      ctx'.variableType? name = ctx.variableType? name)
    (himport : ∀ name, receiver.root? = some name →
      ctx'.scope.importType? name = ctx.scope.importType? name)
    (htype : ∀ declared, receiver = .construct declared →
      ctx'.scope.resolveType? declared = ctx.scope.resolveType? declared) (method : String) :
    ctx'.resolve receiver method = ctx.resolve receiver method := by
  cases receiver with
  | none | this => simp only [resolve, howner]
  | super => rfl
  | identifier name =>
    simp only [resolve, resolveIdentifier, hvariable name rfl, himport name rfl]
  | thisField name => simp only [resolve, hvariable name rfl]
  | construct declared => simp only [resolve, htype declared rfl]
  | chained root =>
    cases root with
    | none => rfl
    | some name => simp only [resolve, rootIsExternal, hvariable name rfl, himport name rfl]
  | expression text =>
    have hroot : Text.trim (String.ofList (text.toList.takeWhile (· != '.'))) =
        Text.trim (firstSegment text) := by rw [firstSegment_eq]
    simp only [resolve, hroot, rootIsExternal, hvariable _ rfl, himport _ rfl]

theorem resolve_learn (h : ¬ctx.Concerns f receiver) (method : String) :
    (ctx.learn f).resolve receiver method = ctx.resolve receiver method := by
  cases f with
  | importOf path =>
    have htype : ∀ declared, ctx.HasType receiver declared →
        (ctx.scope.addImport path).resolveType? declared = ctx.scope.resolveType? declared :=
      fun declared hd => FileScope.resolveType?_addImport fun hname => h (.type hd hname)
    refine resolve_congr ?_ ?_ ?_ ?_ method
    · rfl
    · intro name hroot
      simp only [variableType?_eq, learn]
      exact Option.bind_congr fun declared hd => htype declared (.variable hroot hd)
    · intro name hroot
      exact FileScope.importType?_addImport fun hname =>
        h (.root (hroot.trans (congrArg some hname)))
    · rintro declared rfl
      exact htype declared .construct
  | binding name declared =>
    refine resolve_congr ?_ ?_ ?_ ?_ method
    · rfl
    · intro root hroot
      have hne : name ≠ root := fun hname => h (.root (hname ▸ hroot))
      simp only [variableType?_eq, learn, Bindings.find?_insert, if_neg hne]
    · exact fun _ _ => rfl
    · exact fun _ _ => rfl

theorem isSome_variableType?_learn (h : ctx.Lacks f) {name : String}
    (hs : (ctx.variableType? name).isSome) : ((ctx.learn f).variableType? name).isSome := by
  rw [variableType?_eq] at hs ⊢
  cases f with
  | importOf path =>
    cases hd : ctx.locals.find? name with
    | none => simp [hd] at hs
    | some declared =>
      rw [hd, Option.bind_some] at hs
      simp only [learn, hd, Option.bind_some]
      rw [FileScope.isSome_resolveType? _ ctx.scope]
      exact hs
  | binding key declared =>
    have hne : key ≠ name := by
      rintro rfl
      have hnone : ctx.locals.find? key = none := h
      simp [hnone] at hs
    simpa only [learn, Bindings.find?_insert, if_neg hne] using hs

theorem isSome_importType?_learn (f : Finding) {name : String}
    (hs : (ctx.scope.importType? name).isSome) :
    ((ctx.learn f).scope.importType? name).isSome := by
  cases f with
  | importOf path =>
    by_cases hname : lastSegment path = name
    · simp [learn, FileScope.importType?, FileScope.addImport, Bindings.find?_insert, hname]
    · rw [learn, FileScope.importType?_addImport (Ne.symm hname)]
      exact hs
  | binding key declared => exact hs

/-! ## Confidence -/

/-- What the receiver of a call was found to be, from the least trusted on. -/
inductive Grade where
  | chained
  | unresolved
  | imported
  | typedReceiver
  | sameClass
  deriving Repr, DecidableEq

namespace Grade

def all : List Grade := [.chained, .unresolved, .imported, .typedReceiver, .sameClass]

theorem mem_all : ∀ g : Grade, g ∈ all := by
  intro g
  cases g <;> decide

def rank : Grade → Nat
  | .chained => 0
  | .unresolved => 1
  | .imported => 2
  | .typedReceiver => 3
  | .sameClass => 4

def confidence : Grade → Binary64
  | .chained => Confidence.chained
  | .unresolved => Confidence.unresolved
  | .imported => Confidence.imported
  | .typedReceiver => Confidence.typedReceiver
  | .sameClass => Confidence.sameClass

theorem le_confidence_of_mem_all : ∀ g ∈ all, ∀ g' ∈ all, g.rank ≤ g'.rank →
    Binary64.le g.confidence g'.confidence = true := by
  decide +kernel

theorem le_confidence {g g' : Grade} (h : g.rank ≤ g'.rank) :
    Binary64.le g.confidence g'.confidence = true :=
  le_confidence_of_mem_all g g.mem_all g' g'.mem_all h

end Grade

def grade (ctx : CallContext) : Receiver → Grade
  | .none | .this => .sameClass
  | .super | .expression _ => .unresolved
  | .chained _ => .chained
  | .identifier name =>
    if (ctx.variableType? name).isSome then .typedReceiver
    else if (ctx.scope.importType? name).isSome then .imported
    else .unresolved
  | .thisField name => if (ctx.variableType? name).isSome then .typedReceiver else .unresolved
  | .construct declared =>
    if (ctx.scope.resolveType? declared).isSome then .typedReceiver else .chained

theorem confidence_resolve (ctx : CallContext) (receiver : Receiver) (method : String) :
    (ctx.resolve receiver method).confidence = (ctx.grade receiver).confidence := by
  cases receiver with
  | none | this | super | expression text => simp only [resolve, grade, Grade.confidence]
  | chained root => cases root <;> simp only [resolve, grade, Grade.confidence]
  | identifier name =>
    simp only [resolve, resolveIdentifier, grade]
    cases ctx.variableType? name with
    | some t => simp only [typed, Option.isSome_some, if_true, Grade.confidence]
    | none => cases ctx.scope.importType? name <;> simp [Grade.confidence]
  | thisField name =>
    simp only [resolve, grade]
    cases ctx.variableType? name <;> simp [typed, Grade.confidence]
  | construct declared =>
    simp only [resolve, grade]
    cases ctx.scope.resolveType? declared <;> simp [typed, Grade.confidence]

theorem rank_grade_learn (h : ctx.Lacks f) (receiver : Receiver) :
    (ctx.grade receiver).rank ≤ ((ctx.learn f).grade receiver).rank := by
  cases receiver with
  | none | this | super | chained root | expression text => exact le_rfl
  | identifier name =>
    simp only [grade]
    -- A variable comes before an import, so an import alone may gain the type of a variable.
    by_cases hv : (ctx.variableType? name).isSome
    · rw [if_pos hv, if_pos (isSome_variableType?_learn h hv)]
    · rw [if_neg hv]
      by_cases hi : (ctx.scope.importType? name).isSome
      · rw [if_pos hi, if_pos (isSome_importType?_learn f hi)]
        split <;> decide
      · rw [if_neg hi]
        split
        · decide
        · split <;> decide
  | thisField name =>
    simp only [grade]
    by_cases hv : (ctx.variableType? name).isSome
    · rw [if_pos hv, if_pos (isSome_variableType?_learn h hv)]
    · rw [if_neg hv]
      split <;> decide
  | construct declared =>
    -- Whether the type of a new object is known does not depend on the file.
    simp only [grade, FileScope.isSome_resolveType? (ctx.learn f).scope ctx.scope]
    exact le_rfl

/-- An import of a new name or the type of a new variable never lowers the confidence of a
call, and it leaves the target of a call as it is unless it concerns the receiver. -/
theorem learning_keeps_calls (ctx : CallContext) (f : Finding) (hnew : ctx.Lacks f)
    (receiver : Receiver) (method : String) :
    Binary64.le (ctx.resolve receiver method).confidence
        ((ctx.learn f).resolve receiver method).confidence = true ∧
      (¬ctx.Concerns f receiver →
        (ctx.learn f).resolve receiver method = ctx.resolve receiver method) := by
  refine ⟨?_, fun h => resolve_learn h method⟩
  rw [confidence_resolve, confidence_resolve]
  exact Grade.le_confidence (rank_grade_learn hnew receiver)

namespace Sample

/-- A body with one variable, in a file without imports. -/
def clockContext : CallContext where
  scope := { package := "a" }
  owner := "a.A"
  locals := ⟨[("clock", "Clock")]⟩

theorem lacks_dates : clockContext.Lacks (.importOf "p.Dates") := by
  rw [Lacks]
  rfl

theorem not_concerns_clock :
    ¬clockContext.Concerns (.importOf "p.Dates") (.identifier "clock") := by
  rintro (h | ⟨⟨hroot, hlocal⟩, hname⟩)
  · exact absurd h (by decide)
  · obtain rfl := Option.some.inj hroot
    obtain rfl := Option.some.inj hlocal
    exact absurd hname (by decide)

end Sample

theorem learning_keeps_calls_dates :
    Sample.clockContext.Lacks (.importOf "p.Dates") ∧
      Binary64.le (Sample.clockContext.resolve (.identifier "Dates") "now").confidence
          ((Sample.clockContext.learn (.importOf "p.Dates")).resolve
            (.identifier "Dates") "now").confidence = true ∧
      (Sample.clockContext.learn (.importOf "p.Dates")).resolve (.identifier "clock") "now" =
        Sample.clockContext.resolve (.identifier "clock") "now" :=
  ⟨Sample.lacks_dates, (learning_keeps_calls _ _ Sample.lacks_dates _ _).1,
    (learning_keeps_calls _ _ Sample.lacks_dates _ _).2 Sample.not_concerns_clock⟩

end CallContext

end CodeAtlas.Java
