import CodeAtlas.Proofs.Java.Knowledge

/-! # Internal and external targets

A name says whether it lies in a library's name space. The type of a call says the same as the
name of its target, except where the type was not found by its name: the file's own class, a
type it declares, or a type left to its package.
-/

namespace CodeAtlas.Java

/-- A target was found: the confidence is at least that of an imported name. -/
def ResolvedCall.IsFound (call : ResolvedCall) : Prop :=
  call.confidence = Confidence.sameClass ∨ call.confidence = Confidence.typedReceiver ∨
    call.confidence = Confidence.imported

instance (call : ResolvedCall) : Decidable call.IsFound := inferInstanceAs (Decidable (_ ∨ _))

/-- The type that a target belongs to: what stands before the last dot. -/
def ResolvedCall.typeName (call : ResolvedCall) : String :=
  String.ofList ((call.callee.toList.reverse.dropWhile (· != '.')).drop 1).reverse

theorem ResolvedCall.typeName_eq {call : ResolvedCall} {type method : String}
    (h : call.callee = type ++ "." ++ method) (hmethod : '.' ∉ method.toList) :
    call.typeName = type := by
  have hchars : call.callee.toList = type.toList ++ '.' :: method.toList := by
    rw [h]
    simp
  rw [typeName, hchars, Text.dropWhile_reverse_append hmethod]
  simp

/-! ## Name spaces -/

variable {path rest : String}

theorem wellKnownTypes_external :
    ∀ e ∈ wellKnownTypes, "java.".toList <+: e.2.toList := by
  decide +kernel

theorem isExternal_of_space {space fqn : String} (hspace : space ∈ externalNamespaces)
    (h : space.toList <+: fqn.toList) : isExternal fqn = true :=
  List.any_eq_true.mpr ⟨space, hspace, Text.beginsWith_eq_true_iff.mpr h⟩

theorem isExternal_append (h : isExternal path = true) (rest : String) :
    isExternal (path ++ rest) = true := by
  obtain ⟨space, hspace, hbegins⟩ := List.any_eq_true.mp h
  refine isExternal_of_space hspace ?_
  rw [String.toList_append]
  exact (Text.beginsWith_eq_true_iff.mp hbegins).trans (List.prefix_append _ _)

theorem isExternal_wellKnown {name : String} {t : ResolvedType} (h : wellKnown? name = some t)
    (rest : String) : t.isExternal = true ∧ isExternal (t.fqn ++ rest) = true := by
  obtain ⟨e, he, rfl⟩ := Option.map_eq_some_iff.mp h
  have hjava := wellKnownTypes_external e (List.mem_of_find?_eq_some he)
  have hspace : "java." ∈ externalNamespaces := by decide
  exact ⟨rfl, isExternal_append (isExternal_of_space hspace hjava) rest⟩

/-- The packages on the way to a library's name space end in names in lower case. -/
theorem lowercase_of_package :
    ∀ space ∈ externalNamespaces, ∀ front ∈ space.toList.inits,
      front ++ ['.'] ∈ space.toList.inits →
      (lastSegment (String.ofList front)).toList.head?.map Text.isLowercase = some true := by
  decide +kernel

/-- Inside a type, a name is in a library's name space only when the type is. -/
theorem isExternal_of_append
    (hpath : (lastSegment path).toList.head?.map Text.isLowercase ≠ some true)
    (h : isExternal (path ++ ("." ++ rest)) = true) : isExternal path = true := by
  obtain ⟨space, hspace, hbegins⟩ := List.any_eq_true.mp h
  have hprefix := Text.beginsWith_eq_true_iff.mp hbegins
  refine isExternal_of_space hspace ?_
  have hchars : (path ++ ("." ++ rest)).toList = (path.toList ++ ['.']) ++ rest.toList := by simp
  rw [hchars] at hprefix
  by_contra hlonger
  -- The name space is longer than the path, and so goes on with the dot behind it.
  have hinside : path.toList ++ ['.'] <+: space.toList := by
    refine List.prefix_of_prefix_length_le (List.prefix_append _ _) hprefix ?_
    by_contra hlength
    refine hlonger (List.prefix_of_prefix_length_le hprefix
      ((List.prefix_append path.toList ['.']).trans (List.prefix_append _ _)) ?_)
    simp only [List.length_append, List.length_singleton] at hlength
    omega
  apply hpath
  have hlower := lowercase_of_package space hspace path.toList
    (List.mem_inits _ _ |>.mpr ((List.prefix_append _ _).trans hinside))
    (List.mem_inits _ _ |>.mpr hinside)
  rwa [String.ofList_toList] at hlower

/-! ## Types -/

namespace FileScope

variable {scope : FileScope} {declared : String} {t : ResolvedType}

/-- Every import is bound to the last segment of its path. -/
def BindsLastSegments (scope : FileScope) : Prop :=
  ∀ name path, scope.imports.find? name = some path → lastSegment path = name

theorem bindsLastSegments_of_isEmpty (h : scope.imports = {}) : scope.BindsLastSegments := by
  intro name path hpath
  rw [h] at hpath
  cases hpath

theorem bindsLastSegments_addImport (h : scope.BindsLastSegments) (path : String) :
    (scope.addImport path).BindsLastSegments := by
  intro name path' hpath
  rw [addImport, Bindings.find?_insert] at hpath
  split at hpath
  · rename_i hname
    obtain rfl := Option.some.inj hpath
    exact hname
  · exact h name path' hpath

theorem bindsLastSegments_foldl_addImport (h : scope.BindsLastSegments) (paths : List String) :
    (paths.foldl addImport scope).BindsLastSegments := by
  induction paths generalizing scope with
  | nil => exact h
  | cons path paths ih => exact ih (bindsLastSegments_addImport h path)

/-- A type that is not found by its name: the file declares it, or it is left to the package
of the file. -/
structure TakesAsOwn (scope : FileScope) (declared : String) : Prop where
  isSome : (scope.resolveType? declared).isSome
  not_qualified : ¬IsQualified (baseTypeName declared)
  not_imported : scope.imports.find? (firstSegment (baseTypeName declared)) = none
  home : (scope.declared.find? (firstSegment (baseTypeName declared))).isSome ∨
    wellKnown? (firstSegment (baseTypeName declared)) = none

/-- What a name without dots stands for: an import, a type of the platform, or a type of the
file's own, which is never external. -/
theorem resolveSimple?_cases {name : String} (h : scope.resolveSimple? name = some t) :
    (∃ path, scope.imports.find? name = some path ∧ t = ⟨path, isExternal path⟩) ∨
      (scope.declared.find? name = none ∧ wellKnown? name = some t) ∨
      (scope.imports.find? name = none ∧
        ((scope.declared.find? name).isSome ∨ wellKnown? name = none) ∧ t.isExternal = false) := by
  unfold resolveSimple? importType? at h
  split at h
  · cases h
  cases himport : scope.imports.find? name with
  | some path =>
    rw [himport] at h
    exact .inl ⟨path, rfl, (Option.some.inj h).symm⟩
  | none =>
    simp only [himport, Option.map_none] at h
    cases hdeclared : scope.declared.find? name with
    | some fqn =>
      simp only [hdeclared] at h
      exact .inr (.inr ⟨rfl, .inl rfl, by rw [← Option.some.inj h]⟩)
    | none =>
      simp only [hdeclared] at h
      cases hknown : wellKnown? name with
      | some known =>
        simp only [hknown] at h
        exact .inr (.inl ⟨rfl, h⟩)
      | none =>
        simp only [hknown] at h
        exact .inr (.inr ⟨rfl, .inr rfl, by rw [← Option.some.inj h]⟩)

theorem head?_firstSegment {name : String} (h : firstSegment name ≠ "") :
    (firstSegment name).toList.head? = name.toList.head? := by
  have hsplit := congrArg String.toList (firstSegment_append_behindFirst name)
  rw [String.toList_append] at hsplit
  rw [← hsplit, List.head?_append_of_ne_nil _ (mt String.toList_eq_nil_iff.mp h)]

theorem isExternal_import {name : String} (hq : ¬IsQualified name)
    (hpath : lastSegment path = firstSegment name) :
    isExternal path = true ↔ isExternal (path ++ behindFirst name) = true := by
  refine ⟨fun h => isExternal_append h _, fun h => ?_⟩
  rcases behindFirst_cases name with ⟨-, hempty, -⟩ | ⟨hdot, rest, hrest⟩
  · rwa [hempty, String.append_empty] at h
  · rw [hrest] at h
    refine isExternal_of_append (fun hlower => hq ⟨hdot, ?_⟩) h
    rw [hpath] at hlower
    have hne : firstSegment name ≠ "" := by
      intro hempty
      rw [hempty] at hlower
      cases hlower
    rwa [head?_firstSegment hne] at hlower

/-- A type is external when its name is in a library's name space, unless it is the file's own. -/
theorem isExternal_iff (hscope : scope.BindsLastSegments)
    (h : scope.resolveType? declared = some t) :
    t.isExternal = true ↔ isExternal t.fqn = true ∧ ¬scope.TakesAsOwn declared := by
  have hsome : (scope.resolveType? declared).isSome := Option.isSome_of_eq_some h
  rw [resolveType?_eq] at h
  by_cases hq : IsQualified (baseTypeName declared)
  · rw [if_pos hq] at h
    have hown : ¬scope.TakesAsOwn declared := fun hown => hown.not_qualified hq
    rw [← Option.some.inj h, and_iff_left hown]
  rw [if_neg hq] at h
  obtain ⟨outer, houter, ht⟩ := Option.map_eq_some_iff.mp h
  rw [← ht]
  rcases resolveSimple?_cases houter with ⟨path, hpath, rfl⟩ | ⟨hdeclared, hknown⟩ |
    ⟨himport, hhome, hinternal⟩
  · -- The flag is that of the imported path, the name goes on behind it.
    have hown : ¬scope.TakesAsOwn declared := by
      intro hown
      rw [hown.not_imported] at hpath
      cases hpath
    rw [and_iff_left hown]
    exact isExternal_import hq (hscope _ _ hpath)
  · have hown : ¬scope.TakesAsOwn declared := by
      intro hown
      rcases hown.home with hhome | hhome
      · rw [hdeclared] at hhome
        cases hhome
      · rw [hknown] at hhome
        cases hhome
    obtain ⟨hexternal, hfqn⟩ := isExternal_wellKnown hknown (behindFirst (baseTypeName declared))
    rw [and_iff_left hown, hexternal]
    exact ⟨fun _ => hfqn, fun _ => rfl⟩
  · have hown : scope.TakesAsOwn declared := ⟨hsome, hq, himport, hhome⟩
    rw [hinternal]
    exact ⟨fun hfalse => absurd hfalse Bool.false_ne_true, fun hout => absurd hown hout.2⟩

end FileScope

/-! ## Calls -/

namespace CallContext

variable {ctx ctx' : CallContext} {receiver receiver' : Receiver} {method method' : String}

/-- A receiver of the file's own: the enclosing object, or one of a type that the file takes
for its own. -/
def FindsOwn (ctx : CallContext) : Receiver → Prop
  | .none | .this => True
  | .identifier name | .thisField name =>
    ∃ declared, ctx.locals.find? name = some declared ∧ ctx.scope.TakesAsOwn declared
  | .construct declared => ctx.scope.TakesAsOwn declared
  | _ => False

theorem grade_of_isFound : ∀ g ∈ Grade.all,
    g.confidence = Confidence.sameClass ∨ g.confidence = Confidence.typedReceiver ∨
      g.confidence = Confidence.imported →
    g ≠ .chained ∧ g ≠ .unresolved := by
  decide +kernel

theorem grade_resolve (h : (ctx.resolve receiver method).IsFound) :
    ctx.grade receiver ≠ .chained ∧ ctx.grade receiver ≠ .unresolved := by
  rw [ResolvedCall.IsFound, confidence_resolve] at h
  exact grade_of_isFound _ (Grade.mem_all _) h

/-- The target of a call is a method of a type, and the call is external when the name of the
type is in a library's name space, unless the receiver is of the file's own. -/
def Targets (ctx : CallContext) (receiver : Receiver) (method : String) (call : ResolvedCall) :
    Prop :=
  ∃ type, call.callee = type ++ "." ++ method ∧
    (call.callType = .external ↔ isExternal type = true ∧ ¬ctx.FindsOwn receiver)

theorem ofExternal_eq_external_iff {b : Bool} : CallType.ofExternal b = .external ↔ b = true := by
  cases b <;> decide

theorem targets_typed {t : ResolvedType} {declared : String}
    (hscope : ctx.scope.BindsLastSegments) (h : ctx.scope.resolveType? declared = some t)
    (hown : ctx.FindsOwn receiver ↔ ctx.scope.TakesAsOwn declared) :
    ctx.Targets receiver method (typed t method) := by
  refine ⟨t.fqn, rfl, ?_⟩
  rw [typed, ofExternal_eq_external_iff, hown]
  exact FileScope.isExternal_iff hscope h

theorem findsOwn_variable {name declared : String}
    (hlocal : ctx.locals.find? name = some declared) :
    (∃ text, ctx.locals.find? name = some text ∧ ctx.scope.TakesAsOwn text) ↔
      ctx.scope.TakesAsOwn declared := by
  simp [hlocal]

theorem targets_resolve (hscope : ctx.scope.BindsLastSegments)
    (h : (ctx.resolve receiver method).IsFound) :
    ctx.Targets receiver method (ctx.resolve receiver method) := by
  obtain ⟨hchained, hunresolved⟩ := grade_resolve h
  cases receiver with
  | none | this => exact ⟨ctx.owner, rfl, by simp [resolve, FindsOwn]⟩
  | super | expression text => exact absurd rfl hunresolved
  | chained root => exact absurd rfl hchained
  | construct declared =>
    simp only [grade] at hchained
    simp only [resolve]
    cases htype : ctx.scope.resolveType? declared with
    | none => simp [htype] at hchained
    | some t => exact targets_typed hscope htype Iff.rfl
  | thisField name =>
    simp only [grade] at hunresolved
    simp only [resolve]
    cases htype : ctx.variableType? name with
    | none => simp [htype] at hunresolved
    | some t =>
      rw [variableType?_eq] at htype
      obtain ⟨declared, hlocal, ht⟩ := Option.bind_eq_some_iff.mp htype
      exact targets_typed hscope ht (findsOwn_variable hlocal)
  | identifier name =>
    simp only [grade] at hunresolved
    simp only [resolve, resolveIdentifier]
    cases htype : ctx.variableType? name with
    | some t =>
      rw [variableType?_eq] at htype
      obtain ⟨declared, hlocal, ht⟩ := Option.bind_eq_some_iff.mp htype
      exact targets_typed hscope ht (findsOwn_variable hlocal)
    | none =>
      cases himport : ctx.scope.importType? name with
      | none => simp [htype, himport] at hunresolved
      | some t =>
        obtain ⟨path, -, rfl⟩ := Option.map_eq_some_iff.mp himport
        -- A variable of the name has a type that stands for nothing, or there is none.
        have hown : ¬ctx.FindsOwn (.identifier name) := by
          rintro ⟨declared, hlocal, hown⟩
          have hsome := hown.isSome
          rw [variableType?_eq, hlocal, Option.bind_some] at htype
          rw [htype] at hsome
          cases hsome
        refine ⟨path, rfl, ?_⟩
        rw [and_iff_left hown]
        exact ofExternal_eq_external_iff

/-- Two calls of one method get the same type unless its name is in a library's name space
and only one of the receivers is of the file's own. -/
theorem callType_eq_iff (hscope : ctx.scope.BindsLastSegments)
    (hscope' : ctx'.scope.BindsLastSegments) (hmethod : '.' ∉ method.toList)
    (hmethod' : '.' ∉ method'.toList) (h : (ctx.resolve receiver method).IsFound)
    (h' : (ctx'.resolve receiver' method').IsFound)
    (hcallee : (ctx.resolve receiver method).callee = (ctx'.resolve receiver' method').callee) :
    (ctx.resolve receiver method).callType = (ctx'.resolve receiver' method').callType ↔
      (isExternal (ctx.resolve receiver method).typeName = true →
        (ctx.FindsOwn receiver ↔ ctx'.FindsOwn receiver')) := by
  obtain ⟨type, hcall, htype⟩ := targets_resolve hscope h
  obtain ⟨type', hcall', htype'⟩ := targets_resolve hscope' h'
  have hname := ResolvedCall.typeName_eq hcall hmethod
  have hsame : type' = type := by
    rw [← hname, ← ResolvedCall.typeName_eq hcall' hmethod', ResolvedCall.typeName,
      ResolvedCall.typeName, hcallee]
  subst hsame
  rw [hname]
  have heq : (ctx.resolve receiver method).callType = (ctx'.resolve receiver' method').callType ↔
      ((ctx.resolve receiver method).callType = .external ↔
        (ctx'.resolve receiver' method').callType = .external) := by
    cases (ctx.resolve receiver method).callType <;>
      cases (ctx'.resolve receiver' method').callType <;> simp
  rw [heq, htype, htype', and_congr_right_iff]
  exact imp_congr_right fun _ => not_iff_not

namespace Sample

/-- A body of a class in a library's name space, with a variable of the class. -/
def libraryClass : CallContext where
  scope := { package := "org.apache.a", declared := ⟨[("X", "org.apache.a.X")]⟩ }
  owner := "org.apache.a.X"
  locals := ⟨[("o", "org.apache.a.X")]⟩

/-- A body in another file, which imports the class. -/
def importingClass : CallContext where
  scope := ["org.apache.a.X"].foldl FileScope.addImport { package := "b" }
  owner := "b.B"
  locals := {}

theorem libraryClass_bindsLastSegments : libraryClass.scope.BindsLastSegments :=
  FileScope.bindsLastSegments_of_isEmpty rfl

theorem importingClass_bindsLastSegments : importingClass.scope.BindsLastSegments :=
  FileScope.bindsLastSegments_foldl_addImport (FileScope.bindsLastSegments_of_isEmpty rfl) _

theorem not_findsOwn_libraryClass : ¬libraryClass.FindsOwn (.identifier "o") := by
  rintro ⟨declared, hlocal, hown⟩
  obtain rfl := Option.some.inj hlocal
  exact hown.not_qualified (by decide)

theorem not_findsOwn_importingClass : ¬importingClass.FindsOwn (.identifier "X") := by
  rintro ⟨declared, hlocal, -⟩
  cases hlocal

end Sample

theorem import_has_callType_of_variable :
    (Sample.importingClass.resolve (.identifier "X") "m").IsFound ∧
      (Sample.libraryClass.resolve (.identifier "o") "m").IsFound ∧
      (Sample.importingClass.resolve (.identifier "X") "m").callee =
        (Sample.libraryClass.resolve (.identifier "o") "m").callee ∧
      (Sample.importingClass.resolve (.identifier "X") "m").callType =
        (Sample.libraryClass.resolve (.identifier "o") "m").callType := by
  have hcalls : (Sample.importingClass.resolve (.identifier "X") "m").IsFound ∧
      (Sample.libraryClass.resolve (.identifier "o") "m").IsFound ∧
      (Sample.importingClass.resolve (.identifier "X") "m").callee =
        (Sample.libraryClass.resolve (.identifier "o") "m").callee := by
    decide +kernel
  obtain ⟨hfound, hfound', hcallee⟩ := hcalls
  have hmethod : '.' ∉ "m".toList := by decide
  refine ⟨hfound, hfound', hcallee, ?_⟩
  exact (callType_eq_iff Sample.importingClass_bindsLastSegments
    Sample.libraryClass_bindsLastSegments hmethod hmethod hfound hfound' hcallee).mpr fun _ =>
      iff_of_false Sample.not_findsOwn_importingClass Sample.not_findsOwn_libraryClass

/-- In a library's name space, a call within a class is internal, and a call on a variable of
the class is external, though both have the same target. -/
theorem own_method_has_two_callTypes :
    (Sample.libraryClass.resolve .none "m").IsFound ∧
      (Sample.libraryClass.resolve (.identifier "o") "m").IsFound ∧
      (Sample.libraryClass.resolve .none "m").callee =
        (Sample.libraryClass.resolve (.identifier "o") "m").callee ∧
      (Sample.libraryClass.resolve .none "m").callType ≠
        (Sample.libraryClass.resolve (.identifier "o") "m").callType := by
  decide +kernel

end CallContext

end CodeAtlas.Java
