import CodeAtlas.Proofs.Java.Declarations

/-! # The types that a file knows as its own

A file is read twice: first for the types that it declares, so that names can be looked up
among them, and then for its outline. Both readings come to the same types in the same order,
whatever the parse tree looks like. The name of a type therefore leads to the first type
symbol of the outline with this name, and to nothing where there is none.
-/

namespace CodeAtlas

/-! ## Types in outlines -/

namespace Outline

/-- The types of an outline, in order, as simple and qualified names. -/
def typeNames (o : Outline) : List (String × String) :=
  (o.symbols.filter fun s => s.kind.isType).map fun s => (s.name, s.fqn)

/-- The first type of an outline with a simple name. -/
def typeNamed? (o : Outline) (name : String) : Option Symbol :=
  o.symbols.find? fun s => s.kind.isType && s.name == name

theorem typeNames_append (a b : Outline) : (a ++ b).typeNames = a.typeNames ++ b.typeNames := by
  change ((a.symbols ++ b.symbols).filter _).map _ = _
  rw [List.filter_append, List.map_append]
  rfl

theorem typeNames_eq_nil {o : Outline} (h : ∀ s ∈ o.symbols, s.kind.isType = false) :
    o.typeNames = [] := by
  rw [typeNames, List.map_eq_nil_iff, List.filter_eq_nil_iff]
  intro s hs
  simp [h s hs]

theorem find?_typeNames (o : Outline) (name : String) :
    (o.typeNames.find? fun e => e.1 == name).map Prod.snd =
      (o.typeNamed? name).map Symbol.fqn := by
  rw [typeNames, typeNamed?, List.find?_map, List.find?_filter, Option.map_map]
  simp only [Function.comp_def, Bool.decide_and, Bool.decide_eq_true]

end Outline

namespace Java

open Outline

/-! ## One reading and the other -/

section

variable (src : Source) (facts : FileFacts)

theorem typeNames_declare {kind : SymbolKind} (hkind : kind.isType = true) (n : Node)
    (fqn name signature parent : String) (modifiers : List String) :
    (declare src facts n fqn name kind signature parent modifiers).typeNames = [(name, fqn)] := by
  simp [typeNames, declare, hkind]

theorem isType_of_callableKind? {k : Kind} {kind : SymbolKind} (h : callableKind? k = some kind) :
    kind.isType = false := by
  cases k <;> simp [callableKind?] at h <;> subst h <;> rfl

theorem typeNames_memberOutline (owner : String) (fields : Bindings) (n : Node) :
    (memberOutline src facts owner fields n).typeNames = [] := by
  apply typeNames_eq_nil
  intro s hs
  rcases memberOutline_cases src facts owner fields n with
    ⟨_, h⟩ | ⟨_, h⟩ | ⟨kind, hkind, h⟩ | h
  · rw [h, fieldOutline_eq_join, symbols_join, List.flatMap_map, List.mem_flatMap] at hs
    obtain ⟨name, _, hs⟩ := hs
    obtain rfl := List.mem_singleton.mp hs
    rfl
  · rw [h, enumConstantOutline] at hs
    split at hs
    · obtain rfl := List.mem_singleton.mp hs
      rfl
    · simp at hs
  · rw [h] at hs
    cases hname : declaredName? src n with
    | none => simp [callableOutline, hname] at hs
    | some name =>
      rw [callableOutline_of_name hname] at hs
      obtain rfl := List.mem_singleton.mp hs
      exact isType_of_callableKind? hkind
  · simp [h] at hs

mutual

theorem typeNames_typeOutline (parent : String) (outer : Bindings) {kind : SymbolKind}
    (hkind : kind.isType = true) : ∀ n : Node,
    (typeOutline src facts parent outer kind n).typeNames =
      declaredTypes src facts.scope.package parent n
  | .mk k r a b cs => by
    rw [typeOutline, declaredTypes]
    cases declaredName? src (.mk k r a b cs) with
    | none => rfl
    | some name =>
      simp only
      rw [typeNames_append, typeNames_declare src facts hkind, typeNames_bodyOutline]
      rfl

theorem typeNames_bodyOutline (owner : String) (fields : Bindings) : ∀ ns : List Node,
    (bodyOutline src facts owner fields ns).typeNames =
      declaredInBody src facts.scope.package owner ns
  | [] => by
    rw [bodyOutline, declaredInBody]
    rfl
  | .mk _ r _ _ cs :: ns => by
    rw [bodyOutline, declaredInBody]
    split
    · exact typeNames_membersOutline owner fields cs
    · exact typeNames_bodyOutline owner fields ns

theorem typeNames_membersOutline (owner : String) (fields : Bindings) : ∀ ns : List Node,
    (membersOutline src facts owner fields ns).typeNames =
      declaredInMembers src facts.scope.package owner ns
  | [] => by
    rw [membersOutline, declaredInMembers]
    rfl
  | .mk k r a b cs :: ns => by
    rw [membersOutline, declaredInMembers, typeNames_append,
      typeNames_membersOutline owner fields ns]
    congr 1
    split
    · exact typeNames_membersOutline owner fields cs
    · cases hkind : typeKind? k with
      | none => exact typeNames_memberOutline src facts owner fields _
      | some kind => exact typeNames_typeOutline owner fields (isType_of_typeKind? hkind) _

end

mutual

theorem typeNames_topOutline : ∀ n : Node,
    (topOutline src facts n).typeNames = declaredAtTop src facts.scope.package n
  | .mk k r a b cs => by
    rw [topOutline, declaredAtTop]
    cases hkind : typeKind? k with
    | none =>
      simp only [Option.isSome_none, Bool.false_eq_true, if_false]
      split
      · exact typeNames_topOutlines cs
      · rfl
    | some kind => exact typeNames_typeOutline src facts "" {} (isType_of_typeKind? hkind) _

theorem typeNames_topOutlines : ∀ ns : List Node,
    (topOutlines src facts ns).typeNames = declaredAtTopIn src facts.scope.package ns
  | [] => by
    rw [topOutlines, declaredAtTopIn]
    rfl
  | n :: ns => by
    rw [topOutlines, declaredAtTopIn, typeNames_append, typeNames_topOutline n,
      typeNames_topOutlines ns]

end

end

/-! ## Looking a type up -/

namespace Bindings

theorem find?_insertNew (b : Bindings) (name value key : String) :
    (b.insertNew name value).find? key =
      (b.find? key).or (if name = key then some value else none) := by
  unfold insertNew
  by_cases hkey : name = key
  · subst hkey
    cases hfind : b.find? name with
    | none => simp [find?_insert]
    | some known => simp [hfind]
  · cases hfind : b.find? name with
    | none => simp [find?_insert, hkey]
    | some known => simp [hkey]

/-- Where the first binding of a name is kept, it is the one that is found. -/
theorem find?_foldl_insertNew (entries : List (String × String)) (b : Bindings) (key : String) :
    (entries.foldl (fun b e => b.insertNew e.1 e.2) b).find? key =
      (b.find? key).or ((entries.find? fun e => e.1 == key).map Prod.snd) := by
  induction entries generalizing b with
  | nil => simp
  | cons e entries ih =>
    rw [List.foldl_cons, ih, find?_insertNew, Option.or_assoc, List.find?_cons]
    by_cases hkey : e.1 = key
    · simp [hkey]
    · have hne : (e.1 == key) = false := by simpa using hkey
      simp [hkey, hne]

end Bindings

theorem find?_declared (bytes : List UInt8) (root : Node) (fallback name : String) :
    (fileScope (Source.ofBytes bytes) root fallback).declared.find? name =
      ((outlineOf bytes root fallback).typeNamed? name).map Symbol.fqn := by
  have htypes := typeNames_topOutlines (Source.ofBytes bytes)
    ⟨Text.lineCount bytes, fileScope (Source.ofBytes bytes) root fallback⟩ root.children
  rw [fileScope_package] at htypes
  calc (fileScope (Source.ofBytes bytes) root fallback).declared.find? name
      = ((declaredAtTopIn (Source.ofBytes bytes)
          (packageOf (Source.ofBytes bytes) root fallback) root.children).find?
            fun e => e.1 == name).map Prod.snd := Bindings.find?_foldl_insertNew _ {} name
    _ = ((outlineOf bytes root fallback).typeNames.find? fun e => e.1 == name).map Prod.snd := by
        rw [← htypes]
        rfl
    _ = _ := find?_typeNames _ name

theorem baseTypeName_of_isPlain {name : String} (h : IsPlain name) : baseTypeName name = name := by
  have happend : baseTypeName (name ++ "") = name :=
    baseTypeName_append (fun c hc => ⟨(h c hc).1, (h c hc).2.2⟩) (by decide)
  rwa [String.append_empty] at happend

/-- A name that is not imported and stands for a type stands for that of the file. -/
theorem resolveType?_declared {scope : FileScope} {name fqn : String} (hplain : IsPlain name)
    (hword : name ∉ "" :: "var" :: primitiveTypes) (himport : scope.imports.find? name = none)
    (hdeclared : scope.declared.find? name = some fqn) :
    scope.resolveType? name = some ⟨fqn, false⟩ := by
  have hdots : name.toList.dropWhile (· != '.') = [] := by
    rw [List.dropWhile_eq_nil_iff]
    intro c hc
    simpa using (hplain c hc).2.1
  have hreserved : ¬(name.isEmpty || name == "var" || primitiveTypes.contains name) = true := by
    simpa [or_assoc] using hword
  simp only [FileScope.resolveType?, baseTypeName_of_isPlain hplain, hdots]
  rw [FileScope.resolveSimple?, if_neg hreserved]
  simp [FileScope.importType?, himport, hdeclared]

/-- The types that a file knows as its own are those of its outline: a name leads to the
first of this name and to nothing where there is none. So a name of one of them that is not
imported, and is no word of its own, stands for a type of the same outline. -/
theorem declared_types_are_first_symbols (bytes : List UInt8) (root : Node) (fallback : String) :
    (∀ name, (fileScope (Source.ofBytes bytes) root fallback).declared.find? name =
      ((outlineOf bytes root fallback).symbols.find? fun s =>
        s.kind.isType && s.name == name).map Symbol.fqn) ∧
    ∀ name, IsPlain name → name ∉ "" :: "var" :: primitiveTypes →
      (fileScope (Source.ofBytes bytes) root fallback).imports.find? name = none →
      (fileScope (Source.ofBytes bytes) root fallback).declared.find? name ≠ none →
      ∃ s ∈ (outlineOf bytes root fallback).symbols, s.kind.isType = true ∧ s.name = name ∧
        (fileScope (Source.ofBytes bytes) root fallback).resolveType? name =
          some ⟨s.fqn, false⟩ := by
  refine ⟨find?_declared bytes root fallback, ?_⟩
  intro name hplain hword himport hdeclared
  obtain ⟨fqn, hfqn⟩ := Option.ne_none_iff_exists'.mp hdeclared
  have hfirst := find?_declared bytes root fallback name
  rw [hfqn] at hfirst
  obtain ⟨s, hs, rfl⟩ := Option.map_eq_some_iff.mp hfirst.symm
  have hname := List.find?_some hs
  rw [Bool.and_eq_true, beq_iff_eq] at hname
  exact ⟨s, List.mem_of_find?_eq_some hs, hname.1, hname.2,
    resolveType?_declared hplain hword himport hfqn⟩

/-- The file `class A{enum B{}}class B{}`, read with an error node around the second `B`. -/
def doubled : ParsedFile where
  bytes := "class A{enum B{}}class B{}".toUTF8.toList
  root := .mk .program none 0 26
    [.mk .classDeclaration none 0 17
      [.mk .token none 0 5 [], .mk .identifier (some .name) 6 7 [],
        .mk .classBody (some .body) 7 17
          [.mk .enumDeclaration none 8 16
            [.mk .token none 8 12 [], .mk .identifier (some .name) 13 14 [],
              .mk .enumBody (some .body) 14 16 []]]],
      .mk .error none 17 26
        [.mk .classDeclaration none 17 26
          [.mk .token none 17 22 [], .mk .identifier (some .name) 23 24 [],
            .mk .classBody (some .body) 24 26 []]]]
  fallback := "p"

/-- Of two types of one name, the inner one stands first. -/
theorem inner_type_keeps_name :
    doubled.scope.declared.find? "B" = some "p.A.B" ∧
      ∃ s ∈ doubled.outline.symbols, s.kind.isType = true ∧ s.name = "B" ∧
        doubled.scope.resolveType? "B" = some ⟨s.fqn, false⟩ := by
  have hdeclared : doubled.scope.declared.find? "B" = some "p.A.B" := by decide +kernel
  refine ⟨hdeclared, (declared_types_are_first_symbols _ _ _).2 "B" (by decide) (by decide)
    (by decide +kernel) ?_⟩
  exact Option.ne_none_iff_exists'.mpr ⟨_, hdeclared⟩

end Java

end CodeAtlas
