import CodeAtlas.Proofs.Java.Naming
import CodeAtlas.Proofs.Text.Parts
import Mathlib.Data.List.Induction
import Mathlib.Data.List.TakeWhile
import Mathlib.Data.String.Basic

/-! # Names of types, written and resolved

A type inside other types is written as the names on the way to it, with dots between them,
and is declared under the same names, one type after the other. What a file makes of the
written name agrees with what the declaring file called the type, whatever type arguments
and brackets follow.
-/

namespace CodeAtlas

namespace Text

/-! ## Letter case -/

/-- Whether all members of a stepped range are even, or all are odd. -/
def keepsParity (r : Nat × Nat × Nat) : Bool := r.2.2 == 2 || r.1 == r.2.1

/-- Whether two stepped ranges lie beside each other, or the one is of even and the other of
odd members. -/
def areApart (r s : Nat × Nat × Nat) : Bool :=
  r.2.1.blt s.1 || s.2.1.blt r.1
    || (keepsParity r && keepsParity s && (r.1 + s.1) % 2 == 1)

theorem parity_of_inStep {r : Nat × Nat × Nat} {n : Nat} (hr : keepsParity r = true)
    (h : inStep r.1 r.2.1 r.2.2 n = true) : n % 2 = r.1 % 2 := by
  obtain ⟨lo, hi, step⟩ := r
  simp only [keepsParity, Bool.or_eq_true, beq_iff_eq] at hr
  simp only [inStep, Bool.and_eq_true, decide_eq_true_eq, beq_iff_eq] at h
  rcases hr with rfl | rfl
  · omega
  · omega

theorem not_inStep_of_areApart {r s : Nat × Nat × Nat} {n : Nat} (h : areApart r s = true)
    (hr : inStep r.1 r.2.1 r.2.2 n = true) : inStep s.1 s.2.1 s.2.2 n = false := by
  by_contra hs
  rw [Bool.not_eq_false] at hs
  simp only [areApart, Bool.or_eq_true, Bool.and_eq_true, Nat.blt_eq, beq_iff_eq] at h
  have hn := hr
  have hm := hs
  simp only [inStep, Bool.and_eq_true, decide_eq_true_eq] at hn hm
  rcases h with (h | h) | ⟨⟨hpr, hps⟩, h⟩
  · omega
  · omega
  · have hr' := parity_of_inStep hpr hr
    have hs' := parity_of_inStep hps hs
    omega

theorem uppercase_apart_lowercase :
    (uppercaseRanges.toList.all fun r => lowercaseRanges.toList.all fun s => areApart r s) =
      true := by
  decide +kernel

theorem isLowercase_eq_false {c : Char} (h : isUppercase c = true) : isLowercase c = false := by
  unfold isUppercase at h
  unfold isLowercase
  split at h
  · rename_i hc
    rw [if_pos hc]
    delta Char.isUpper at h
    delta Char.isLower
    grind
  · rename_i hc
    rw [if_neg hc]
    simp only [inSteps, ← Array.any_toList, List.any_eq_true, List.any_eq_false] at h ⊢
    obtain ⟨r, hr, hn⟩ := h
    intro s hs
    have hall := uppercase_apart_lowercase
    simp only [List.all_eq_true] at hall
    rw [not_inStep_of_areApart (hall r hr s hs) hn]
    exact Bool.false_ne_true

/-! ## Stripping and splitting -/

variable {p : Char → Bool} {word : List Char}

theorem dropWhile_of_forall (h : ∀ c ∈ word, p c = false) : word.dropWhile p = word := by
  cases word with
  | nil => rfl
  | cons c word => simp [h c List.mem_cons_self]

theorem stripBoth_append {blanks : List Char} (h : ∀ c ∈ word, p c = false)
    (hb : ∀ c ∈ blanks, p c = true) : stripBoth p (word ++ blanks) = word := by
  have hreverse : word.reverse.dropWhile p = word.reverse :=
    dropWhile_of_forall fun c hc => h c (List.mem_reverse.mp hc)
  cases word with
  | nil => simp [stripBoth, List.dropWhile_eq_nil_iff.mpr hb]
  | cons c word =>
    rw [stripBoth, List.cons_append, List.dropWhile_cons_of_neg (by simp [h c List.mem_cons_self]),
      ← List.cons_append, List.reverse_append,
      List.dropWhile_append_of_pos fun d hd => hb d (List.mem_reverse.mp hd), hreverse,
      List.reverse_reverse]

end Text

namespace Java

/-! ## Types inside types -/

/-- A name that can be told apart inside the text of a type, as every identifier can. -/
def IsPlain (name : String) : Prop :=
  ∀ c ∈ name.toList, Text.isBlank c = false ∧ c ≠ '.' ∧ c ≠ '<' ∧ c ≠ '['

instance (name : String) : Decidable (IsPlain name) :=
  List.decidableBAll (fun c => Text.isBlank c = false ∧ c ≠ '.' ∧ c ≠ '<' ∧ c ≠ '[') name.toList

/-- A type as it is written: the names on the way to it, with dots between them. -/
def writtenName (path : List String) : String := ".".intercalate path

/-- A type as it is declared, each type under the one around it. -/
def declaredFqn (package : String) (path : List String) : String :=
  path.foldl (fun parent name => qualify (scopeOf package parent) name) ""

variable {package outer : String} {names : List String}

theorem toList_writtenName (outer : String) (names : List String) :
    (writtenName (outer :: names)).toList =
      outer.toList ++ names.flatMap fun n => '.' :: n.toList := by
  induction names generalizing outer with
  | nil => simp [writtenName]
  | cons n names ih =>
    rw [writtenName, String.intercalate_cons_of_ne_nil (by simp), ← writtenName,
      String.toList_append, ih]
    simp

theorem writtenName_concat (outer : String) (names : List String) (name : String) :
    writtenName (outer :: names ++ [name]) = writtenName (outer :: names) ++ "." ++ name := by
  rw [writtenName, String.intercalate_append_of_ne_nil (by simp) (by simp),
    String.intercalate_singleton, ← writtenName]

theorem writtenName_ne_empty (h : outer ≠ "") (names : List String) :
    writtenName (outer :: names) ≠ "" := by
  intro he
  have hl := congrArg String.toList he
  rw [toList_writtenName] at hl
  exact h (String.toList_eq_nil_iff.mp (List.append_eq_nil_iff.mp hl).1)

theorem qualify_append (package outer rest : String) :
    qualify package (outer ++ rest) = qualify package outer ++ rest := by
  unfold qualify
  split
  · rfl
  · simp only [String.append_assoc]

theorem declaredFqn_concat (package : String) (path : List String) (name : String) :
    declaredFqn package (path ++ [name]) =
      qualify (scopeOf package (declaredFqn package path)) name := by
  rw [declaredFqn, List.foldl_append]
  rfl

theorem declaredFqn_eq (h : outer ≠ "") (names : List String) :
    declaredFqn package (outer :: names) = qualify package (writtenName (outer :: names)) := by
  induction names using List.reverseRecOn with
  | nil =>
    rw [writtenName, String.intercalate_singleton]
    rfl
  | append_singleton names name ih =>
    have hne : ¬(qualify package (writtenName (outer :: names))).isEmpty = true := by
      simp [qualify_eq_empty_iff, writtenName_ne_empty h]
    rw [← List.cons_append, declaredFqn_concat, ih, scopeOf, if_neg hne, qualify, if_neg hne,
      writtenName_concat, String.append_assoc, String.append_assoc, qualify_append]

/-! ## The text of a type -/

/-- What can follow a name in the text of a type: type arguments or brackets, after any
white space. -/
def IsTypeSuffix (suffix : String) : Prop :=
  ∀ c ∈ (suffix.toList.dropWhile Text.isBlank).head?, c = '<' ∨ c = '['

instance (suffix : String) : Decidable (IsTypeSuffix suffix) :=
  Option.decidableForallMem (suffix.toList.dropWhile Text.isBlank).head?

/-- The text before type arguments and brackets is the name and the white space after it. -/
theorem takeWhile_append_suffix {name : List Char} {suffix : String}
    (h : ∀ c ∈ name, c ≠ '<' ∧ c ≠ '[') (hsuffix : IsTypeSuffix suffix) :
    ((name ++ suffix.toList).takeWhile fun c => c != '<' && c != '[') =
      name ++ suffix.toList.takeWhile Text.isBlank := by
  have hname : ∀ c ∈ name, (c != '<' && c != '[') = true := by
    intro c hc
    simp [h c hc]
  have hblanks : ∀ c ∈ suffix.toList.takeWhile Text.isBlank, (c != '<' && c != '[') = true := by
    intro c hc
    have hblank := List.mem_takeWhile_imp hc
    have hlt : c ≠ '<' := by
      rintro rfl
      simp [Text.isBlank] at hblank
    have hbracket : c ≠ '[' := by
      rintro rfl
      simp [Text.isBlank] at hblank
    simp [hlt, hbracket]
  have hrest : ((suffix.toList.dropWhile Text.isBlank).takeWhile fun c => c != '<' && c != '[') =
      [] := by
    cases hs : suffix.toList.dropWhile Text.isBlank with
    | nil => rfl
    | cons c rest =>
      have hc := hsuffix c (by simp [hs])
      rcases hc with rfl | rfl <;> simp
  rw [List.takeWhile_append_of_pos hname,
    ← List.takeWhile_append_dropWhile (p := Text.isBlank) (l := suffix.toList),
    List.takeWhile_append_of_pos hblanks, hrest, List.append_nil,
    List.takeWhile_append_dropWhile]

theorem baseTypeName_append {name suffix : String}
    (h : ∀ c ∈ name.toList, Text.isBlank c = false ∧ c ≠ '<' ∧ c ≠ '[')
    (hsuffix : IsTypeSuffix suffix) : baseTypeName (name ++ suffix) = name := by
  rw [baseTypeName, String.toList_append,
    takeWhile_append_suffix (fun c hc => (h c hc).2) hsuffix,
    Text.stripBoth_append (fun c hc => (h c hc).1) fun c hc => List.mem_takeWhile_imp hc,
    Text.splitBy_of_forall fun c hc => (h c hc).1]
  simp

theorem baseTypeName_writtenName {suffix : String} (houter : IsPlain outer)
    (hnames : ∀ n ∈ names, IsPlain n) (hsuffix : IsTypeSuffix suffix) :
    baseTypeName (writtenName (outer :: names) ++ suffix) = writtenName (outer :: names) := by
  apply baseTypeName_append _ hsuffix
  intro c hc
  rw [toList_writtenName, List.mem_append, List.mem_flatMap] at hc
  rcases hc with hc | ⟨n, hn, hc⟩
  · obtain ⟨hblank, _, hlt, hbracket⟩ := houter c hc
    exact ⟨hblank, hlt, hbracket⟩
  · rcases List.mem_cons.mp hc with rfl | hc
    · decide
    · obtain ⟨hblank, _, hlt, hbracket⟩ := hnames n hn c hc
      exact ⟨hblank, hlt, hbracket⟩

/-! ## The first segment -/

def firstSegment (name : String) : String := (Text.pieces '.' name).headD ""

/-- What follows the first segment, with the dot in front. -/
def behindFirst (name : String) : String := String.ofList (name.toList.dropWhile (· != '.'))

/-- A dotted name that starts in lower case, and so with a package. -/
def IsQualified (name : String) : Prop :=
  '.' ∈ name.toList ∧ name.toList.head?.map Text.isLowercase = some true

instance (name : String) : Decidable (IsQualified name) :=
  inferInstanceAs (Decidable (_ ∧ _))

theorem firstSegment_eq (name : String) :
    firstSegment name = String.ofList (name.toList.takeWhile (· != '.')) := by
  have hhead := Text.headD_splitBy (· == '.') name.toList
  unfold firstSegment Text.pieces
  cases hs : Text.splitBy (· == '.') name.toList with
  | nil => exact absurd hs (Text.splitBy_ne_nil _ _)
  | cons w ws =>
    rw [hs] at hhead
    exact congrArg String.ofList hhead

theorem toList_behindFirst (name : String) :
    (behindFirst name).toList = name.toList.dropWhile (· != '.') := String.toList_ofList

theorem firstSegment_append_behindFirst (name : String) :
    firstSegment name ++ behindFirst name = name := by
  apply String.toList_injective
  rw [firstSegment_eq, String.toList_append, toList_behindFirst, String.toList_ofList,
    List.takeWhile_append_dropWhile]

theorem behindFirst_cases (name : String) :
    ('.' ∉ name.toList ∧ behindFirst name = "" ∧ firstSegment name = name) ∨
      ('.' ∈ name.toList ∧ ∃ rest, behindFirst name = "." ++ rest) := by
  by_cases h : '.' ∈ name.toList
  · refine .inr ⟨h, ?_⟩
    cases hrest : name.toList.dropWhile (· != '.') with
    | nil =>
      have hall := List.dropWhile_eq_nil_iff.mp hrest '.' h
      simp at hall
    | cons c rest =>
      have hc : c = '.' := by
        have hhead := List.head?_dropWhile_not (· != '.') name.toList
        rw [hrest] at hhead
        simpa using hhead
      refine ⟨String.ofList rest, String.toList_injective ?_⟩
      rw [toList_behindFirst, hrest, hc]
      simp
  · have hempty : behindFirst name = "" := by
      apply String.toList_injective
      rw [toList_behindFirst, List.dropWhile_eq_nil_iff.mpr]
      · rfl
      · intro c hc
        simpa using fun he : c = '.' => h (he ▸ hc)
    refine .inl ⟨h, hempty, ?_⟩
    have happend := firstSegment_append_behindFirst name
    rwa [hempty, String.append_empty] at happend

/-! ## Resolution -/

/-- Whether a text starts with a letter in upper case. -/
def IsCapital (name : String) : Prop := name.toList.head?.map Text.isUppercase = some true

instance (name : String) : Decidable (IsCapital name) :=
  inferInstanceAs (Decidable (_ = some true))

theorem IsCapital.head_not_lowercase {name : String} (h : IsCapital name) :
    name.toList.head?.map Text.isLowercase = some false := by
  obtain ⟨c, hc, hupper⟩ := Option.map_eq_some_iff.mp h
  rw [hc, Option.map_some, Text.isLowercase_eq_false hupper]

theorem IsCapital.ne_empty {name : String} (h : IsCapital name) : name ≠ "" := by
  rintro rfl
  simp [IsCapital] at h

theorem not_isCapital : ∀ word ∈ "" :: "var" :: primitiveTypes, ¬IsCapital word := by
  decide

/-- The text of a type with names inside another, taken apart at the first dot. -/
theorem toList_writtenName_cons (outer name : String) (names : List String) :
    (writtenName (outer :: name :: names)).toList =
      outer.toList ++ '.' :: (writtenName (name :: names)).toList := by
  simp [toList_writtenName]

namespace FileScope

/-- A name leads to the type of a package: by an import, or because the file is in the
package and nothing else it knows goes by the name. -/
def Reaches (scope : FileScope) (package name : String) : Prop :=
  scope.imports.find? name = some (qualify package name) ∨
    (scope.package = package ∧ scope.imports.find? name = none ∧
      scope.declared.find? name = none ∧ wellKnown? name = none)

instance (scope : FileScope) (package name : String) : Decidable (scope.Reaches package name) :=
  inferInstanceAs (Decidable (_ ∨ _))

variable {scope : FileScope}

/-- A type that is not qualified yet is resolved by the first segment of its base name. -/
theorem resolveType?_eq (scope : FileScope) (declared : String) :
    scope.resolveType? declared =
      if IsQualified (baseTypeName declared) then
        some ⟨baseTypeName declared, isExternal (baseTypeName declared)⟩
      else
        (scope.resolveSimple? (firstSegment (baseTypeName declared))).map fun outer =>
          ⟨outer.fqn ++ behindFirst (baseTypeName declared), outer.isExternal⟩ := by
  simp only [resolveType?]
  rcases behindFirst_cases (baseTypeName declared) with
    ⟨hdot, hbehind, hfirst⟩ | ⟨hdot, rest, hrest⟩
  · have hq : ¬IsQualified (baseTypeName declared) := fun hq => hdot hq.1
    rw [← toList_behindFirst, hbehind, if_neg hq, hfirst]
    simp
  · have hq : IsQualified (baseTypeName declared) ↔
        ((((baseTypeName declared).toList.takeWhile (· != '.')).head?.map Text.isLowercase) ==
          some true) = true := by
      rw [IsQualified, and_iff_right hdot, beq_iff_eq]
      cases (baseTypeName declared).toList with
      | nil => simp
      | cons c cs =>
        by_cases hc : c = '.'
        · have hlower : Text.isLowercase '.' = false := by decide
          simp [hc, hlower]
        · simp [hc]
    have hchars : ("." ++ rest).toList = '.' :: rest.toList := by simp
    simp only [← toList_behindFirst, hrest, hchars, if_congr hq rfl rfl, ← firstSegment_eq,
      String.ofList_toList, String.append_assoc]

theorem resolveSimple?_of_reaches {name : String} (hcapital : IsCapital name)
    (h : scope.Reaches package name) :
    (scope.resolveSimple? name).map ResolvedType.fqn = some (qualify package name) := by
  have hword : ¬(name.isEmpty || name == "var" || primitiveTypes.contains name) = true := by
    intro hword
    apply not_isCapital name _ hcapital
    simpa [or_assoc] using hword
  rw [resolveSimple?, if_neg hword]
  rcases h with h | ⟨rfl, himport, hdeclared, hknown⟩
  · simp [importType?, h]
  · simp [importType?, himport, hdeclared, hknown]

theorem resolveType?_writtenName {suffix : String} (hcapital : IsCapital outer)
    (houter : IsPlain outer) (hnames : ∀ n ∈ names, IsPlain n) (hsuffix : IsTypeSuffix suffix)
    (h : scope.Reaches package outer) :
    (scope.resolveType? (writtenName (outer :: names) ++ suffix)).map ResolvedType.fqn =
      some (declaredFqn package (outer :: names)) := by
  have hsimple := resolveSimple?_of_reaches hcapital h
  have hdots : ∀ c ∈ outer.toList, (c != '.') = true := by
    intro c hc
    simp [(houter c hc).2.1]
  rw [declaredFqn_eq hcapital.ne_empty, resolveType?,
    baseTypeName_writtenName houter hnames hsuffix]
  cases names with
  | nil =>
    rw [writtenName, String.intercalate_singleton]
    simp only [List.dropWhile_eq_nil_iff.mpr hdots]
    exact hsimple
  | cons name names =>
    have hwritten : writtenName (outer :: name :: names) =
        outer ++ ("." ++ writtenName (name :: names)) := by
      apply String.toList_injective
      simp [toList_writtenName_cons]
    rw [toList_writtenName_cons, hwritten, qualify_append]
    obtain ⟨t, ht, hfqn⟩ := Option.map_eq_some_iff.mp hsimple
    simp only [List.dropWhile_append_of_pos hdots, List.takeWhile_append_of_pos hdots]
    simp [hcapital.head_not_lowercase, ht, hfqn, String.append_assoc]

end FileScope

end Java

end CodeAtlas
