import CodeAtlas.Proofs.Java.Declarations
import CodeAtlas.Proofs.Java.Literals
import Mathlib.Data.List.Forall2

/-! # The text of annotation arguments

An annotation keeps one text for each name that an argument of it has: the contents of a
literal, the texts of the values in an array with commas between them, and anything else as it
is written. Escapes stay as they are. The text of an argument falls short of the contents of
its literals exactly where one of these ends in its own quote.
-/

namespace CodeAtlas.Java

theorem length_intercalate_comma (vs : List String) :
    (",".intercalate vs).length = (vs.flatMap String.toList).length + (vs.length - 1) := by
  induction vs with
  | nil => rfl
  | cons v vs ih =>
    by_cases hvs : vs = []
    · subst hvs
      simp [String.length_toList]
    · have hpos := List.length_pos_iff.mpr hvs
      have hcomma : ",".length = 1 := rfl
      rw [String.intercalate_cons_of_ne_nil hvs, String.length_append, String.length_append, ih,
        hcomma, List.flatMap_cons, List.length_append, String.length_toList, List.length_cons]
      omega

section Values

variable (src : Source)

/-- A string, a text block or a character literal with its contents. -/
structure Literal (n : Node) (d : Delimiter) (c : List Char) : Prop where
  hasKind : n.kind = d.kind
  isWritten : (n.text src).toList = d.around c
  hasContents : Contents d c

def elementsOf (n : Node) : List Node := n.named.filter fun c => !c.kind.isComment

/-- What a value comes to when the contents of the literals in it are read in some way. -/
inductive Denotes (read : Delimiter → List Char → List Char) : Node → String → Prop
  | literal {n : Node} {d : Delimiter} {c : List Char} : Literal src n d c →
      Denotes read n (String.ofList (read d c))
  | array {n : Node} {vs : List String} : n.kind = .elementArray →
      List.Forall₂ (Denotes read) (elementsOf n) vs → Denotes read n (",".intercalate vs)
  | other {n : Node} : n.kind ∉ [Kind.stringLiteral, .characterLiteral, .elementArray] →
      Denotes read n (Text.collapse (n.text src))

/-- A value is in an array, or in an array that is in it, and so on; or it is the value. -/
inductive Holds : Node → Node → Prop
  | self (n : Node) : Holds n n
  | element {n c m : Node} : n.kind = .elementArray → c ∈ elementsOf n → Holds c m → Holds n m

def EndsInQuote (n : Node) : Prop :=
  ∃ m d c, Holds n m ∧ Literal src m d c ∧ d.chars <:+ c

variable {src} {read : Delimiter → List Char → List Char} {n : Node} {v : String}

theorem Denotes.elim {motive : Node → String → Prop}
    (literal : ∀ {n d c}, Literal src n d c → motive n (String.ofList (read d c)))
    (array : ∀ {n vs}, n.kind = .elementArray → List.Forall₂ motive (elementsOf n) vs →
      motive n (",".intercalate vs))
    (other : ∀ {n : Node}, n.kind ∉ [Kind.stringLiteral, .characterLiteral, .elementArray] →
      motive n (Text.collapse (n.text src)))
    (h : Denotes src read n v) : motive n v :=
  @Denotes.rec src read (fun n v _ => motive n v) (fun ns vs _ => List.Forall₂ motive ns vs)
    literal (fun hkind _ => array hkind) other .nil (fun _ _ => .cons) n v h

/-! ## How a value is kept -/

theorem elementTexts_eq (src : Source) (cs : List Node) :
    elementTexts src cs =
      ((cs.filter Node.isNamed).filter fun c => !c.kind.isComment).map (elementText src) := by
  induction cs with
  | nil => rfl
  | cons c cs ih =>
    obtain ⟨k, r, a, b, cs'⟩ := c
    rw [elementTexts, ih]
    cases hk : k.isNamed <;> cases hc : k.isComment <;>
      simp [Node.isNamed, Node.kind, hk, hc]

theorem elementText_of_array (src : Source) (h : n.kind = .elementArray) :
    elementText src n = ",".intercalate ((elementsOf n).map (elementText src)) := by
  obtain ⟨k, r, a, b, cs⟩ := n
  obtain rfl : k = .elementArray := h
  rw [elementText, elementTexts_eq]
  rfl

theorem elementText_of_other (src : Source)
    (h : n.kind ∉ [Kind.stringLiteral, .characterLiteral, .elementArray]) :
    elementText src n = Text.collapse (n.text src) := by
  obtain ⟨k, r, a, b, cs⟩ := n
  simp only [Node.kind, List.mem_cons, List.not_mem_nil, or_false, not_or] at h
  rw [elementText] <;> first | rfl | simp_all

theorem elementText_of_string (src : Source) (h : n.kind = .stringLiteral) :
    elementText src n = Text.stripMark
      (if Text.beginsWith (n.text src) "\"\"\"" then "\"\"\"" else "\"") (n.text src) := by
  obtain ⟨k, r, a, b, cs⟩ := n
  obtain rfl : k = .stringLiteral := h
  rw [elementText]
  rfl

theorem elementText_of_character (src : Source) (h : n.kind = .characterLiteral) :
    elementText src n = Text.stripMark (String.ofList [Char.ofNat 39]) (n.text src) := by
  obtain ⟨k, r, a, b, cs⟩ := n
  obtain rfl : k = .characterLiteral := h
  rw [elementText]
  rfl

namespace Literal

variable {c : List Char}

theorem not_beginsWith_quotes (h : Literal src n .quote c) :
    ¬Text.beginsWith (n.text src) "\"\"\"" = true := by
  rw [Text.beginsWith_eq_true_iff, h.isWritten, Delimiter.around, List.append_assoc]
  intro hfront
  have htwo : ['"', '"'] <+: c ++ Delimiter.quote.chars := (List.cons_prefix_cons.mp hfront).2
  by_cases hc : c = []
  · subst hc
    exact absurd htwo (by decide)
  · exact h.hasContents.not_begins hc ((List.prefix_append ['"'] ['"']).trans htwo)

theorem beginsWith_quotes (h : Literal src n .quotes c) :
    Text.beginsWith (n.text src) "\"\"\"" = true := by
  rw [Text.beginsWith_eq_true_iff, h.isWritten, Delimiter.around, List.append_assoc]
  exact List.prefix_append _ _

theorem unique {d d' : Delimiter} {c' : List Char} (h : Literal src n d c)
    (h' : Literal src n d' c') : d = d' ∧ c = c' := by
  have hkind := h.hasKind.symm.trans h'.hasKind
  have hd : d = d' := by
    cases d with
    | quote =>
      cases d' with
      | quote => rfl
      | quotes => exact absurd h'.beginsWith_quotes h.not_beginsWith_quotes
      | tick => cases hkind
    | quotes =>
      cases d' with
      | quote => exact absurd h.beginsWith_quotes h'.not_beginsWith_quotes
      | quotes => rfl
      | tick => cases hkind
    | tick => cases d' <;> first | rfl | cases hkind
  subst hd
  have haround := h.isWritten.symm.trans h'.isWritten
  exact ⟨rfl, List.append_cancel_left (List.append_cancel_right haround)⟩

theorem elementText_eq {d : Delimiter} (h : Literal src n d c) :
    elementText src n = String.ofList (d.kept c) := by
  rw [← h.hasContents.stripMark_around h.isWritten]
  cases d with
  | quote =>
    rw [elementText_of_string src h.hasKind, if_neg h.not_beginsWith_quotes]
    rfl
  | quotes =>
    rw [elementText_of_string src h.hasKind, if_pos h.beginsWith_quotes]
    rfl
  | tick => exact elementText_of_character src h.hasKind

end Literal

theorem Denotes.elementText (h : Denotes src read n v) :
    Denotes src Delimiter.kept n (elementText src n) := by
  apply h.elim (motive := fun n _ => Denotes src Delimiter.kept n (Java.elementText src n))
  case literal =>
    intro n d c hn
    exact hn.elementText_eq ▸ .literal hn
  case array =>
    intro n vs hn hvs
    have helements := ((List.forall₂_and_left (R := fun _ _ => True) _ _).mp
      (hvs.imp fun _ _ h => ⟨h, trivial⟩)).1
    rw [elementText_of_array src hn]
    exact .array hn (List.forall₂_map_right_iff.mpr (List.forall₂_same.mpr helements))
  case other =>
    intro n hn
    exact elementText_of_other src hn ▸ .other hn

theorem Holds.eq_of_not_array {m : Node} (h : Holds n m) (hn : n.kind ≠ .elementArray) : m = n := by
  cases h with
  | self => rfl
  | element harray => exact absurd harray hn

theorem Literal.kind_ne_array {d : Delimiter} {c : List Char} (h : Literal src n d c) :
    n.kind ≠ .elementArray := by
  rw [h.hasKind]
  cases d <;> simp [Delimiter.kind]

theorem endsInQuote_of_array (h : n.kind = .elementArray) :
    EndsInQuote src n ↔ ∃ c ∈ elementsOf n, EndsInQuote src c := by
  constructor
  · rintro ⟨m, d, c, hm, hliteral, hsuffix⟩
    cases hm with
    | self => exact absurd h hliteral.kind_ne_array
    | element _ he hm => exact ⟨_, he, m, d, c, hm, hliteral, hsuffix⟩
  · rintro ⟨e, he, m, d, c, hm, hliteral, hsuffix⟩
    exact ⟨m, d, c, .element h he hm, hliteral, hsuffix⟩

theorem endsInQuote_of_literal {d : Delimiter} {c : List Char} (h : Literal src n d c) :
    EndsInQuote src n ↔ d.chars <:+ c := by
  constructor
  · rintro ⟨m, d', c', hm, hliteral, hsuffix⟩
    obtain rfl := hm.eq_of_not_array h.kind_ne_array
    obtain ⟨rfl, rfl⟩ := h.unique hliteral
    exact hsuffix
  · exact fun hsuffix => ⟨n, d, c, .self n, h, hsuffix⟩

/-- A value is kept as it is, or some quote in it is lost. -/
def KeptOrShort (src : Source) (n : Node) (v : String) : Prop :=
  elementText src n = v ∧ ¬EndsInQuote src n ∨
    (elementText src n).length < v.length ∧ EndsInQuote src n

theorem keptOrShort_elements {cs : List Node} {vs : List String}
    (h : List.Forall₂ (KeptOrShort src) cs vs) :
    cs.map (Java.elementText src) = vs ∧ (∀ c ∈ cs, ¬EndsInQuote src c) ∨
      ((cs.map (Java.elementText src)).flatMap String.toList).length <
          (vs.flatMap String.toList).length ∧
        ∃ c ∈ cs, EndsInQuote src c := by
  induction h with
  | nil => exact .inl ⟨rfl, by simp⟩
  | @cons c v cs vs hc _ ih =>
    simp only [List.map_cons, List.flatMap_cons, List.length_append, String.length_toList,
      List.forall_mem_cons, List.exists_mem_cons_iff]
    rcases hc with ⟨rfl, hc⟩ | ⟨hlt, hc⟩ <;> rcases ih with ⟨rfl, hcs⟩ | ⟨hlt', hcs⟩
    · exact .inl ⟨rfl, hc, hcs⟩
    · exact .inr ⟨by omega, .inr hcs⟩
    · exact .inr ⟨by omega, .inl hc⟩
    · exact .inr ⟨by omega, .inl hc⟩

theorem Denotes.keptOrShort (h : Denotes src (fun _ c => c) n v) : KeptOrShort src n v := by
  apply h.elim (motive := KeptOrShort src)
  case literal =>
    intro n d c hn
    rw [KeptOrShort, hn.elementText_eq, endsInQuote_of_literal hn]
    by_cases hsuffix : d.chars <:+ c
    · have hlt := hn.hasContents.length_kept_lt hsuffix
      exact .inr ⟨by rwa [String.length_ofList, String.length_ofList], hsuffix⟩
    · exact .inl ⟨by rw [Delimiter.kept, if_neg hsuffix], hsuffix⟩
  case array =>
    intro n vs hn hvs
    rw [KeptOrShort, elementText_of_array src hn, endsInQuote_of_array hn]
    rcases keptOrShort_elements hvs with ⟨rfl, hcs⟩ | ⟨hlt, hcs⟩
    · exact .inl ⟨rfl, by simpa using hcs⟩
    · refine .inr ⟨?_, hcs⟩
      have hlength := hvs.length_eq
      rw [length_intercalate_comma, length_intercalate_comma, List.length_map, hlength]
      omega
  case other =>
    intro n hn
    refine .inl ⟨elementText_of_other src hn, ?_⟩
    rintro ⟨m, d, c, hm, hliteral, -⟩
    obtain rfl := hm.eq_of_not_array (by simp_all)
    rw [hliteral.hasKind] at hn
    cases d <;> simp [Delimiter.kind] at hn

/-- A value is kept as it is exactly when no literal in it ends in its own quote. -/
theorem Denotes.elementText_eq_iff (h : Denotes src (fun _ c => c) n v) :
    Java.elementText src n = v ↔ ¬EndsInQuote src n := by
  rcases h.keptOrShort with ⟨heq, hends⟩ | ⟨hlt, hends⟩
  · exact iff_of_true heq hends
  · exact iff_of_false (by rintro rfl; omega) (not_not_intro hends)

end Values

/-! ## Arguments by name -/

section Arguments

variable (src : Source)

/-- The name of an argument and its value; an argument without a name is the value. -/
def argument? (arg : Node) : Option (String × Node) :=
  if arg.kind.isComment then none
  else if arg.kind == .elementPair then
    match arg.child? .key, arg.child? .value with
    | some key, some value => some (key.text src, value)
    | _, _ => none
  else some ("value", arg)

def argumentsOf (use : Node) : List (String × Node) :=
  match use.child? .arguments with
  | some args => args.named.filterMap (argument? src)
  | none => []

theorem argumentParam?_eq (arg : Node) :
    argumentParam? src arg = (argument? src arg).map fun e => (e.1, elementText src e.2) := by
  unfold argumentParam? argument?
  split
  · rfl
  split
  · split <;> simp_all
  · rfl

theorem lookup_cons_eq_ite {α : Type} (key : String) (value : α) (name : String)
    (entries : List (String × α)) :
    ((key, value) :: entries).lookup name =
      if name = key then some value else entries.lookup name := by
  by_cases h : name = key
  · rw [if_pos h, h, List.lookup_cons_self]
  · rw [if_neg h, List.lookup_cons, beq_false_of_ne h]

theorem lookup_setParam (params : List (String × String)) (key value name : String) :
    (setParam params key value).lookup name =
      if name = key then some value else params.lookup name := by
  fun_induction setParam params key value with
  | case1 => rw [lookup_cons_eq_ite]
  | case2 k v rest h =>
    obtain rfl := eq_of_beq h
    rw [lookup_cons_eq_ite, lookup_cons_eq_ite]
    split <;> rfl
  | case3 k v rest h hlt => rw [lookup_cons_eq_ite]
  | case4 k v rest h hlt ih =>
    have hne : k ≠ key := by simpa using h
    rw [lookup_cons_eq_ite, lookup_cons_eq_ite, ih]
    split_ifs with hk hkey
    · exact absurd (hk.symm.trans hkey) hne
    · rfl
    · rfl
    · rfl

theorem lookup_foldl_setParam {α : Type} (text : α → String) (entries : List (String × α))
    (params : List (String × String)) (name : String) :
    (entries.foldl (fun ps e => setParam ps e.1 (text e.2)) params).lookup name =
      ((entries.reverse.lookup name).map text).or (params.lookup name) := by
  induction entries generalizing params with
  | nil => rfl
  | cons e entries ih =>
    rw [List.foldl_cons, ih, lookup_setParam, List.reverse_cons, List.lookup_append,
      lookup_cons_eq_ite e.1 e.2 name []]
    cases entries.reverse.lookup name with
    | some value => rfl
    | none => split <;> rfl

/-- The parameter of a name has the text of the last argument with that name. -/
theorem lookup_annotationParams (use : Node) (name : String) :
    (annotationParams src use).lookup name =
      ((argumentsOf src use).reverse.lookup name).map (elementText src) := by
  unfold annotationParams argumentsOf
  cases use.child? .arguments with
  | none => rfl
  | some args =>
    have hparams : args.named.filterMap (argumentParam? src) =
        (args.named.filterMap (argument? src)).map fun e => (e.1, elementText src e.2) := by
      rw [List.map_filterMap]
      exact congrArg (List.filterMap · args.named) (funext (argumentParam?_eq src))
    simp only [hparams, List.foldl_map, lookup_foldl_setParam, List.lookup_nil, Option.or_none]

end Arguments

/-- An argument of an annotation on a declaration that a file yields. -/
structure AnnotationArgument (f : ParsedFile) where
  path : List Nat
  place : Place
  declaration : Node
  symbol : Symbol
  modifiers : Node
  use : Node
  name : Node
  key : String
  value : Node
  isRead : f.Visited path (place, declaration)
  isDeclared : symbol ∈ (f.yield (place, declaration)).symbols
  hasModifiers : declaration.childOfKind? .modifiers = some modifiers
  isIn : use ∈ modifiers.named
  isUse : use.kind = .annotationUse
  hasName : use.child? .name = some name
  /-- Of the arguments with one name the last one counts. -/
  isLast : (argumentsOf f.source use).reverse.lookup key = some value

namespace AnnotationArgument

variable {f : ParsedFile} (a : AnnotationArgument f)

def record : Annotation where
  symbol := a.symbol.fqn
  name := Text.squeeze (a.name.text f.source)
  scope := .ofSymbol a.symbol.kind
  params := annotationParams f.source a.use

theorem mem_annotations : a.record ∈ f.outline.annotations := by
  have hdeclared := @ownOutline_declaredBy f.source f.facts a.place a.declaration
  refine ParsedFile.mem_annotations_iff.mpr ⟨a.path, (a.place, a.declaration), a.isRead, ?_⟩
  rw [ParsedFile.yield, hdeclared.annotations, List.mem_flatMap]
  refine ⟨a.symbol, a.isDeclared, ?_⟩
  simp only [annotationsOf, a.hasModifiers, List.mem_filterMap, List.mem_filter, beq_iff_eq]
  exact ⟨a.use, ⟨a.isIn, a.isUse⟩, by rw [a.hasName]; rfl⟩

theorem lookup_params :
    a.record.params.lookup a.key = some (elementText f.source a.value) := by
  rw [record, lookup_annotationParams, a.isLast]
  rfl

end AnnotationArgument

/-- The literals in an argument of an annotation are kept with their contents, escapes and
quotes included, exactly where none of them ends in its own quote. One that does is kept
without this quote; the others are not changed by it. -/
theorem annotation_text_keeps_contents {f : ParsedFile} (a : AnnotationArgument f) {v : String}
    (hv : Denotes f.source (fun _ c => c) a.value v) :
    a.record ∈ f.outline.annotations ∧
      ∃ w, a.record.params.lookup a.key = some w ∧
        Denotes f.source Delimiter.kept a.value w ∧
        (w = v ↔ ¬EndsInQuote f.source a.value) :=
  ⟨a.mem_annotations, _, a.lookup_params, hv.elementText, hv.elementText_eq_iff⟩

namespace Sample

/-- The string in `@A("\"") class C{}`. -/
def escapedQuote : Node := .mk .stringLiteral none 3 7 []

def annotationUse : Node :=
  .mk .annotationUse none 0 8
    [.mk .token none 0 1 [], .mk .identifier (some .name) 1 2 [],
      .mk .annotationArguments (some .arguments) 2 8
        [.mk .token none 2 3 [], escapedQuote, .mk .token none 7 8 []]]

def annotatedClass : Node :=
  .mk .classDeclaration none 0 18
    [.mk .modifiers none 0 8 [annotationUse], .mk .token none 9 14 [],
      .mk .identifier (some .name) 15 16 [],
      .mk .classBody (some .body) 16 18 [.mk .token none 16 17 [], .mk .token none 17 18 []]]

def annotatedFile : ParsedFile where
  bytes := "@A(\"\\\"\") class C{}".toUTF8.toList
  root := .mk .program none 0 18 [annotatedClass]
  fallback := ""

def argument : AnnotationArgument annotatedFile where
  path := [0]
  place := .top
  declaration := annotatedClass
  symbol :=
    { fqn := "C", name := "C", kind := .classType, lineStart := 1, lineEnd := 1,
      signature := "class C", parent := "", visibility := .packageAccess }
  modifiers := .mk .modifiers none 0 8 [annotationUse]
  use := annotationUse
  name := .mk .identifier (some .name) 1 2 []
  key := "value"
  value := escapedQuote
  isRead := ⟨0, annotatedClass, [], rfl, rfl, .self rfl⟩
  isDeclared := by decide +kernel
  hasModifiers := rfl
  isIn := List.mem_cons_self
  isUse := rfl
  hasName := rfl
  isLast := rfl

theorem denotes_escapedQuote :
    Denotes annotatedFile.source (fun _ c => c) escapedQuote "\\\"" :=
  .literal (d := .quote) (c := ['\\', '"']) ⟨rfl, by decide +kernel, .escape .nil⟩

end Sample

open Java.Sample in
/-- The contents are an escaped quote, and the text that is kept of them is shorter. -/
theorem escaped_quote_is_not_kept :
    Denotes annotatedFile.source (fun _ c => c) argument.value "\\\"" ∧
      argument.record ∈ annotatedFile.outline.annotations ∧
      ∃ w, argument.record.params.lookup argument.key = some w ∧
        Denotes annotatedFile.source Delimiter.kept argument.value w ∧
        (w = "\\\"" ↔ ¬EndsInQuote annotatedFile.source argument.value) :=
  ⟨denotes_escapedQuote, annotation_text_keeps_contents argument denotes_escapedQuote⟩

open Java.Sample in
/-- Of an escaped quote between quotes only the backslash is kept. -/
theorem escaped_quote_loses_its_quote :
    Denotes annotatedFile.source (fun _ c => c) argument.value "\\\"" ∧
      argument.record ∈ annotatedFile.outline.annotations ∧
      argument.record.params.lookup "value" ≠ some "\\\"" ∧
      (outlineOfBytes annotatedFile.bytes "").annotations.map Annotation.params =
        [[("value", "\\")]] :=
  ⟨denotes_escapedQuote, argument.mem_annotations, by decide +kernel, by decide +kernel⟩

end CodeAtlas.Java
