import CodeAtlas.Proofs.Query.AnnotationValues
import CodeAtlas.Proofs.Store.Lookup
import CodeAtlas.Proofs.Text.Parts
import Mathlib.Data.Prod.Lex

/-! # Pages of an annotation search

The annotations that a query asks for stand in one order: by codebase, by symbol and by id. An
answer shows a stretch of them, each with the first place of its symbol, and tells how many
there are. So the pages of one size, one after another, show each of them once.
-/

namespace CodeAtlas

open AnnotationSearch

/-! ## What a query asks for -/

/-- The scope that a query asks for: any scope where it gives none or a blank one. -/
inductive AnnotationQuery.WantsScope (q : AnnotationQuery) : Option AnnotationScope → Prop
  | any (h : ∀ text ∈ q.scope, Text.trim text = "") : WantsScope q none
  | only {text : String} {scope : AnnotationScope} (h : q.scope = some text)
      (hscope : AnnotationScope.parse? (Text.trim text) = some scope) : WantsScope q (some scope)

/-- An annotation that a query asks for by some name, in one scope if any. -/
structure AnnotationQuery.Asks (q : AnnotationQuery) (name : String)
    (scope : Option AnnotationScope) (r : Row (Owned Annotation)) : Prop where
  /-- The name is the one asked for, or qualifies it. -/
  named : r.data.item.name = name ∨ ∃ front, r.data.item.name = front ++ ("." ++ name)
  scope : ∀ k ∈ scope, r.data.item.scope = k
  codebase : ∀ c ∈ q.codebase, r.data.owner = c
  /-- A value passes the test, if there is one. -/
  value : ∀ test ∈ q.value, test ≠ "" → ∃ p ∈ r.data.item.params, valuePasses test p.2 = true

/-- What annotations are sorted by. -/
def annotationKey (r : Row (Owned Annotation)) : Int ×ₗ String ×ₗ Int :=
  toLex (r.data.owner, toLex (r.data.item.symbol, r.id))

/-- What the symbols of one name in one codebase are sorted by. -/
def placeKey (p : PlacedSymbol) : Nat ×ₗ Int := toLex (p.symbol.lineStart, p.id)

/-- The symbols that an annotation may be on: those of its name in its codebase. -/
def Store.Bears (s : Store) (r : Row (Owned Annotation)) (p : PlacedSymbol) : Prop :=
  p ∈ s.placedSymbols ∧ p.symbol.fqn = r.data.item.symbol ∧ p.file.data.codebase = r.data.owner

/-- An annotation stands with the first symbol that it may be on, and with none only if there
is none. -/
structure Store.Places (s : Store) (hit : AnnotationHit) : Prop where
  isSome_iff : hit.place.isSome = true ↔ ∃ p, s.Bears hit.row p
  first : ∀ p ∈ hit.place, s.Bears hit.row p ∧ ∀ p', s.Bears hit.row p' → placeKey p ≤ placeKey p'

namespace AnnotationSearch

variable {s : Store} {q : AnnotationQuery} {name : String} {scope : Option AnnotationScope}

theorem chosen?_eq_none_iff {choice : Option String} :
    chosen? choice = none ↔ ∀ text ∈ choice, Text.trim text = "" := by
  cases choice <;> simp [chosen?, Option.filter]

theorem chosen?_eq_some_iff {choice : Option String} {t : String} :
    chosen? choice = some t ↔ ∃ text, choice = some text ∧ Text.trim text = t ∧ t ≠ "" := by
  cases choice with
  | none => simp [chosen?]
  | some text =>
    simp only [chosen?, Option.map_some, Option.filter_eq_some_iff, Option.some.injEq,
      Bool.not_eq_true', Bool.eq_false_iff, ne_eq, String.isEmpty_iff, exists_eq_left']

theorem scopeOf_eq_ok (h : q.WantsScope scope) : scopeOf q = .ok scope := by
  cases h with
  | any h => rw [scopeOf, chosen?_eq_none_iff.mpr h]
  | @only text k h hscope =>
    have hne : Text.trim text ≠ "" := by
      intro hempty
      have hnone : AnnotationScope.parse? "" = none := by decide +kernel
      rw [hempty, hnone] at hscope
      cases hscope
    rw [scopeOf, chosen?_eq_some_iff.mpr ⟨text, h, rfl, hne⟩]
    simp only [hscope]

theorem goesBy_iff {full : String} :
    Store.goesBy full name = true ↔ full = name ∨ ∃ front, full = front ++ ("." ++ name) := by
  rw [Store.goesBy, Bool.or_eq_true, beq_iff_eq, Text.finishesWith_eq_true_iff]
  refine or_congr_right ⟨?_, ?_⟩
  · rintro ⟨front, hfront⟩
    refine ⟨String.ofList front, String.toList_inj.mp ?_⟩
    rw [← hfront, String.toList_append (s := String.ofList front), String.toList_ofList]
  · rintro ⟨front, rfl⟩
    exact ⟨front.toList, String.toList_append.symm⟩

theorem isOpenOr_iff {α : Type} [BEq α] [LawfulBEq α] {choice : Option α} {a : α} :
    isOpenOr choice a = true ↔ ∀ b ∈ choice, a = b := by
  cases choice <;> simp [isOpenOr]

theorem hasValue_iff {test : Option String} {a : Annotation} :
    hasValue test a = true ↔
      ∀ t ∈ test, t ≠ "" → ∃ p ∈ a.params, valuePasses t p.2 = true := by
  cases test with
  | none => simp [hasValue]
  | some t =>
    by_cases ht : t = ""
    · simp [hasValue, Option.filter, ht]
    · have he : t.isEmpty = false := by simpa [String.isEmpty_iff] using ht
      simp [hasValue, Option.filter, ht, he]

theorem asks_iff {r : Row (Owned Annotation)} :
    q.Asks name scope r ↔
      (Store.goesBy r.data.item.name name && isOpenOr scope r.data.item.scope
        && isOpenOr q.codebase r.data.owner && hasValue q.value r.data.item) = true := by
  simp only [Bool.and_eq_true, goesBy_iff, isOpenOr_iff, hasValue_iff]
  constructor
  · rintro ⟨hname, hscope, hcodebase, hvalue⟩
    exact ⟨⟨⟨hname, hscope⟩, hcodebase⟩, hvalue⟩
  · rintro ⟨⟨⟨hname, hscope⟩, hcodebase⟩, hvalue⟩
    exact ⟨hname, hscope, hcodebase, hvalue⟩

end AnnotationSearch

instance (q : AnnotationQuery) (name : String) (scope : Option AnnotationScope) :
    DecidablePred (q.Asks name scope) := fun _ => decidable_of_iff' _ asks_iff

namespace AnnotationSearch

variable {s : Store} {q : AnnotationQuery} {name : String} {scope : Option AnnotationScope}

/-! ## All that a query asks for -/

theorem hits_perm :
    (hits s q name scope).Perm (s.annotations.rows.filter fun r => q.Asks name scope r) := by
  have hsame : (s.annotations.rows.filter fun r => q.Asks name scope r) =
      (s.annotations.rows.filter fun r =>
        Store.goesBy r.data.item.name name && isOpenOr scope r.data.item.scope
          && isOpenOr q.codebase r.data.owner).filter fun r => hasValue q.value r.data.item := by
    rw [List.filter_filter]
    refine List.filter_congr fun r _ => ?_
    rw [Bool.and_comm, Bool.eq_iff_iff, decide_eq_true_iff]
    exact asks_iff
  rw [hsame]
  exact (sortBy_perm _ _).filter _

theorem isLE_annotation_order {a b : Row (Owned Annotation)} :
    (thenBy (byKey fun r => r.data.owner)
      (thenBy (byKey fun r => r.data.item.symbol) (byKey Row.id)) a b).isLE = true ↔
      annotationKey a ≤ annotationKey b := by
  simp only [isLE_thenBy_byKey, isLE_byKey, annotationKey, Prod.Lex.toLex_le_toLex]

theorem hits_sorted :
    (hits s q name scope).Pairwise fun a b => annotationKey a ≤ annotationKey b := by
  refine List.Pairwise.filter _ ((pairwise_sortBy _ _).imp ?_)
  intro a b hab
  exact isLE_annotation_order.mp hab

theorem mem_symbolsNamed_iff {r : Row (Owned Annotation)} {p : PlacedSymbol} :
    p ∈ s.symbolsNamed r.data.item.symbol (some r.data.owner) ↔ s.Bears r p := by
  rw [Store.symbolsNamed, (sortBy_perm _ _).mem_iff, List.mem_filter, Bool.and_eq_true, beq_iff_eq,
    isOpenOr_iff]
  simp [Store.Bears]

theorem symbolsNamed_sorted {r : Row (Owned Annotation)} :
    (s.symbolsNamed r.data.item.symbol (some r.data.owner)).Pairwise fun p p' =>
      placeKey p ≤ placeKey p' := by
  refine (pairwise_sortBy _ _).imp_of_mem ?_
  intro p p' hp hp' hle
  have hcodebase : p.file.data.codebase = p'.file.data.codebase :=
    (mem_symbolsNamed_iff.mp hp).2.2.trans (mem_symbolsNamed_iff.mp hp').2.2.symm
  rw [isLE_thenBy_byKey] at hle
  have hline := (hle.resolve_left (hcodebase ▸ lt_irrefl _)).2
  rw [isLE_thenBy_byKey, isLE_byKey] at hline
  exact Prod.Lex.toLex_le_toLex.mpr hline

theorem places_placeOf (r : Row (Owned Annotation)) : s.Places ⟨r, placeOf s r⟩ := by
  have hsorted := symbolsNamed_sorted (s := s) (r := r)
  have hmem := fun p => mem_symbolsNamed_iff (s := s) (r := r) (p := p)
  cases hlist : s.symbolsNamed r.data.item.symbol (some r.data.owner) with
  | nil =>
    have hplace : placeOf s r = none := by rw [placeOf, hlist, List.head?_nil]
    rw [hplace]
    refine ⟨⟨nofun, ?_⟩, nofun⟩
    rintro ⟨p, hp⟩
    exact absurd (hlist ▸ (hmem p).mpr hp) List.not_mem_nil
  | cons p rest =>
    have hplace : placeOf s r = some p := by rw [placeOf, hlist, List.head?_cons]
    have hp : s.Bears r p := (hmem p).mp (hlist ▸ List.mem_cons_self)
    rw [hplace]
    refine ⟨⟨fun _ => ⟨p, hp⟩, fun _ => rfl⟩, ?_⟩
    rintro _ ⟨⟩
    refine ⟨hp, fun p' hp' => ?_⟩
    rw [hlist, List.pairwise_cons] at hsorted
    rcases List.mem_cons.mp (hlist ▸ (hmem p').mpr hp') with rfl | hrest
    · exact le_rfl
    · exact hsorted.1 p' hrest

/-! ## Pages -/

theorem flatMap_pages {α : Type} (xs : List α) (size n : Nat) :
    ((List.range n).flatMap fun i => (xs.drop (i * size)).take size) = xs.take (n * size) := by
  induction n with
  | zero => simp
  | succ n ih => rw [List.range_succ, List.flatMap_append, ih, Nat.succ_mul, List.take_add]; simp

end AnnotationSearch

/-- All that a query asks for in a store, in order and in place. -/
structure Store.Lists (s : Store) (q : AnnotationQuery) (name : String)
    (scope : Option AnnotationScope) (all : List AnnotationHit) : Prop where
  rows : (all.map AnnotationHit.row).Perm (s.annotations.rows.filter fun r => q.Asks name scope r)
  sorted : all.Pairwise fun a b => annotationKey a.row ≤ annotationKey b.row
  placed : ∀ hit ∈ all, s.Places hit

def AnnotationSearch.placedHits (s : Store) (q : AnnotationQuery) (name : String)
    (scope : Option AnnotationScope) : List AnnotationHit :=
  (hits s q name scope).map fun a => ⟨a, placeOf s a⟩

theorem Store.lists_placedHits (s : Store) (q : AnnotationQuery) (name : String)
    (scope : Option AnnotationScope) : s.Lists q name scope (placedHits s q name scope) where
  rows := by
    rw [placedHits, List.map_map]
    simpa [Function.comp_def] using hits_perm
  sorted := List.pairwise_map.mpr hits_sorted
  placed := by
    intro hit hhit
    obtain ⟨a, -, rfl⟩ := List.mem_map.mp hhit
    exact places_placeOf a

/-- Each answer to a query shows a stretch of one list and tells its length. The pages of one
size, one after another, are the list. -/
theorem Store.annotation_pages_tile (s : Store) (q : AnnotationQuery) {name : String}
    (hname : Text.trim (String.ofList ((Text.trim q.name).toList.dropWhile (· == '@'))) = name)
    (hne : name ≠ "") {scope : Option AnnotationScope} (hscope : q.WantsScope scope) :
    ∃ all : List AnnotationHit, s.Lists q name scope all ∧
      (∀ limit offset, s.searchAnnotations { q with limit := limit, offset := offset } =
        { name := name
          results := (all.drop (offset.getD 0)).take (max 1 (min (limit.getD 50) 500))
          total := all.length
          limit := max 1 (min (limit.getD 50) 500)
          offset := offset.getD 0
          fault := none }) ∧
      ∀ size n, 1 ≤ size → size ≤ 500 → all.length ≤ n * size →
        ((List.range n).flatMap fun i => (s.searchAnnotations
          { q with limit := some size, offset := some (i * size) }).results) = all := by
  have hanswer : ∀ limit offset, s.searchAnnotations { q with limit := limit, offset := offset } =
      { name := name
        results := ((placedHits s q name scope).drop (offset.getD 0)).take
          (max 1 (min (limit.getD 50) 500))
        total := (placedHits s q name scope).length
        limit := max 1 (min (limit.getD 50) 500)
        offset := offset.getD 0
        fault := none } := by
    intro limit offset
    have hempty : name.isEmpty = false := by simpa [String.isEmpty_iff] using hne
    have hclamp : clampLimit limit defaultLimit maxLimit = max 1 (min (limit.getD 50) 500) := by
      simp only [clampLimit, defaultLimit, maxLimit]
      omega
    have hn : nameOf { q with limit := limit, offset := offset } = name := hname
    have hs : scopeOf { q with limit := limit, offset := offset } = .ok scope :=
      scopeOf_eq_ok (q := q) hscope
    have hh : hits s { q with limit := limit, offset := offset } name scope =
      hits s q name scope := rfl
    simp only [searchAnnotations, hn, hs, hh, hempty, hclamp, placedHits, List.length_map,
      List.map_take, List.map_drop, Bool.false_eq_true, if_false]
  refine ⟨placedHits s q name scope, s.lists_placedHits q name scope, hanswer, ?_⟩
  intro size n hpos hmost hn
  have hsize : max 1 (min size 500) = size := by omega
  simp only [hanswer, Option.getD_some, hsize]
  rw [flatMap_pages, List.take_of_length_le hn]

/-! ## A sample -/

namespace Sample

/-- A method with two overloads, of which the later one was stored first. -/
def overload (id : Int) (line : Nat) : PlacedSymbol :=
  ⟨id, ⟨1, ⟨1, "Web.java", "", "java", 9⟩⟩,
    ⟨"p.Web.show", "show", .method, line, line, "void show()", "p.Web", .packageAccess⟩⟩

/-- An annotation by its qualified name on the method. -/
def onShow : Row (Owned Annotation) := ⟨1, ⟨1, ⟨"p.Web.show", "web.Route", .onMethod, []⟩⟩⟩

def onList : Row (Owned Annotation) := ⟨2, ⟨1, ⟨"p.Web.list", "Route", .onMethod, []⟩⟩⟩

def routes : Store where
  files := ⟨[(overload 1 7).file], 1⟩
  symbols := ⟨[⟨1, ⟨1, (overload 1 7).symbol⟩⟩, ⟨2, ⟨1, (overload 2 3).symbol⟩⟩], 2⟩
  annotations := ⟨[onShow, onList], 2⟩

theorem bears_onShow_iff {p : PlacedSymbol} :
    routes.Bears onShow p ↔ p = overload 1 7 ∨ p = overload 2 3 := by
  have hplaced : routes.placedSymbols = [overload 1 7, overload 2 3] := by decide +kernel
  rw [Store.Bears, hplaced]
  constructor
  · rintro ⟨hp, -⟩
    simpa using hp
  · rintro (rfl | rfl)
    · exact ⟨by simp, rfl, rfl⟩
    · exact ⟨by simp, rfl, rfl⟩

end Sample

open Sample in
/-- Of the two annotations, the second page of one shows the one on the method, with the overload
that stands first. -/
theorem Store.annotation_pages_tile_routes :
    Text.trim (String.ofList ((Text.trim " @Route").toList.dropWhile (· == '@'))) = "Route" ∧
    AnnotationQuery.WantsScope { name := " @Route", scope := some "method " } (some .onMethod) ∧
    routes.searchAnnotations
        { name := " @Route", scope := some "method ", limit := some 1, offset := some 1 } =
      { name := "Route", results := [⟨onShow, some (overload 2 3)⟩], total := 2, limit := 1,
        offset := 1 } := by
  have hname : Text.trim (String.ofList ((Text.trim " @Route").toList.dropWhile (· == '@'))) =
      "Route" := by decide +kernel
  have hscope : AnnotationQuery.WantsScope
      { name := " @Route", scope := some "method " } (some .onMethod) :=
    .only rfl (by decide +kernel)
  obtain ⟨all, ⟨hrows, hsorted, hplaced⟩, hanswer, -⟩ :=
    routes.annotation_pages_tile { name := " @Route", scope := some "method " } hname (by decide)
      hscope
  have hasked : (routes.annotations.rows.filter fun r =>
      AnnotationQuery.Asks { name := " @Route", scope := some "method " } "Route" (some .onMethod)
        r) = [onShow, onList] := by decide +kernel
  rw [hasked] at hrows
  obtain ⟨first, second, rfl⟩ := List.length_eq_two.mp (by simpa using hrows.length_eq)
  have hsecond : second.row = onShow := by
    have hle : annotationKey first.row ≤ annotationKey second.row := by simpa using hsorted
    have hshown : first.row = onShow ∨ second.row = onShow := by
      simpa [eq_comm] using hrows.mem_iff.mpr (List.mem_cons_self : onShow ∈ [onShow, onList])
    have hboth : second.row = onShow ∨ second.row = onList := by
      simpa using hrows.mem_iff.mp (by simp : second.row ∈ [first, second].map AnnotationHit.row)
    rcases hshown with hf | hs
    · refine hboth.resolve_right fun hs => ?_
      rw [hf, hs] at hle
      exact absurd hle (by decide +kernel)
    · exact hs
  have hplace : second.place = some (overload 2 3) := by
    obtain ⟨hsome, hfirst⟩ := hplaced second (by simp)
    rw [hsecond] at hsome hfirst
    obtain ⟨p, hp⟩ := Option.isSome_iff_exists.mp
      (hsome.mpr ⟨_, bears_onShow_iff.mpr (.inl rfl)⟩)
    obtain ⟨hbears, hmin⟩ := hfirst p hp
    rcases bears_onShow_iff.mp hbears with rfl | rfl
    · exact absurd (hmin _ (bears_onShow_iff.mpr (.inr rfl))) (by decide +kernel)
    · exact hp
  refine ⟨hname, hscope, ?_⟩
  rw [hanswer, ← hsecond, ← hplace]
  rfl

end CodeAtlas
