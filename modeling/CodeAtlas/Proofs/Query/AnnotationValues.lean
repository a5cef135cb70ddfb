import CodeAtlas.Proofs.Pattern.Matcher
import CodeAtlas.Query.AnnotationSearch

/-! # Annotation values

A value test narrows an annotation query after its name, scope and codebase. A test with
wildcards finds an annotation whose values have no star exactly when one of the values is in
the language of the test, and so it finds all that the search for one of the texts in that
language finds.
-/

namespace CodeAtlas

open AnnotationSearch Wildcard

namespace AnnotationSearch

/-- The annotations that the name, the scope and the codebase of a query select. -/
def selected (s : Store) (q : AnnotationQuery) : List (Row (Owned Annotation)) :=
  if (nameOf q).isEmpty then []
  else
    match scopeOf q with
    | .error _ => []
    | .ok scope => s.annotationsNamed (nameOf q) scope q.codebase

/-- The annotations on all pages of the answer to a query. -/
def matched (s : Store) (q : AnnotationQuery) : List (Row (Owned Annotation)) :=
  (selected s q).filter fun a => hasValue q.value a.data.item

theorem matched_value (s : Store) (q : AnnotationQuery) (value : Option String) :
    matched s { q with value := value } =
      (selected s q).filter fun a => hasValue value a.data.item := rfl

theorem total_searchAnnotations (s : Store) (q : AnnotationQuery) :
    (s.searchAnnotations q).total = (matched s q).length := by
  by_cases hname : (nameOf q).isEmpty = true
  · simp only [Store.searchAnnotations, matched, selected, hname, if_true, List.filter_nil,
      List.length_nil]
  · cases hscope : scopeOf q with
    | error fault => simp [Store.searchAnnotations, matched, selected, hname, hscope]
    | ok scope => simp [Store.searchAnnotations, matched, selected, hname, hscope, hits]

theorem rows_searchAnnotations (s : Store) (q : AnnotationQuery) :
    (s.searchAnnotations q).results.map AnnotationHit.row =
      ((matched s q).drop (q.offset.getD 0)).take
        (clampLimit q.limit defaultLimit maxLimit) := by
  by_cases hname : (nameOf q).isEmpty = true
  · simp [Store.searchAnnotations, matched, selected, hname]
  · cases hscope : scopeOf q with
    | error fault => simp [Store.searchAnnotations, matched, selected, hname, hscope]
    | ok scope =>
      simp [Store.searchAnnotations, matched, selected, hname, hscope, hits, Function.comp_def]

theorem clampLimit_pos (requested : Option Nat) {default most : Nat} (h : 0 < most) :
    0 < clampLimit requested default most := by
  unfold clampLimit
  omega

variable {a : Annotation} {p v : String}

theorem hasValue_of_hasWildcards (hp : hasWildcards p = true) :
    hasValue (some p) a = true ↔ ∃ x ∈ a.params, wildcardMatch p x.2 = true := by
  have he : p.isEmpty = false := by
    rw [Bool.eq_false_iff]
    intro he
    simp [String.isEmpty_iff.mp he, hasWildcards] at hp
  simp [hasValue, Option.filter, he, valuePasses, hp]

theorem hasValue_of_not_hasWildcards (hne : v ≠ "") (hv : hasWildcards v = false) :
    hasValue (some v) a = true ↔ ∃ x ∈ a.params, x.2 = v := by
  have he : v.isEmpty = false := by simpa [String.isEmpty_iff] using hne
  simp [hasValue, Option.filter, he, valuePasses, hv]

theorem not_mem_of_not_hasWildcards (hv : hasWildcards v = false) : '*' ∉ v.toList := by
  intro hstar
  simp only [hasWildcards, List.any_eq_false] at hv
  exact hv '*' hstar rfl

theorem wildcardMatch_iff_matches {text : String} (h : '*' ∉ text.toList) :
    wildcardMatch p text = true ↔ Matches Eq p.toList text.toList :=
  matchChars_iff_matches fun _ => h

end AnnotationSearch

/-- A query finds an annotation when it shows it on some page. -/
def Store.Finds (s : Store) (q : AnnotationQuery) (a : Row (Owned Annotation)) : Prop :=
  ∃ offset, a ∈ (s.searchAnnotations { q with offset := some offset }).results.map
    AnnotationHit.row

theorem Store.finds_iff {s : Store} {q : AnnotationQuery}
    {a : Row (Owned Annotation)} : s.Finds q a ↔ a ∈ matched s q := by
  have hmatched : ∀ offset, matched s { q with offset := offset } = matched s q := fun _ => rfl
  simp only [Finds, rows_searchAnnotations, hmatched]
  constructor
  · rintro ⟨offset, ha⟩
    exact List.mem_of_mem_drop (List.mem_of_mem_take ha)
  · intro ha
    obtain ⟨offset, hoffset, rfl⟩ := List.mem_iff_getElem.mp ha
    refine ⟨offset, ?_⟩
    have hlimit : 0 < clampLimit q.limit defaultLimit maxLimit := clampLimit_pos _ (by decide)
    refine List.mem_take_iff_getElem.mpr ⟨0, ?_, ?_⟩
    · simpa using ⟨hlimit, hoffset⟩
    · simp

/-- A test with wildcards decides its language on values without stars, and finds no less than
the search for any text of its language. -/
theorem Store.wildcard_values_cover_texts (s : Store) (q : AnnotationQuery) {p : String}
    (hp : hasWildcards p = true) :
    (∀ a, (∀ x ∈ a.data.item.params, '*' ∉ x.2.toList) →
      (s.Finds { q with value := some p } a ↔
        a ∈ selected s q ∧ ∃ x ∈ a.data.item.params, Matches Eq p.toList x.2.toList)) ∧
    ∀ v, v ≠ "" → hasWildcards v = false → Matches Eq p.toList v.toList →
      (∀ a, s.Finds { q with value := some v } a →
        s.Finds { q with value := some p } a) ∧
      (s.searchAnnotations { q with value := some v }).total ≤
        (s.searchAnnotations { q with value := some p }).total := by
  simp only [finds_iff, total_searchAnnotations]
  constructor
  · intro a hstars
    rw [matched_value, List.mem_filter, hasValue_of_hasWildcards hp]
    refine and_congr_right fun _ => exists_congr fun x => and_congr_right fun hx => ?_
    exact wildcardMatch_iff_matches (hstars x hx)
  · intro v hne hv hm
    have hmatch : wildcardMatch p v = true :=
      (wildcardMatch_iff_matches (not_mem_of_not_hasWildcards hv)).mpr hm
    have hsub : (matched s { q with value := some v }).Sublist
        (matched s { q with value := some p }) := by
      rw [matched_value, matched_value]
      apply List.monotone_filter_right
      intro a ha
      rw [hasValue_of_not_hasWildcards hne hv] at ha
      obtain ⟨x, hx, rfl⟩ := ha
      exact (hasValue_of_hasWildcards hp).mpr ⟨x, hx, hmatch⟩
    exact ⟨fun _ ha => hsub.subset ha, hsub.length_le⟩

def Store.loanCode : Row (Owned Annotation) :=
  ⟨1, ⟨1, ⟨"p.Web.apply", "TransCode", .onMethod, [("value", "LN_LOAN_APPLY")]⟩⟩⟩

def Store.loans : Store := { annotations := ⟨[loanCode], 1⟩ }

/-- A test with wildcards finds the only annotation of a store by its value, and so does the
value itself. -/
theorem Store.wildcard_values_cover_loanCode :
    hasWildcards "LN_*APPL?" = true ∧
    (∀ x ∈ loanCode.data.item.params, '*' ∉ x.2.toList) ∧
    Matches Eq "LN_*APPL?".toList "LN_LOAN_APPLY".toList ∧
    loans.Finds { name := "@TransCode", value := some "LN_LOAN_APPLY" } loanCode ∧
    loans.Finds { name := "@TransCode", value := some "LN_*APPL?" } loanCode ∧
    (loans.searchAnnotations { name := "@TransCode", value := some "LN_LOAN_APPLY" }).total = 1 ∧
    1 ≤ (loans.searchAnnotations { name := "@TransCode", value := some "LN_*APPL?" }).total := by
  have hp : hasWildcards "LN_*APPL?" = true := by decide +kernel
  have hv : hasWildcards "LN_LOAN_APPLY" = false := by decide +kernel
  have hstars : ∀ x ∈ loanCode.data.item.params, '*' ∉ x.2.toList := by
    intro x hx
    obtain rfl := List.mem_singleton.mp hx
    exact not_mem_of_not_hasWildcards hv
  have hm : Matches Eq "LN_*APPL?".toList "LN_LOAN_APPLY".toList :=
    (wildcardMatch_iff_matches (not_mem_of_not_hasWildcards hv)).mp (by decide +kernel)
  have hexact : loans.Finds { name := "@TransCode", value := some "LN_LOAN_APPLY" } loanCode :=
    finds_iff.mpr (by decide +kernel)
  have htotal : (loans.searchAnnotations
      { name := "@TransCode", value := some "LN_LOAN_APPLY" }).total = 1 := by
    rw [total_searchAnnotations]
    decide +kernel
  obtain ⟨hfinds, hcovers⟩ := loans.wildcard_values_cover_texts { name := "@TransCode" } hp
  obtain ⟨-, hle⟩ := hcovers _ (by decide) hv hm
  have hselected : loanCode ∈ selected loans { name := "@TransCode" } := by decide +kernel
  rw [htotal] at hle
  exact ⟨hp, hstars, hm, hexact,
    (hfinds loanCode hstars).mpr ⟨hselected, _, List.mem_cons_self, hm⟩, htotal, hle⟩

end CodeAtlas
