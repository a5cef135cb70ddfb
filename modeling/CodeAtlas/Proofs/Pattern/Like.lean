import CodeAtlas.Pattern.Like
import CodeAtlas.Proofs.Pattern.Language
import Mathlib.Data.List.TakeWhile

/-! # From wildcards to LIKE

A wildcard pattern is turned into a LIKE pattern by replacing its wildcards and escaping what
would be one there. The LIKE pattern then selects the language of the wildcard pattern, where
characters count as the same up to the case of ASCII letters, and the two noncharacters at
the end of the basic plane count as the replacement character.
-/

namespace CodeAtlas

open Wildcard

namespace Like

/-! ## The rows of the matcher -/

/-- A text is split along the parts of a LIKE pattern. -/
inductive Fits : List Part → List Char → Prop where
  | done : Fits [] []
  | anyRun (w : List Char) {ps : List Part} {t : List Char} : Fits ps t →
      Fits (.anyRun :: ps) (w ++ t)
  | anyChar (c : Char) {ps : List Part} {t : List Char} : Fits ps t →
      Fits (.anyChar :: ps) (c :: t)
  | char {a c : Char} {ps : List Part} {t : List Char} : a.toLower = c.toLower → Fits ps t →
      Fits (.char a :: ps) (c :: t)

/-- A row tells from which ends of a text a property holds. -/
def Tells (P : List Char → Prop) (text : List Char) (row : List Bool) : Prop :=
  List.Forall₂ (fun t b => b = true ↔ P t) text.tails row

variable {P Q : List Char → Prop} {text : List Char} {row : List Bool}

theorem Tells.congr (h : Tells P text row) (hPQ : ∀ t, P t ↔ Q t) : Tells Q text row :=
  List.Forall₂.imp (fun t _ hb => hb.trans (hPQ t)) h

theorem tells_cons_iff {c : Char} :
    Tells P (c :: text) row ↔
      ∃ b rest, row = b :: rest ∧ (b = true ↔ P (c :: text)) ∧ Tells P text rest := by
  rw [Tells, List.tails_cons, List.forall₂_cons_left_iff]
  constructor
  · rintro ⟨b, rest, hb, hrest, rfl⟩
    exact ⟨b, rest, rfl, hb, hrest⟩
  · rintro ⟨b, rest, rfl, hb, hrest⟩
    exact ⟨b, rest, hb, hrest, rfl⟩

theorem tells_nil_iff : Tells P [] row ↔ ∃ b, row = [b] ∧ (b = true ↔ P []) := by
  change List.Forall₂ _ [[]] row ↔ _
  rw [List.forall₂_cons_left_iff]
  constructor
  · rintro ⟨b, rest, hb, hrest, rfl⟩
    cases hrest
    exact ⟨b, rfl, hb⟩
  · rintro ⟨b, rfl, hb⟩
    exact ⟨b, [], hb, .nil, rfl⟩

theorem Tells.headD_iff (h : Tells P text row) : row.headD false = true ↔ P text := by
  cases text with
  | nil =>
    obtain ⟨b, rfl, hb⟩ := tells_nil_iff.mp h
    exact hb
  | cons c text =>
    obtain ⟨b, rest, rfl, hb, -⟩ := tells_cons_iff.mp h
    exact hb

theorem Tells.any_iff (h : Tells P text row) :
    row.any id = true ↔ ∃ rest, rest <:+ text ∧ P rest := by
  induction text generalizing row with
  | nil =>
    obtain ⟨b, rfl, hb⟩ := tells_nil_iff.mp h
    simp [List.suffix_nil, hb]
  | cons c text ih =>
    obtain ⟨b, rest, rfl, hb, hrest⟩ := tells_cons_iff.mp h
    simp only [List.any_cons, id, Bool.or_eq_true, ih hrest, hb, List.suffix_cons_iff, or_and_right,
      exists_or, exists_eq_left]

theorem tells_emptyRow (text : List Char) : Tells (· = []) text (emptyRow text) := by
  induction text with
  | nil => exact tells_nil_iff.mpr ⟨true, rfl, by simp⟩
  | cons c text ih => exact tells_cons_iff.mpr ⟨false, _, rfl, by simp, ih⟩

theorem Tells.charRow (h : Tells P text row) (p : Char → Bool) :
    Tells (fun t => ∃ c rest, t = c :: rest ∧ p c = true ∧ P rest) text (charRow p text row) := by
  induction text generalizing row with
  | nil =>
    obtain ⟨b, rfl, hb⟩ := tells_nil_iff.mp h
    exact tells_nil_iff.mpr ⟨false, rfl, by simp⟩
  | cons c text ih =>
    obtain ⟨b, rest, rfl, hb, hrest⟩ := tells_cons_iff.mp h
    refine tells_cons_iff.mpr ⟨_, _, rfl, ?_, ih hrest⟩
    rw [Bool.and_eq_true, hrest.headD_iff]
    constructor
    · rintro ⟨hc, hp⟩
      exact ⟨c, text, rfl, hc, hp⟩
    · rintro ⟨_, _, ⟨⟩, hc, hp⟩
      exact ⟨hc, hp⟩

theorem Tells.runRow (h : Tells P text row) :
    Tells (fun t => ∃ rest, rest <:+ t ∧ P rest) text (runRow row) := by
  induction text generalizing row with
  | nil =>
    have hany := h.any_iff
    obtain ⟨b, rfl, hb⟩ := tells_nil_iff.mp h
    exact tells_nil_iff.mpr ⟨_, rfl, hany⟩
  | cons c text ih =>
    have hany := h.any_iff
    obtain ⟨b, rest, rfl, hb, hrest⟩ := tells_cons_iff.mp h
    exact tells_cons_iff.mpr ⟨_, _, rfl, hany, ih hrest⟩

theorem fits_nil_iff {t : List Char} : Fits [] t ↔ t = [] := by
  constructor
  · intro h
    cases h
    rfl
  · rintro rfl
    exact .done

theorem fits_anyRun_iff {ps : List Part} {t : List Char} :
    Fits (.anyRun :: ps) t ↔ ∃ rest, rest <:+ t ∧ Fits ps rest := by
  constructor
  · intro h
    cases h with
    | anyRun w hp => exact ⟨_, List.suffix_append _ _, hp⟩
  · rintro ⟨rest, ⟨w, rfl⟩, hp⟩
    exact .anyRun w hp

theorem fits_anyChar_iff {ps : List Part} {t : List Char} :
    Fits (.anyChar :: ps) t ↔ ∃ c rest, t = c :: rest ∧ Fits ps rest := by
  constructor
  · intro h
    cases h with
    | anyChar c hp => exact ⟨c, _, rfl, hp⟩
  · rintro ⟨c, rest, rfl, hp⟩
    exact .anyChar c hp

theorem fits_char_iff {a : Char} {ps : List Part} {t : List Char} :
    Fits (.char a :: ps) t ↔ ∃ c rest, t = c :: rest ∧ a.toLower = c.toLower ∧ Fits ps rest := by
  constructor
  · intro h
    cases h with
    | char hc hp => exact ⟨_, _, rfl, hc, hp⟩
  · rintro ⟨c, rest, rfl, hc, hp⟩
    exact .char hc hp

theorem tells_row (text : List Char) (ps : List Part) :
    Tells (Fits ps) text (Like.row text ps) := by
  induction ps with
  | nil => exact (tells_emptyRow text).congr fun t => fits_nil_iff.symm
  | cons part ps ih =>
    cases part with
    | anyRun => exact ih.runRow.congr fun t => fits_anyRun_iff.symm
    | anyChar => exact (ih.charRow _).congr fun t => by simp [fits_anyChar_iff]
    | char a => exact (ih.charRow _).congr fun t => by simp [fits_char_iff, sameLetter]

theorem matchParts_iff_fits (ps : List Part) (text : List Char) :
    matchParts ps text = true ↔ Fits ps text :=
  (tells_row text ps).headD_iff

/-! ## The parts of a translated pattern -/

/-- The part that a character of a wildcard pattern becomes. -/
def partOf (c : Char) : Part :=
  if c = '*' then .anyRun else if c = '?' then .anyChar else .char c

theorem parts?_likeChar_append (c : Char) (cs : List Char) :
    parts? (likeChar c ++ cs) = (parts? cs).map (partOf c :: ·) := by
  unfold likeChar partOf
  by_cases hstar : c = '*'
  · simp [hstar, parts?]
  · by_cases hone : c = '?'
    · simp [hone, parts?]
    · by_cases hspecial : c = '%' ∨ c = '_' ∨ c = '\\'
      · rcases hspecial with rfl | rfl | rfl <;> simp [parts?]
      · push Not at hspecial
        simp [hstar, hone, hspecial, parts?]

theorem parts?_flatMap_likeChar (p : List Char) :
    parts? (p.flatMap likeChar) = some (p.map partOf) := by
  induction p with
  | nil => rfl
  | cons c p ih => rw [List.flatMap_cons, parts?_likeChar_append, ih]; rfl

/-- A translated pattern selects the language of the pattern up to the case of letters. -/
theorem fits_map_partOf_iff {p t : List Char} :
    Fits (p.map partOf) t ↔ Matches (fun a c => a.toLower = c.toLower) p t := by
  induction p generalizing t with
  | nil => rw [List.map_nil, fits_nil_iff, matches_nil_iff]
  | cons a p ih =>
    by_cases hstar : a = '*'
    · subst hstar
      simp only [List.map_cons, partOf, if_true, fits_anyRun_iff, matches_star_iff, ih]
    · by_cases hone : a = '?'
      · subst hone
        simp only [List.map_cons, partOf, hstar, if_false, if_true, fits_anyChar_iff,
          matches_one_iff, ih]
      · simp only [List.map_cons, partOf, hstar, hone, if_false, fits_char_iff,
          matches_literal_iff hstar hone, ih]

/-! ## What is seen of a text -/

/-- A text without NUL characters, of which everything is seen. -/
def NulFree (s : String) : Prop := ∀ c ∈ s.toList, c.toNat ≠ 0

theorem nulFree_iff {s : String} : NulFree s ↔ s.toList.all (·.toNat != 0) = true := by
  simp [NulFree]

def look (c : Char) : Char :=
  if c.toNat == 0xFFFE || c.toNat == 0xFFFF then Char.ofNat 0xFFFD else c

/-- The characters that all look like the replacement character. -/
def Blurred (c : Char) : Prop := c.toNat = 0xFFFD ∨ c.toNat = 0xFFFE ∨ c.toNat = 0xFFFF

/-- Equality up to the case of ASCII letters, and among the blurred characters. -/
def SameChar (a c : Char) : Prop := a.toLower = c.toLower ∨ (Blurred a ∧ Blurred c)

theorem seen_eq {s : String} (hs : NulFree s) : seen s = s.toList.map look := by
  rw [seen, List.takeWhile_eq_self_iff.mpr (List.all_eq_true.mp (nulFree_iff.mp hs))]
  rfl

theorem look_of_blurred {c : Char} (h : Blurred c) : look c = Char.ofNat 0xFFFD := by
  unfold look
  split
  · rfl
  · rename_i hc
    simp only [Bool.or_eq_true, beq_iff_eq] at hc
    rw [← h.resolve_right hc, Char.ofNat_toNat]

theorem look_of_not_blurred {c : Char} (h : ¬ Blurred c) : look c = c := by
  unfold look
  rw [if_neg]
  simp only [Bool.or_eq_true, beq_iff_eq]
  exact fun hc => h (.inr hc)

theorem look_eq_iff {a : Char} (ha : a.toNat < 0xFFFD) (c : Char) : look c = a ↔ c = a := by
  by_cases hc : Blurred c
  · rw [look_of_blurred hc]
    constructor
    · rintro rfl
      exact absurd ha (by decide)
    · rintro rfl
      unfold Blurred at hc
      omega
  · rw [look_of_not_blurred hc]

def specials : List Char := ['*', '?', '%', '_', '\\']

theorem likeChar_of_not_mem {c : Char} (h : c ∉ specials) : likeChar c = [c] := by
  simp only [specials, List.mem_cons, List.not_mem_nil, or_false, not_or] at h
  simp [likeChar, h]

theorem likeChar_look (c : Char) : likeChar (look c) = (likeChar c).map look := by
  by_cases hc : c ∈ specials
  · simp only [specials, List.mem_cons, List.not_mem_nil, or_false] at hc
    rcases hc with rfl | rfl | rfl | rfl | rfl <;> rfl
  · have hlook : look c ∉ specials := by
      simp only [specials, List.mem_cons, List.not_mem_nil, or_false] at hc ⊢
      simpa (disch := decide) only [look_eq_iff] using hc
    rw [likeChar_of_not_mem hc, likeChar_of_not_mem hlook]
    rfl

theorem toLower_eq_iff {a : Char} (ha : 128 ≤ a.toNat) (c : Char) : c.toLower = a ↔ c = a := by
  unfold Char.toLower
  split
  · rename_i hc
    have hle : c.toNat ≤ 90 := hc.2
    constructor
    · rintro rfl
      have hlower : (c.val + 32).toNat = c.toNat + 32 := by
        have h32 : (32 : UInt32).toNat = 32 := rfl
        rw [UInt32.toNat_add, h32]
        exact Nat.mod_eq_of_lt (by change c.toNat + 32 < _; omega)
      change 128 ≤ (c.val + 32).toNat at ha
      omega
    · rintro rfl
      omega
  · rfl

theorem Blurred.toLower_ne {a c : Char} (ha : Blurred a) (hc : ¬ Blurred c) :
    c.toLower ≠ a.toLower := by
  have hle : 128 ≤ a.toNat := by
    unfold Blurred at ha
    omega
  rw [(toLower_eq_iff hle a).mpr rfl, Ne, toLower_eq_iff hle]
  rintro rfl
  exact hc ha

theorem toLower_look_iff {a c : Char} : (look a).toLower = (look c).toLower ↔ SameChar a c := by
  have hblur : Blurred (Char.ofNat 0xFFFD) := .inl rfl
  unfold SameChar
  by_cases ha : Blurred a <;> by_cases hc : Blurred c
  · simp [look_of_blurred, ha, hc]
  · simp only [look_of_blurred ha, look_of_not_blurred hc, (hblur.toLower_ne hc).symm,
      (ha.toLower_ne hc).symm, hc, and_false, or_self]
  · simp only [look_of_not_blurred ha, look_of_blurred hc, hblur.toLower_ne ha,
      hc.toLower_ne ha, ha, false_and, or_self]
  · simp [look_of_not_blurred, ha, hc]

/-- LIKE asks whether what is seen of the text can be split along the parts of what is seen of
the pattern. -/
theorem like_iff_fits (text pattern : String) :
    like text pattern = true ↔ ∃ ps, parts? (seen pattern) = some ps ∧ Fits ps (seen text) := by
  unfold like
  cases parts? (seen pattern) with
  | none => simp
  | some ps => simp [matchParts_iff_fits]

theorem ne_zero_of_mem_likeChar {a c : Char} (ha : a.toNat ≠ 0) (hc : c ∈ likeChar a) :
    c.toNat ≠ 0 := by
  by_cases hmem : a ∈ specials
  · have hspecial : (specials.flatMap likeChar).all (·.toNat != 0) = true := by decide
    simpa using List.all_eq_true.mp hspecial c (List.mem_flatMap.mpr ⟨a, hmem, hc⟩)
  · rw [likeChar_of_not_mem hmem, List.mem_singleton] at hc
    rwa [hc]

theorem seen_likeOfWildcard {p : String} (hp : NulFree p) :
    seen (likeOfWildcard p) = (p.toList.map look).flatMap likeChar := by
  rw [seen_eq, likeOfWildcard, String.toList_ofList, List.map_flatMap, List.flatMap_map]
  · simp only [likeChar_look]
  · intro c hc
    rw [likeOfWildcard, String.toList_ofList] at hc
    obtain ⟨a, ha, hc⟩ := List.mem_flatMap.mp hc
    exact ne_zero_of_mem_likeChar (hp a ha) hc

theorem like_likeOfWildcard_iff {p t : String} (hp : NulFree p) (ht : NulFree t) :
    like t (likeOfWildcard p) = true ↔ Matches SameChar p.toList t.toList := by
  rw [like_iff_fits, seen_likeOfWildcard hp, parts?_flatMap_likeChar, seen_eq ht]
  simp only [Option.some.injEq, exists_eq_left', fits_map_partOf_iff]
  rw [matches_map_iff (look_eq_iff (by decide)) (look_eq_iff (by decide))]
  simp only [toLower_look_iff]

theorem likeContaining_eq (s : String) :
    likeContaining s = likeOfWildcard (String.ofList ('*' :: s.toList ++ ['*'])) := by
  rw [← String.toList_inj]
  simp [likeContaining, likeOfWildcard, likeChar]

end Like

open Like in
/-- The LIKE pattern of a wildcard pattern selects the language of the pattern, and the one of
a text without wildcards selects the texts that contain it, where they are short enough. -/
theorem like_selects_language {t : String} (ht : NulFree t) :
    (∀ p, NulFree p → IsShort (likeOfWildcard p) →
      (like t (likeOfWildcard p) = true ↔ Matches SameChar p.toList t.toList)) ∧
    ∀ s, NulFree s → IsShort (likeContaining s) → hasWildcards s = false →
      (like t (likeContaining s) = true ↔
        ∃ piece, piece <:+: t.toList ∧ List.Forall₂ SameChar s.toList piece) := by
  refine ⟨fun p hp _ => like_likeOfWildcard_iff hp ht, fun s hs _ hliteral => ?_⟩
  have hpattern : NulFree (String.ofList ('*' :: s.toList ++ ['*'])) := by
    intro c hc
    simp only [String.toList_ofList, List.cons_append, List.mem_cons, List.mem_append,
      List.not_mem_nil, or_false] at hc
    rcases hc with rfl | hc | rfl
    · decide
    · exact hs c hc
    · decide
  rw [likeContaining_eq, like_likeOfWildcard_iff hpattern ht, String.toList_ofList]
  apply matches_between_stars_iff
  simpa [hasWildcards] using hliteral

open Like in
/-- A percent sign, an underscore and a backslash of a pattern stand for themselves. -/
theorem like_selects_escaped :
    NulFree "LN_%\\apply" ∧ NulFree "ln_%?A*" ∧ NulFree "_%\\a" ∧
    IsShort (likeOfWildcard "ln_%?A*") ∧ IsShort (likeContaining "_%\\a") ∧
    hasWildcards "_%\\a" = false ∧
    (like "LN_%\\apply" (likeOfWildcard "ln_%?A*") = true ↔
      Matches SameChar "ln_%?A*".toList "LN_%\\apply".toList) ∧
    (like "LN_%\\apply" (likeContaining "_%\\a") = true ↔
      ∃ piece, piece <:+: "LN_%\\apply".toList ∧
        List.Forall₂ SameChar "_%\\a".toList piece) := by
  have ht : NulFree "LN_%\\apply" := nulFree_iff.mpr (by decide +kernel)
  have hp : NulFree "ln_%?A*" := nulFree_iff.mpr (by decide +kernel)
  have hs : NulFree "_%\\a" := nulFree_iff.mpr (by decide +kernel)
  have hshort : IsShort (likeOfWildcard "ln_%?A*") := by decide +kernel
  have hshort' : IsShort (likeContaining "_%\\a") := by decide +kernel
  have hliteral : hasWildcards "_%\\a" = false := by decide +kernel
  obtain ⟨hwildcard, hcontaining⟩ := like_selects_language ht
  exact ⟨ht, hp, hs, hshort, hshort', hliteral, hwildcard _ hp hshort,
    hcontaining _ hs hshort' hliteral⟩

open Like in
/-- The two noncharacters at the end of the basic plane look the same, also in a pattern. -/
theorem like_blurs_noncharacters :
    NulFree "\uFFFF*" ∧ NulFree "\uFFFE" ∧ IsShort (likeOfWildcard "\uFFFF*") ∧
      like "\uFFFE" (likeOfWildcard "\uFFFF*") = true ∧
      ¬ Matches (fun a c => a.toLower = c.toLower) "\uFFFF*".toList "\uFFFE".toList := by
  have hp : "\uFFFF*".toList = ['\uFFFF', '*'] := by decide +kernel
  have ht : "\uFFFE".toList = ['\uFFFE'] := by decide +kernel
  refine ⟨nulFree_iff.mpr (by decide +kernel), nulFree_iff.mpr (by decide +kernel),
    by decide +kernel, by decide +kernel, ?_⟩
  rw [hp, ht, matches_literal_iff (by decide) (by decide)]
  rintro ⟨c, rest, ⟨⟩, hc, -⟩
  revert hc
  decide

end CodeAtlas
