import CodeAtlas.Pattern.Wildcard
import Mathlib.Data.List.Forall2
import Mathlib.Data.List.Infix

/-! # The language of a wildcard pattern

A text is in the language of a pattern when it can be split along it: a star gets any run of
characters, a question mark any one, and every other character one that counts as the same.
Which characters count as the same is left open, so that the language can be read exactly or
up to the case of letters.
-/

namespace CodeAtlas.Wildcard

/-- A text is split along a pattern. -/
inductive Matches (same : Char → Char → Prop) : List Char → List Char → Prop where
  | done : Matches same [] []
  | run (w : List Char) {p t : List Char} : Matches same p t → Matches same ('*' :: p) (w ++ t)
  | one (c : Char) {p t : List Char} : Matches same p t → Matches same ('?' :: p) (c :: t)
  | literal {a c : Char} {p t : List Char} : a ≠ '*' → a ≠ '?' → same a c → Matches same p t →
      Matches same (a :: p) (c :: t)

section

variable {same : Char → Char → Prop} {a : Char} {p t : List Char}

theorem matches_nil_iff : Matches same [] t ↔ t = [] := by
  constructor
  · intro h
    cases h
    rfl
  · rintro rfl
    exact .done

theorem matches_star_iff :
    Matches same ('*' :: p) t ↔ ∃ rest, rest <:+ t ∧ Matches same p rest := by
  constructor
  · intro h
    cases h with
    | run w hp => exact ⟨_, List.suffix_append _ _, hp⟩
    | literal ha => exact absurd rfl ha
  · rintro ⟨rest, ⟨w, rfl⟩, hp⟩
    exact .run w hp

theorem matches_one_iff :
    Matches same ('?' :: p) t ↔ ∃ c rest, t = c :: rest ∧ Matches same p rest := by
  constructor
  · intro h
    cases h with
    | one c hp => exact ⟨c, _, rfl, hp⟩
    | literal _ ha => exact absurd rfl ha
  · rintro ⟨c, rest, rfl, hp⟩
    exact .one c hp

theorem matches_literal_iff (hstar : a ≠ '*') (hone : a ≠ '?') :
    Matches same (a :: p) t ↔ ∃ c rest, t = c :: rest ∧ same a c ∧ Matches same p rest := by
  constructor
  · intro h
    cases h with
    | run => exact absurd rfl hstar
    | one => exact absurd rfl hone
    | literal _ _ hc hp => exact ⟨_, _, rfl, hc, hp⟩
  · rintro ⟨c, rest, rfl, hc, hp⟩
    exact .literal hstar hone hc hp

/-- A pattern that begins with a text without wildcards takes that text first. -/
theorem matches_append_iff {s : List Char} (hs : ∀ a ∈ s, a ≠ '*' ∧ a ≠ '?') :
    Matches same (s ++ p) t ↔
      ∃ piece rest, t = piece ++ rest ∧ List.Forall₂ same s piece ∧ Matches same p rest := by
  induction s generalizing t with
  | nil => simp
  | cons a s ih =>
    obtain ⟨⟨hstar, hone⟩, hs⟩ := List.forall_mem_cons.mp hs
    rw [List.cons_append, matches_literal_iff hstar hone]
    constructor
    · rintro ⟨c, rest, rfl, hc, hp⟩
      obtain ⟨piece, rest, rfl, hpiece, hp⟩ := (ih hs).mp hp
      exact ⟨c :: piece, rest, rfl, .cons hc hpiece, hp⟩
    · rintro ⟨_, rest, rfl, hpiece, hp⟩
      cases hpiece with
      | cons hc hpiece => exact ⟨_, _, rfl, hc, (ih hs).mpr ⟨_, rest, rfl, hpiece, hp⟩⟩

/-- A text is in the language of a text without wildcards between two stars when it contains
that text. -/
theorem matches_between_stars_iff {s : List Char} (hs : ∀ a ∈ s, a ≠ '*' ∧ a ≠ '?') :
    Matches same ('*' :: s ++ ['*']) t ↔
      ∃ piece, piece <:+: t ∧ List.Forall₂ same s piece := by
  rw [List.cons_append, matches_star_iff]
  constructor
  · rintro ⟨rest, ⟨before, rfl⟩, h⟩
    obtain ⟨piece, after, rfl, hpiece, -⟩ := (matches_append_iff hs).mp h
    exact ⟨piece, ⟨before, after, List.append_assoc ..⟩, hpiece⟩
  · rintro ⟨piece, ⟨before, after, rfl⟩, hpiece⟩
    refine ⟨piece ++ after, ⟨before, (List.append_assoc ..).symm⟩, ?_⟩
    have hafter : Matches same ['*'] after := by simpa using Matches.run after .done
    exact (matches_append_iff hs).mpr ⟨piece, after, rfl, hpiece, hafter⟩

/-- A text can be read through a map of characters that keeps and makes no wildcards. -/
theorem matches_map_iff {f : Char → Char} (hstar : ∀ a, f a = '*' ↔ a = '*')
    (hone : ∀ a, f a = '?' ↔ a = '?') :
    Matches same (p.map f) (t.map f) ↔ Matches (fun a c => same (f a) (f c)) p t := by
  induction p generalizing t with
  | nil => simp [matches_nil_iff]
  | cons a p ih =>
    rw [List.map_cons]
    by_cases ha : a = '*'
    · subst ha
      rw [(hstar '*').mpr rfl, matches_star_iff, matches_star_iff]
      constructor
      · rintro ⟨_, hsuffix, hp⟩
        obtain ⟨rest, hrest, rfl⟩ := List.suffix_map_iff.mp hsuffix
        exact ⟨rest, hrest, ih.mp hp⟩
      · rintro ⟨rest, hrest, hp⟩
        exact ⟨_, hrest.map f, ih.mpr hp⟩
    · by_cases ha' : a = '?'
      · subst ha'
        rw [(hone '?').mpr rfl, matches_one_iff, matches_one_iff]
        cases t with
        | nil => simp
        | cons c t => simp [ih]
      · rw [matches_literal_iff (mt (hstar a).mp ha) (mt (hone a).mp ha'),
          matches_literal_iff ha ha']
        cases t with
        | nil => simp
        | cons c t => simp [ih]

end

end CodeAtlas.Wildcard
