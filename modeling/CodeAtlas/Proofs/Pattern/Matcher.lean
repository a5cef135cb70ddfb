import CodeAtlas.Proofs.Pattern.Language
import Mathlib.Tactic.Linarith

/-! # What the matcher reads

The matcher returns only to the last star that it gave a run, and it tries a character of the
text against the pattern's before it looks for a star. That last star is enough: what an
earlier one could take, the last one can take as well. But a star of the text is taken by a
star of the pattern as if it were an ordinary character, and then that star gets nothing else.
So the matcher is exact on texts without stars, and on no others.
-/

namespace CodeAtlas.Wildcard

/-- How the matcher splits a text along a pattern: a star of the pattern that comes to stand
at a star of the text gets that one character. -/
inductive Reads : List Char → List Char → Prop where
  | done : Reads [] []
  | run {p t rest : List Char} : t.head? ≠ some '*' → rest <:+ t → Reads p rest →
      Reads ('*' :: p) t
  | star {p t : List Char} : Reads p t → Reads ('*' :: p) ('*' :: t)
  | one (c : Char) {p t : List Char} : Reads p t → Reads ('?' :: p) (c :: t)
  | literal {a : Char} {p t : List Char} : a ≠ '*' → a ≠ '?' → Reads p t →
      Reads (a :: p) (a :: t)

/-- A character of the pattern takes one of the text as it stands, without a run. -/
def Takes (a c : Char) : Prop := a = '?' ∨ a = c

section

variable {a c : Char} {p t u : List Char}

/-! ## The language of the matcher -/

theorem reads_nil_iff : Reads [] t ↔ t = [] := by
  constructor
  · intro h
    cases h
    rfl
  · rintro rfl
    exact .done

theorem reads_star_iff (ht : t.head? ≠ some '*') :
    Reads ('*' :: p) t ↔ ∃ rest, rest <:+ t ∧ Reads p rest := by
  constructor
  · intro h
    cases h with
    | run _ hrest hp => exact ⟨_, hrest, hp⟩
    | star => simp at ht
    | literal ha => exact absurd rfl ha
  · rintro ⟨rest, hrest, hp⟩
    exact .run ht hrest hp

theorem Takes.reads_iff (h : Takes a c) : Reads (a :: p) (c :: t) ↔ Reads p t := by
  constructor
  · intro hr
    cases hr with
    | run hhead => rcases h with h | rfl <;> simp_all
    | star hp | one _ hp | literal _ _ hp => exact hp
  · intro hp
    rcases h with rfl | rfl
    · exact .one c hp
    · by_cases hstar : a = '*'
      · subst hstar
        exact .star hp
      · by_cases hone : a = '?'
        · subst hone
          exact .one _ hp
        · exact .literal hstar hone hp

theorem not_reads_cons (h : ¬ Takes a c) (hstar : a ≠ '*') : ¬ Reads (a :: p) (c :: t) := by
  intro hr
  cases hr with
  | run => exact hstar rfl
  | star => exact hstar rfl
  | one => exact h (.inl rfl)
  | literal => exact h (.inr rfl)

theorem reads_nil_right_iff : Reads p [] ↔ p.all (· == '*') = true := by
  induction p with
  | nil => simp [reads_nil_iff]
  | cons a p ih =>
    rw [List.all_cons, Bool.and_eq_true, ← ih, beq_iff_eq]
    constructor
    · intro h
      cases h with
      | run _ hrest hp =>
        obtain rfl := List.suffix_nil.mp hrest
        exact ⟨rfl, hp⟩
    · rintro ⟨rfl, hp⟩
      exact .run (by simp) List.suffix_rfl hp

/-- What follows a character of the pattern is read at a later place of the text. -/
theorem Reads.tail (h : Reads (a :: p) t) : ∃ rest, rest <:+ t ∧ Reads p rest := by
  cases h with
  | run _ hrest hp => exact ⟨_, hrest, hp⟩
  | star hp | one _ hp | literal _ _ hp => exact ⟨_, List.suffix_cons _ _, hp⟩

/-- What an earlier star could give away after a part of the pattern that was read without a
run, the star after that part can give away too. -/
theorem exists_reads_of_takes {part read : List Char} (hpart : List.Forall₂ Takes part read)
    (hu : u <:+ read ++ t) (h : Reads (part ++ p) u) : ∃ rest, rest <:+ t ∧ Reads p rest := by
  induction hpart generalizing u with
  | nil => exact ⟨u, hu, h⟩
  | cons htakes _ ih =>
    -- At the same place as before the same character is read. At a later place a star of the
    -- part may now be left empty, which brings the reading back by no more than it is ahead.
    rcases List.suffix_cons_iff.mp hu with rfl | hu
    · exact ih List.suffix_rfl (htakes.reads_iff.mp h)
    · obtain ⟨rest, hrest, hr⟩ := Reads.tail h
      exact ih (hrest.trans hu) hr

/-! ## Against the whole language -/

theorem Reads.matches (h : Reads p t) : Matches Eq p t := by
  induction h with
  | done => exact .done
  | run _ hrest _ ih => exact matches_star_iff.mpr ⟨_, hrest, ih⟩
  | star _ ih => exact .run ['*'] ih
  | one c _ ih => exact .one c ih
  | literal hstar hone _ ih => exact .literal hstar hone rfl ih

theorem Matches.reads (h : Matches Eq p t) (hfree : '*' ∈ p → '*' ∉ t) : Reads p t := by
  induction h with
  | done => exact .done
  | run w _ ih =>
    have ht := hfree List.mem_cons_self
    refine .run ?_ (List.suffix_append w _) (ih fun _ hm => ht (List.mem_append_right w hm))
    exact fun hhead => ht (List.mem_of_mem_head? hhead)
  | one c _ ih =>
    exact .one c (ih fun hp hm => hfree (List.mem_cons_of_mem _ hp) (List.mem_cons_of_mem c hm))
  | literal hstar hone hc _ ih =>
    subst hc
    refine .literal hstar hone (ih fun hp hm => ?_)
    exact hfree (List.mem_cons_of_mem _ hp) (List.mem_cons_of_mem _ hm)

theorem matches_replicate_one : Matches Eq (List.replicate t.length '?') t := by
  induction t with
  | nil => exact .done
  | cons c t ih => exact .one c ih

theorem not_reads_replicate_one {n : Nat} (hn : t.length < n) :
    ¬ Reads (List.replicate n '?') t := by
  induction n generalizing t with
  | zero => simp at hn
  | succ n ih =>
    intro h
    cases h with
    | one c hp => exact ih (by simpa using hn) hp
    | literal _ hone => exact hone rfl

/-- A text with a star is in the language of a pattern that the matcher cannot read it by:
the pattern's star is to be left empty, but takes the star of the text. -/
theorem exists_pattern_not_reads (ht : '*' ∈ t) : ∃ p, Matches Eq p t ∧ ¬ Reads p t := by
  induction t with
  | nil => simp at ht
  | cons c t ih =>
    by_cases hc : c = '*'
    · subst hc
      refine ⟨'*' :: List.replicate (t.length + 1) '?', ?_, ?_⟩
      · exact .run [] (matches_replicate_one (t := '*' :: t))
      · rw [Takes.reads_iff (.inr rfl)]
        exact not_reads_replicate_one (by simp)
    · obtain ⟨p, hm, hr⟩ := ih (by simpa [Ne.symm hc] using ht)
      refine ⟨'?' :: p, .one c hm, ?_⟩
      rwa [Takes.reads_iff (.inl rfl)]

theorem Matches.cons_self (h : Matches Eq p t) (ha : a ≠ '*') : Matches Eq (a :: p) (a :: t) := by
  by_cases hone : a = '?'
  · subst hone
    exact .one _ h
  · exact .literal ha hone rfl h

theorem matches_filter_ne_star : Matches Eq p (p.filter (· != '*')) := by
  induction p with
  | nil => exact .done
  | cons a p ih =>
    by_cases hstar : a = '*'
    · subst hstar
      exact .run [] ih
    · rw [List.filter_cons_of_pos (by simpa using hstar)]
      exact ih.cons_self hstar

theorem Reads.length_le {n : Nat} (h : Reads p (List.replicate n '*' ++ t)) : n ≤ p.length := by
  induction n generalizing p with
  | zero => exact Nat.zero_le _
  | succ n ih =>
    rw [List.replicate_succ, List.cons_append] at h
    cases h with
    | run hhead => simp at hhead
    | star hp | one _ hp => exact Nat.succ_le_succ (ih hp)
    | literal hstar => exact absurd rfl hstar

/-- A pattern with a star has in its language a text that the matcher cannot read: there the
star stands before more stars than the pattern has characters. -/
theorem exists_text_not_reads (hp : '*' ∈ p) : ∃ t, Matches Eq p t ∧ ¬ Reads p t := by
  induction p with
  | nil => simp at hp
  | cons a p ih =>
    by_cases hstar : a = '*'
    · subst hstar
      refine ⟨_, .run (List.replicate (p.length + 2) '*') matches_filter_ne_star, fun h => ?_⟩
      have hlength := h.length_le
      simp at hlength
    · obtain ⟨t, hm, hr⟩ := ih (by simpa [Ne.symm hstar] using hp)
      refine ⟨a :: t, hm.cons_self hstar, ?_⟩
      rwa [Takes.reads_iff (.inr rfl)]

end

/-! ## One move and a whole run -/

namespace State

variable {size : Nat} {s : State} {p t : List Char}

/-- What a state can still lead to: the rest of the pattern reads the rest of the text, or it
does so after the last star has taken more. -/
def Accepts (s : State) : Prop :=
  Reads s.pattern s.text ∨
    ∃ p c t rest, s.resume = some (p, c :: t) ∧ rest <:+ t ∧ Reads p rest

/-- The matcher stands in a text of some size, and since the last star it has read without a
run. -/
structure Sound (size : Nat) (s : State) : Prop where
  length : s.text.length ≤ size
  resumed : ∀ p t, s.resume = some (p, t) → t.length ≤ size ∧
    ∃ part read, p = part ++ s.pattern ∧ t = read ++ s.text ∧ List.Forall₂ Takes part read

/-- Moves that are left: a new star, then a new place for it, then one more character. -/
def weight (size : Nat) (s : State) : Nat :=
  match s.resume with
  | none => s.pattern.length * ((size + 2) * (size + 2)) + s.text.length + 1
  | some (p, t) =>
    p.length * ((size + 2) * (size + 2)) + t.length * (size + 2) + s.text.length + 1

/-- What one move keeps, and what it uses up. -/
structure Progress (size : Nat) (s s' : State) : Prop where
  sound : s'.Sound size
  weight_lt : s'.weight size < s.weight size
  accepts_iff : s'.Accepts ↔ s.Accepts

theorem sound_resumed (ht : t.length ≤ size) : Sound size ⟨p, t, some (p, t)⟩ := by
  refine ⟨ht, ?_⟩
  rintro q u ⟨⟩
  exact ⟨ht, [], [], rfl, rfl, .nil⟩

theorem Sound.take {a c : Char} {resume : Option (List Char × List Char)}
    (h : Sound size ⟨a :: p, c :: t, resume⟩) (htakes : Takes a c) :
    Progress size ⟨a :: p, c :: t, resume⟩ ⟨p, t, resume⟩ := by
  constructor
  · refine ⟨(Nat.le_succ _).trans h.length, ?_⟩
    intro q u hq
    obtain ⟨hsize, part, read, rfl, rfl, hpart⟩ := h.resumed q u hq
    refine ⟨hsize, part ++ [a], read ++ [c], by simp, by simp, ?_⟩
    exact List.rel_append hpart (.cons htakes .nil)
  · cases resume with
    | none =>
      have hp : p.length * ((size + 2) * (size + 2)) ≤
          (a :: p).length * ((size + 2) * (size + 2)) :=
        Nat.mul_le_mul_right _ (by simp)
      simp only [weight, List.length_cons] at hp ⊢
      omega
    | some r => simp [weight]
  · simp only [Accepts, htakes.reads_iff]

/-- A state that has just come to a star, or returned to it, can put it before any rest. -/
theorem accepts_resumed_iff :
    Accepts ⟨p, t, some (p, t)⟩ ↔ ∃ rest, rest <:+ t ∧ Reads p rest := by
  constructor
  · rintro (h | ⟨q, c, u, rest, ⟨⟩, hrest, h⟩)
    · exact ⟨t, List.suffix_rfl, h⟩
    · exact ⟨rest, hrest.trans (List.suffix_cons _ _), h⟩
  · rintro ⟨rest, hrest, h⟩
    cases t with
    | nil =>
      obtain rfl := List.suffix_nil.mp hrest
      exact .inl h
    | cons c t =>
      rcases List.suffix_cons_iff.mp hrest with rfl | hrest
      · exact .inl h
      · exact .inr ⟨p, c, t, rest, rfl, hrest, h⟩

theorem Sound.exists_reads (h : s.Sound size) (ha : s.Accepts) :
    ∃ rest, rest <:+ s.text ∧ Reads s.pattern rest := by
  rcases ha with ha | ⟨p, c, t, rest, hresume, hrest, ha⟩
  · exact ⟨s.text, List.suffix_rfl, ha⟩
  · obtain ⟨-, part, read, rfl, ht, hpart⟩ := h.resumed _ _ hresume
    refine exists_reads_of_takes hpart ?_ ha
    rw [← ht]
    exact hrest.trans (List.suffix_cons _ _)

theorem weight_resumed_le (ht : t.length ≤ size) :
    weight size ⟨p, t, some (p, t)⟩ ≤ (p.length + 1) * ((size + 2) * (size + 2)) := by
  have hle : t.length * (size + 2) ≤ size * (size + 2) := Nat.mul_le_mul_right _ ht
  simp only [weight]
  linarith

theorem Sound.lt_weight {c : Char} (h : s.Sound size) (hp : s.pattern = c :: p) :
    (p.length + 1) * ((size + 2) * (size + 2)) < s.weight size := by
  obtain ⟨pattern, text, resume⟩ := s
  subst hp
  cases resume with
  | none =>
    simp only [weight, List.length_cons]
    omega
  | some r =>
    obtain ⟨-, part, read, hq, -, -⟩ := h.resumed r.1 r.2 rfl
    have hlength : p.length + 1 ≤ r.1.length := by simp [hq]
    have hle := Nat.mul_le_mul_right ((size + 2) * (size + 2)) hlength
    simp only [weight]
    omega

theorem Sound.star {c : Char} {resume : Option (List Char × List Char)}
    (h : Sound size ⟨'*' :: p, c :: t, resume⟩) (hc : c ≠ '*') :
    Progress size ⟨'*' :: p, c :: t, resume⟩ ⟨p, c :: t, some (p, c :: t)⟩ := by
  have hhead : (c :: t).head? ≠ some '*' := by simpa using hc
  constructor
  · exact sound_resumed h.length
  · exact (weight_resumed_le h.length).trans_lt (h.lt_weight rfl)
  · rw [accepts_resumed_iff, ← reads_star_iff hhead]
    constructor
    · exact .inl
    · -- The earlier star is given up here: whatever it could lead to, this star can.
      intro ha
      obtain ⟨rest, hrest, hr⟩ := h.exists_reads ha
      obtain ⟨rest', hrest', hr'⟩ := Reads.tail hr
      exact (reads_star_iff hhead).mpr ⟨rest', hrest'.trans hrest, hr'⟩

/-- What a move comes to: progress, or the answer. -/
def Settles (size : Nat) (s : State) : Step → Prop
  | .next s' => Progress size s s'
  | .done answer => answer = true ↔ s.Accepts

theorem Sound.retry (h : s.Sound size) (hread : ¬ Reads s.pattern s.text) :
    Settles size s s.retry := by
  obtain ⟨pattern, text, resume⟩ := s
  match resume with
  | none => simpa [State.retry, Settles, Accepts] using hread
  | some (p, []) => simpa [State.retry, Settles, Accepts] using hread
  | some (p, c :: t) =>
    have hlength : t.length ≤ size := (Nat.le_succ _).trans (h.resumed _ _ rfl).1
    constructor
    · exact sound_resumed hlength
    · simp only [weight, List.length_cons, Nat.add_mul, Nat.one_mul]
      omega
    · rw [accepts_resumed_iff]
      constructor
      · rintro ⟨rest, hrest, hr⟩
        exact .inr ⟨p, c, t, rest, rfl, hrest, hr⟩
      · rintro (hr | ⟨_, _, _, rest, ⟨⟩, hrest, hr⟩)
        · exact absurd hr hread
        · exact ⟨rest, hrest, hr⟩

theorem Sound.finish {resume : Option (List Char × List Char)}
    (h : Sound size ⟨p, [], resume⟩) :
    p.all (· == '*') = true ↔ Accepts ⟨p, [], resume⟩ := by
  rw [← reads_nil_right_iff]
  constructor
  · exact .inl
  · intro ha
    obtain ⟨rest, hrest, hr⟩ := h.exists_reads ha
    obtain rfl := List.suffix_nil.mp hrest
    exact hr

theorem Sound.step (h : s.Sound size) : Settles size s s.step := by
  obtain ⟨pattern, text, resume⟩ := s
  match text, pattern with
  | [], pattern => exact h.finish
  | c :: t, [] => exact h.retry (by simp [reads_nil_iff])
  | c :: t, a :: p =>
    simp only [State.step, Bool.or_eq_true, beq_iff_eq]
    split
    · exact h.take ‹_›
    · split
      · subst a
        exact h.star fun hc => ‹¬ ('*' = '?' ∨ '*' = c)› (.inr hc.symm)
      · exact h.retry (not_reads_cons ‹_› ‹_›)

theorem weight_pos : 0 < s.weight size := by
  unfold weight
  split <;> exact Nat.succ_pos _

end State

theorem run_eq_some {size : Nat} (n : Nat) {s : State} (h : s.Sound size)
    (hn : s.weight size ≤ n) : ∃ answer, run n s = some answer ∧ (answer = true ↔ s.Accepts) := by
  induction n generalizing s with
  | zero => exact absurd hn (Nat.not_le.mpr State.weight_pos)
  | succ n ih =>
    have hstep := h.step
    rw [run]
    cases hs : s.step with
    | done answer =>
      rw [hs] at hstep
      exact ⟨answer, rfl, hstep⟩
    | next s' =>
      rw [hs] at hstep
      obtain ⟨answer, hrun, hanswer⟩ := ih hstep.sound (by have := hstep.weight_lt; omega)
      exact ⟨answer, hrun, hanswer.trans hstep.accepts_iff⟩

theorem matchChars_iff_reads (p t : List Char) : matchChars p t = true ↔ Reads p t := by
  have hsound : State.Sound t.length ⟨p, t, none⟩ := ⟨le_rfl, by simp⟩
  have hweight : State.weight t.length ⟨p, t, none⟩ ≤ moveBound p t := by
    simp only [State.weight, moveBound, Nat.add_mul, Nat.mul_assoc]
    have : t.length ≤ 1 * ((t.length + 2) * (t.length + 2)) := by nlinarith
    omega
  obtain ⟨answer, hrun, hanswer⟩ := run_eq_some _ hsound hweight
  rw [matchChars, hrun, Option.getD_some, hanswer]
  simp [State.Accepts]

theorem matchChars_iff_matches {p t : List Char} (hfree : '*' ∈ p → '*' ∉ t) :
    matchChars p t = true ↔ Matches Eq p t := by
  rw [matchChars_iff_reads]
  exact ⟨Reads.matches, fun h => h.reads hfree⟩

end CodeAtlas.Wildcard

namespace CodeAtlas

open Wildcard in
/-- The matcher splits a text along a pattern, but a star of the pattern that stands at a star
of the text gets that one character. What it accepts is in the language of the pattern. It
accepts a text by all patterns that have it in their language just when the text has no star,
and all of the language of a pattern just when the pattern has none. -/
theorem wildcardMatch_reads_stars_literally (pattern text : String) :
    (wildcardMatch pattern text = true ↔ Reads pattern.toList text.toList) ∧
    (wildcardMatch pattern text = true → Matches Eq pattern.toList text.toList) ∧
    ((∀ p : String, Matches Eq p.toList text.toList → wildcardMatch p text = true) ↔
      '*' ∉ text.toList) ∧
    ((∀ t : String, Matches Eq pattern.toList t.toList → wildcardMatch pattern t = true) ↔
      '*' ∉ pattern.toList) := by
  have hreads := matchChars_iff_reads pattern.toList text.toList
  refine ⟨hreads, fun h => (hreads.mp h).matches, ⟨?_, ?_⟩, ⟨?_, ?_⟩⟩
  · intro h hstar
    obtain ⟨p, hm, hr⟩ := exists_pattern_not_reads hstar
    have hmatch := h (String.ofList p) (by simpa using hm)
    rw [wildcardMatch, matchChars_iff_reads, String.toList_ofList] at hmatch
    exact hr hmatch
  · intro h p hm
    exact (matchChars_iff_matches fun _ => h).mpr hm
  · intro h hstar
    obtain ⟨t, hm, hr⟩ := exists_text_not_reads hstar
    have hmatch := h (String.ofList t) (by simpa using hm)
    rw [wildcardMatch, matchChars_iff_reads, String.toList_ofList] at hmatch
    exact hr hmatch
  · intro h t hm
    exact (matchChars_iff_matches fun hstar => absurd hstar h).mpr hm

open Wildcard in
/-- A star alone does not match two stars: it gets the first, and nothing gets the second. -/
theorem wildcardMatch_misses_second_star :
    Matches Eq "*".toList "**".toList ∧ wildcardMatch "*" "**" = false :=
  ⟨.run ['*', '*'] .done, by decide +kernel⟩

end CodeAtlas
