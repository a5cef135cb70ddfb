import CodeAtlas.Pattern.Wildcard
import Mathlib.Order.Nat

/-! # Positions of the matcher

The matcher told by positions: one in the pattern, one in the text, the last star and the
place where it resumes. Every read is one that can fail, and so is cutting off the front of
the pattern at the end. None ever fails. On a mismatch both positions go back, but then the
place where the star resumes has moved on, and it goes back itself only when a later star
takes over; so the matcher comes to an end, with the answer that it gives when it is told by
what is left of the pattern and the text.
-/

namespace CodeAtlas.Wildcard

/-- Where the matcher stands, by positions. -/
structure Cursor where
  pattern : Nat := 0
  text : Nat := 0
  /-- The last star that got a run. -/
  star : Option Nat := none
  /-- Where that run ends so far. -/
  resume : Nat := 0
  deriving Repr, DecidableEq

/-- What a move by positions comes to. -/
inductive Move where
  | next (c : Cursor)
  | done (answer : Bool)
  /-- A position outside the pattern or the text was read or cut at. -/
  | outOfRange
  deriving Repr, DecidableEq

namespace Cursor

def retry (c : Cursor) : Move :=
  match c.star with
  | some star => .next { c with pattern := star + 1, text := c.resume + 1, resume := c.resume + 1 }
  | none => .done false

/-- One move of the matcher on a pattern and a text. -/
def move (p t : List Char) (c : Cursor) : Move :=
  if c.text < t.length then
    if c.pattern < p.length then
      match p[c.pattern]?, t[c.text]? with
      | some a, some b =>
        if a == '?' || a == b then .next { c with pattern := c.pattern + 1, text := c.text + 1 }
        else if a == '*' then
          .next ⟨c.pattern + 1, c.text, some c.pattern, c.text⟩
        else c.retry
      | _, _ => .outOfRange
    else c.retry
  else if c.pattern ≤ p.length then .done ((p.drop c.pattern).all (· == '*'))
  else .outOfRange

/-- The matcher comes to a cursor in some number of moves. -/
inductive Reached (p t : List Char) : Nat → Cursor → Prop where
  | start : Reached p t 0 {}
  | next {n : Nat} {c c' : Cursor} : Reached p t n c → c.move p t = .next c' →
      Reached p t (n + 1) c'

/-- The positions lie in the pattern and the text, and those of the last star before the
present ones. -/
structure InRange (p t : List Char) (c : Cursor) : Prop where
  pattern : c.pattern ≤ p.length
  text : c.text ≤ t.length
  star : ∀ i, c.star = some i → i < c.pattern
  resume : c.resume ≤ c.text

/-- How far the last star is in the pattern, none counting as before its start. -/
def starred (c : Cursor) : Nat :=
  match c.star with
  | none => 0
  | some i => i + 1

/-- One cursor is further on than another: a later star got a run, or the same star gives
its run a later end, or the text is read further with the same run. -/
def Before (c c' : Cursor) : Prop :=
  c.starred < c'.starred ∨
    (c.starred = c'.starred ∧
      (c.resume < c'.resume ∨ (c.resume = c'.resume ∧ c.text < c'.text)))

/-- What is left of the pattern and the text at a cursor. -/
def state (p t : List Char) (c : Cursor) : State :=
  ⟨p.drop c.pattern, t.drop c.text, c.star.map fun i => (p.drop (i + 1), t.drop c.resume)⟩

section

variable {p t : List Char} {c c' : Cursor} {n : Nat}

/-! ## One move -/

/-- What one move comes to: it stays in range and goes on, or it gives an answer, and in
both cases what is left of the pattern and the text goes the same way. -/
def Keeps (p t : List Char) (c : Cursor) : Move → Prop
  | .next c' => c'.InRange p t ∧ c.Before c' ∧ (c.state p t).step = .next (c'.state p t)
  | .done answer => (c.state p t).step = .done answer
  | .outOfRange => False

theorem inRange_start (p t : List Char) : InRange p t {} where
  pattern := Nat.zero_le _
  text := Nat.zero_le _
  star i hi := by simp at hi
  resume := Nat.le_refl _

/-- On a mismatch inside the text the last star has a character left to take. -/
theorem InRange.retry (h : c.InRange p t) (htext : c.text < t.length)
    (hstep : (c.state p t).step = (c.state p t).retry) : c.Keeps p t c.retry := by
  have hresume : c.resume < t.length := Nat.lt_of_le_of_lt h.resume htext
  unfold Cursor.retry
  cases hstar : c.star with
  | none =>
    rw [Keeps, hstep, State.retry, state, hstar]
    rfl
  | some i =>
    refine ⟨⟨(h.star i hstar).trans_le h.pattern, hresume, ?_, Nat.le_refl _⟩, ?_, ?_⟩
    · intro j hj
      obtain rfl : i = j := Option.some.inj hj
      exact Nat.lt_succ_self i
    · exact .inr ⟨by simp [starred, hstar], .inl (Nat.lt_succ_of_le (Nat.le_refl _))⟩
    · rw [hstep, State.retry, state, state, hstar, Option.map_some,
        List.drop_eq_getElem_cons hresume]
      rfl

theorem InRange.starred_le (h : c.InRange p t) : c.starred ≤ c.pattern := by
  unfold starred
  split
  · exact Nat.zero_le _
  · exact h.star _ ‹_›

theorem InRange.take (h : c.InRange p t) (hpattern : c.pattern < p.length)
    (htext : c.text < t.length) : c.Keeps p t (c.move p t) := by
  have hp : p.drop c.pattern = p[c.pattern] :: p.drop (c.pattern + 1) :=
    List.drop_eq_getElem_cons hpattern
  have ht : t.drop c.text = t[c.text] :: t.drop (c.text + 1) := List.drop_eq_getElem_cons htext
  rw [Cursor.move, if_pos htext, if_pos hpattern, List.getElem?_eq_getElem hpattern,
    List.getElem?_eq_getElem htext]
  generalize p[c.pattern] = a at hp ⊢
  generalize t[c.text] = b at ht ⊢
  simp only
  split
  · rename_i htakes
    refine ⟨⟨hpattern, htext, ?_, ?_⟩, ?_, ?_⟩
    · exact fun i hi => Nat.lt_succ_of_lt (h.star i hi)
    · exact Nat.le_succ_of_le h.resume
    · exact .inr ⟨rfl, .inr ⟨rfl, Nat.lt_succ_self _⟩⟩
    · simp only [state, State.step, hp, ht, if_pos htakes]
  · rename_i htakes
    split
    · rename_i hstar
      refine ⟨⟨hpattern, htext.le, ?_, Nat.le_refl _⟩, ?_, ?_⟩
      · rintro i ⟨⟩
        exact Nat.lt_succ_self _
      · exact .inl (Nat.lt_succ_of_le h.starred_le)
      · simp only [state, State.step, hp, ht, if_neg htakes, if_pos hstar, Option.map_some]
    · rename_i hstar
      apply h.retry htext
      simp only [state, State.step, hp, ht, if_neg htakes, if_neg hstar]

theorem InRange.move (h : c.InRange p t) : c.Keeps p t (c.move p t) := by
  by_cases htext : c.text < t.length
  · by_cases hpattern : c.pattern < p.length
    · exact h.take hpattern htext
    · rw [Cursor.move, if_pos htext, if_neg hpattern]
      apply h.retry htext
      simp only [state, State.step, List.drop_eq_getElem_cons htext,
        List.drop_eq_nil_of_le (Nat.not_lt.mp hpattern)]
  · rw [Cursor.move, if_neg htext, if_pos h.pattern]
    simp only [Keeps, state, State.step, List.drop_eq_nil_of_le (Nat.not_lt.mp htext)]

theorem InRange.next (h : c.InRange p t) (hmove : c.move p t = .next c') :
    c'.InRange p t ∧ c.Before c' ∧ (c.state p t).step = .next (c'.state p t) := by
  have hkeeps := h.move
  rwa [hmove] at hkeeps

theorem InRange.step_of_done (h : c.InRange p t) {answer : Bool}
    (hmove : c.move p t = .done answer) : (c.state p t).step = .done answer := by
  have hkeeps := h.move
  rwa [hmove] at hkeeps

theorem InRange.move_ne_outOfRange (h : c.InRange p t) : c.move p t ≠ .outOfRange := by
  intro hmove
  have hkeeps := h.move
  rwa [hmove] at hkeeps

/-! ## A whole run -/

theorem Reached.inRange (h : Reached p t n c) : c.InRange p t := by
  induction h with
  | start => exact inRange_start p t
  | next _ hmove ih => exact (ih.next hmove).1

/-- A cursor as a number to the base of the places in the text: a later cursor is greater. -/
def rank (size : Nat) (c : Cursor) : Nat :=
  c.starred * ((size + 1) * (size + 1)) + c.resume * (size + 1) + c.text

theorem InRange.run_lt (h : c.InRange p t) :
    c.resume * (t.length + 1) + c.text < (t.length + 1) * (t.length + 1) := by
  have hresume : c.resume * (t.length + 1) ≤ t.length * (t.length + 1) :=
    Nat.mul_le_mul_right _ (h.resume.trans h.text)
  have htext := h.text
  rw [Nat.succ_mul]
  omega

theorem InRange.rank_lt (h : c.InRange p t) {stars : Nat} (hstars : c.starred < stars) :
    c.rank t.length < stars * ((t.length + 1) * (t.length + 1)) := by
  have hrun := h.run_lt
  have hmul : (c.starred + 1) * ((t.length + 1) * (t.length + 1)) ≤
      stars * ((t.length + 1) * (t.length + 1)) := Nat.mul_le_mul_right _ hstars
  rw [Nat.succ_mul] at hmul
  unfold rank
  omega

theorem InRange.rank_lt_all (h : c.InRange p t) :
    c.rank t.length < (p.length + 1) * ((t.length + 1) * (t.length + 1)) :=
  h.rank_lt (Nat.lt_succ_of_le (h.starred_le.trans h.pattern))

theorem Before.rank_lt (h : c.Before c') (hc : c.InRange p t) :
    c.rank t.length < c'.rank t.length := by
  rcases h with hstars | ⟨hstars, hresume | ⟨hresume, htext⟩⟩
  · refine (hc.rank_lt hstars).trans_le ?_
    rw [rank, Nat.add_assoc]
    exact Nat.le_add_right _ _
  · have hmul : (c.resume + 1) * (t.length + 1) ≤ c'.resume * (t.length + 1) :=
      Nat.mul_le_mul_right _ hresume
    have htext := hc.text
    rw [Nat.succ_mul] at hmul
    rw [rank, rank, hstars]
    omega
  · rw [rank, rank, hstars, hresume]
    omega

/-- Every move makes the cursor greater, so there are no more moves than cursors. -/
theorem Reached.le_rank (h : Reached p t n c) : n ≤ c.rank t.length := by
  induction h with
  | start => exact Nat.zero_le _
  | next hc hmove ih =>
    have hbefore := (hc.inRange.next hmove).2.1
    exact Nat.succ_le_of_lt (ih.trans_lt (hbefore.rank_lt hc.inRange))

theorem Reached.run_eq (h : Reached p t n c) (m : Nat) :
    run (n + m) ⟨p, t, none⟩ = run m (c.state p t) := by
  induction h generalizing m with
  | start => simp [state]
  | @next n c c' hc hmove ih =>
    rw [Nat.add_assoc, Nat.add_comm 1 m, ih, run, (hc.inRange.next hmove).2.2]

theorem Reached.exists_answer (h : Reached p t n c) :
    ∃ m c' answer, Reached p t m c' ∧ c'.move p t = .done answer := by
  -- Moves are left as long as the number of cursors is not used up.
  have hbound := h.le_rank.trans_lt h.inRange.rank_lt_all
  generalize hleft : (p.length + 1) * ((t.length + 1) * (t.length + 1)) - n = left
  induction left generalizing n c with
  | zero => omega
  | succ left ih =>
    cases hmove : c.move p t with
    | next c' =>
      have hnext := h.next hmove
      exact ih hnext (hnext.le_rank.trans_lt hnext.inRange.rank_lt_all) (by omega)
    | done answer => exact ⟨n, c, answer, h, hmove⟩
    | outOfRange => exact absurd hmove h.inRange.move_ne_outOfRange

/-- The answer by positions is the answer of the matcher, after the same moves. -/
theorem Reached.run_of_done (h : Reached p t n c) {answer : Bool}
    (hmove : c.move p t = .done answer) {m : Nat} (hm : n < m) :
    run m ⟨p, t, none⟩ = some answer := by
  obtain ⟨more, rfl⟩ := Nat.exists_eq_add_of_lt hm
  rw [Nat.add_assoc, h.run_eq, run, h.inRange.step_of_done hmove]

theorem Reached.lt_moveBound (h : Reached p t n c) : n < moveBound p t := by
  have hbound := h.le_rank.trans_lt h.inRange.rank_lt_all
  have hsquare : (t.length + 1) * (t.length + 1) ≤ (t.length + 2) * (t.length + 2) :=
    Nat.mul_le_mul (Nat.le_succ _) (Nat.le_succ _)
  have hmul := Nat.mul_le_mul_left (p.length + 1) hsquare
  rw [moveBound, Nat.mul_assoc]
  omega

end

end Cursor

end CodeAtlas.Wildcard

namespace CodeAtlas

open Wildcard in
/-- The matcher never reads or cuts outside the pattern and the text: wherever it stands, its
positions lie in them or at their ends. Every move makes a later star take over, or lets the
last star take more, or reads on, so it comes to an end, with the matcher's answer. -/
theorem wildcardMatch_stays_in_range (pattern text : String) :
    (∀ n c, Cursor.Reached pattern.toList text.toList n c →
      c.pattern ≤ pattern.toList.length ∧ c.text ≤ text.toList.length ∧
        c.move pattern.toList text.toList ≠ .outOfRange ∧
        ∀ c', c.move pattern.toList text.toList = .next c' → c.Before c') ∧
    ∃ n c, Cursor.Reached pattern.toList text.toList n c ∧
      n < (pattern.toList.length + 1) * ((text.toList.length + 1) * (text.toList.length + 1)) ∧
      c.move pattern.toList text.toList = .done (wildcardMatch pattern text) ∧
      run (n + 1) ⟨pattern.toList, text.toList, none⟩ = some (wildcardMatch pattern text) := by
  generalize hp : pattern.toList = p
  generalize ht : text.toList = t
  constructor
  · intro n c h
    have hrange := h.inRange
    exact ⟨hrange.pattern, hrange.text, hrange.move_ne_outOfRange,
      fun c' hmove => (hrange.next hmove).2.1⟩
  · obtain ⟨n, c, answer, h, hmove⟩ := (Cursor.Reached.start (p := p) (t := t)).exists_answer
    have hanswer : wildcardMatch pattern text = answer := by
      rw [wildcardMatch, matchChars, hp, ht, h.run_of_done hmove h.lt_moveBound, Option.getD_some]
    rw [hanswer]
    exact ⟨n, c, h, h.le_rank.trans_lt h.inRange.rank_lt_all, hmove,
      h.run_of_done hmove (Nat.lt_succ_self n)⟩

end CodeAtlas
