import CodeAtlas.Text.Blank
import Mathlib.Data.List.Infix

/-! # Parts of texts

The tests on the front and the end of a text decide whether its characters begin or end in
those of another one, and splitting a text at some of its characters is the splitting of lists.
-/

namespace CodeAtlas

namespace Text

theorem afterPrefix?_append (start rest : List Char) :
    afterPrefix? start (start ++ rest) = some rest := by
  induction start with
  | nil => rfl
  | cons a start ih => simp [afterPrefix?, ih]

theorem prefix_of_afterPrefix? {start cs rest : List Char} (h : afterPrefix? start cs = some rest) :
    start <+: cs := by
  fun_induction afterPrefix? start cs with
  | case1 cs => exact List.nil_prefix
  | case2 => cases h
  | case3 a start c cs hac ih => exact List.cons_prefix_cons.mpr ⟨by simpa using hac, ih h⟩
  | case4 => cases h

theorem afterPrefix?_eq_none {start cs : List Char} (h : ¬start <+: cs) :
    afterPrefix? start cs = none := by
  cases hrest : afterPrefix? start cs with
  | none => rfl
  | some rest => exact absurd (prefix_of_afterPrefix? hrest) h

theorem beginsWith_eq_true_iff {s start : String} :
    beginsWith s start = true ↔ start.toList <+: s.toList := by
  constructor
  · intro h
    obtain ⟨rest, hrest⟩ := Option.isSome_iff_exists.mp h
    exact prefix_of_afterPrefix? hrest
  · rintro ⟨rest, hrest⟩
    rw [beginsWith, ← hrest, afterPrefix?_append]
    rfl

theorem finishesWith_eq_true_iff {s stop : String} :
    finishesWith s stop = true ↔ stop.toList <:+ s.toList := by
  rw [← List.reverse_prefix, finishesWith]
  constructor
  · intro h
    obtain ⟨rest, hrest⟩ := Option.isSome_iff_exists.mp h
    exact prefix_of_afterPrefix? hrest
  · rintro ⟨rest, hrest⟩
    rw [← hrest, afterPrefix?_append]
    rfl

theorem splitBy_eq_splitOnP (p : Char → Bool) (cs : List Char) : splitBy p cs = cs.splitOnP p := by
  induction cs with
  | nil => rfl
  | cons c cs ih =>
    rw [splitBy, List.splitOnP_cons_eq_if_modifyHead, ih]
    by_cases hc : p c = true
    · rw [if_pos hc, if_pos hc]
    · rw [if_neg hc, if_neg hc]
      cases hs : cs.splitOnP p with
      | nil => exact absurd hs (List.splitOnP_ne_nil _ _)
      | cons w ws => rfl

theorem splitBy_ne_nil (p : Char → Bool) (cs : List Char) : splitBy p cs ≠ [] := by
  rw [splitBy_eq_splitOnP]
  exact List.splitOnP_ne_nil _ _

theorem headD_splitBy (p : Char → Bool) (cs : List Char) :
    (splitBy p cs).headD [] = cs.takeWhile fun c => !p c := by
  induction cs with
  | nil => rfl
  | cons c cs ih =>
    rw [splitBy, List.takeWhile_cons, ← ih]
    cases p c with
    | true => rfl
    | false => cases splitBy p cs <;> rfl

section LastSeparator

variable {mark : Char} {front rest : List Char}

theorem ne_of_mem_reverse (h : mark ∉ rest) : ∀ c ∈ rest.reverse, (c != mark) = true := by
  intro c hc
  simpa using fun he : c = mark => h (he ▸ List.mem_reverse.mp hc)

theorem takeWhile_reverse_append (h : mark ∉ rest) :
    (front ++ mark :: rest).reverse.takeWhile (· != mark) = rest.reverse := by
  rw [List.reverse_append, List.reverse_cons, List.append_assoc,
    List.takeWhile_append_of_pos (ne_of_mem_reverse h)]
  simp

theorem dropWhile_reverse_append (h : mark ∉ rest) :
    (front ++ mark :: rest).reverse.dropWhile (· != mark) = mark :: front.reverse := by
  rw [List.reverse_append, List.reverse_cons, List.append_assoc,
    List.dropWhile_append_of_pos (ne_of_mem_reverse h)]
  simp

end LastSeparator

theorem splitBy_of_forall {p : Char → Bool} {word : List Char} (h : ∀ c ∈ word, p c = false) :
    splitBy p word = [word] := by
  rw [splitBy_eq_splitOnP, List.splitOnP_eq_singleton h]

theorem splitBy_append_cons {p : Char → Bool} {w : List Char} (hw : ∀ c ∈ w, p c = false)
    {c : Char} (hc : p c = true) (rest : List Char) :
    splitBy p (w ++ c :: rest) = w :: splitBy p rest := by
  induction w with
  | nil => simp [splitBy, hc]
  | cons a w ih =>
    have ha : p a = false := hw a List.mem_cons_self
    have ih := ih fun c hc => hw c (List.mem_cons_of_mem _ hc)
    simp [splitBy, ha, ih]

end Text

end CodeAtlas
