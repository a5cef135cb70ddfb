import CodeAtlas.Java.Outline
import CodeAtlas.Proofs.Text.Parts

/-! # Quoted text

A string, a text block and a character literal have the same delimiter on both sides. Inside,
a backslash escapes the character after it or opens an embedded expression, and the delimiter
does not stand by itself. Removing every delimiter from the two ends gives the contents, with
one exception: where the contents end in an escaped quote, and the delimiter is one quote, that
quote goes too.
-/

namespace CodeAtlas

namespace Text

theorem dropMarks_append (mark cs : List Char) (fuel : Nat) :
    dropMarks mark (mark ++ cs) (fuel + 1) = dropMarks mark cs fuel := by
  rw [dropMarks, afterPrefix?_append]

theorem dropMarks_eq_self {mark cs : List Char} (h : ¬mark <+: cs) (fuel : Nat) :
    dropMarks mark cs fuel = cs := by
  cases fuel with
  | zero => rfl
  | succ fuel => rw [dropMarks, afterPrefix?_eq_none h]

end Text

namespace Java

open Text

/-- What stands on both sides of a literal. -/
inductive Delimiter where
  | quote
  | quotes
  | tick
  deriving DecidableEq

namespace Delimiter

def chars : Delimiter → List Char
  | .quote => ['"']
  | .quotes => ['"', '"', '"']
  | .tick => [Char.ofNat 39]

def kind : Delimiter → Kind
  | .quote | .quotes => .stringLiteral
  | .tick => .characterLiteral

def around (d : Delimiter) (c : List Char) : List Char := d.chars ++ c ++ d.chars

/-- The contents of a literal as they are kept: a quote at their end that is one delimiter by
itself is lost. -/
def kept (d : Delimiter) (c : List Char) : List Char := if d.chars <:+ c then c.dropLast else c

theorem backslash_not_mem (d : Delimiter) : '\\' ∉ d.chars := by
  cases d <;> decide

theorem brace_not_mem (d : Delimiter) : '\x7d' ∉ d.chars := by
  cases d <;> decide

theorem chars_ne_nil (d : Delimiter) : d.chars ≠ [] := by
  cases d <;> decide

theorem length_chars_pos (d : Delimiter) : 0 < d.chars.length :=
  List.length_pos_iff.mpr d.chars_ne_nil

theorem not_prefix_backslash (d : Delimiter) (cs : List Char) : ¬d.chars <+: '\\' :: cs := by
  intro h
  rcases List.prefix_cons_iff.mp h with h | ⟨t, h, _⟩
  · exact d.chars_ne_nil h
  · exact d.backslash_not_mem (h ▸ List.mem_cons_self)

end Delimiter

/-- The texts that may stand between two delimiters. -/
inductive Contents (d : Delimiter) : List Char → Prop
  | nil : Contents d []
  | char {c : Char} {cs : List Char} : c ≠ '\\' → ¬d.chars <+: c :: (cs ++ d.chars) →
      Contents d cs → Contents d (c :: cs)
  | escape {c : Char} {cs : List Char} : Contents d cs → Contents d ('\\' :: c :: cs)
  | embedded {e cs : List Char} : Contents d cs →
      Contents d ('\\' :: '\x7b' :: (e ++ '\x7d' :: cs))

namespace Contents

variable {d : Delimiter} {c : List Char}

theorem not_begins (h : Contents d c) (hne : c ≠ []) : ¬d.chars <+: c ++ d.chars := by
  cases h with
  | nil => exact absurd rfl hne
  | char _ hc _ => exact hc
  | escape => exact d.not_prefix_backslash _
  | embedded => exact d.not_prefix_backslash _

theorem escaped_of_suffix (h : Contents d c) (hsuffix : d.chars <:+ c) :
    (∃ x, c = x ++ '\\' :: d.chars) ∧ Contents d d.chars.tail := by
  induction h with
  | nil => exact absurd (List.suffix_nil.mp hsuffix) d.chars_ne_nil
  | @char c cs _ hc _ ih =>
    rcases List.suffix_cons_iff.mp hsuffix with heq | hsuffix
    · refine absurd ?_ hc
      rw [← List.cons_append, ← heq]
      exact List.prefix_append _ _
    · obtain ⟨⟨x, rfl⟩, htail⟩ := ih hsuffix
      exact ⟨⟨c :: x, rfl⟩, htail⟩
  | @escape c cs hcs ih =>
    rcases List.suffix_cons_iff.mp hsuffix with heq | hsuffix
    · exact absurd (heq ▸ List.mem_cons_self) d.backslash_not_mem
    -- The delimiter begins with the escaped character, or after it.
    rcases List.suffix_cons_iff.mp hsuffix with heq | hsuffix
    · refine ⟨⟨[], by rw [heq]; rfl⟩, ?_⟩
      rwa [heq]
    · obtain ⟨⟨x, rfl⟩, htail⟩ := ih hsuffix
      exact ⟨⟨'\\' :: c :: x, rfl⟩, htail⟩
  | @embedded e cs _ ih =>
    -- No delimiter has a brace in it, so this one begins after the expression.
    have hcs : d.chars <:+ cs := by
      rw [← List.cons_append, ← List.cons_append] at hsuffix
      rcases List.suffix_or_suffix_of_suffix hsuffix (List.suffix_append _ ('\x7d' :: cs))
        with h | h
      · rcases List.suffix_cons_iff.mp h with heq | h
        · exact absurd (heq ▸ List.mem_cons_self) d.brace_not_mem
        · exact h
      · exact absurd (h.subset List.mem_cons_self) d.brace_not_mem
    obtain ⟨⟨x, rfl⟩, htail⟩ := ih hcs
    exact ⟨⟨'\\' :: '\x7b' :: (e ++ '\x7d' :: x), by simp⟩, htail⟩

/-- A text block does not end in its delimiter, and other contents lose one quote with it. -/
theorem exists_of_suffix (h : Contents d c) (hsuffix : d.chars <:+ c) :
    ∃ q x, d.chars = [q] ∧ c = x ++ ['\\', q] := by
  obtain ⟨⟨x, rfl⟩, htail⟩ := h.escaped_of_suffix hsuffix
  cases d with
  | quote => exact ⟨_, x, rfl, rfl⟩
  | tick => exact ⟨_, x, rfl, rfl⟩
  | quotes =>
    cases htail with
    | char _ hc _ => exact absurd (by decide) hc

theorem length_kept_lt (h : Contents d c) (hsuffix : d.chars <:+ c) :
    (d.kept c).length < c.length := by
  obtain ⟨q, x, _, rfl⟩ := h.exists_of_suffix hsuffix
  rw [Delimiter.kept, if_pos hsuffix]
  simp

/-- At the front only the delimiter goes, unless there is nothing between the two. -/
theorem dropMarks_front (h : Contents d c) (hne : c ≠ []) (fuel : Nat) :
    dropMarks d.chars (d.around c) (fuel + 1) = c ++ d.chars := by
  rw [Delimiter.around, List.append_assoc, dropMarks_append,
    dropMarks_eq_self (h.not_begins hne)]

theorem dropMarks_back (h : Contents d c) (fuel : Nat) :
    dropMarks d.chars.reverse (c ++ d.chars).reverse (fuel + 2) = (d.kept c).reverse := by
  have hlast {cs : List Char} (hcs : ¬d.chars <:+ cs) (fuel : Nat) :
      dropMarks d.chars.reverse cs.reverse fuel = cs.reverse :=
    dropMarks_eq_self (mt List.reverse_prefix.mp hcs) fuel
  rw [List.reverse_append, dropMarks_append, Delimiter.kept]
  split
  · rename_i hsuffix
    obtain ⟨q, x, hq, rfl⟩ := h.exists_of_suffix hsuffix
    have hrest : ¬d.chars <:+ x ++ ['\\'] := by
      rw [hq]
      rintro ⟨y, hy⟩
      have hquote : [q] = ['\\'] := List.append_inj_right' hy rfl
      exact d.backslash_not_mem (by simp [hq, hquote])
    have hreverse : (x ++ ['\\', q]).reverse = d.chars.reverse ++ (x ++ ['\\']).reverse := by
      simp [hq]
    rw [hreverse, dropMarks_append, hlast hrest]
    simp
  · rename_i hsuffix
    exact hlast hsuffix (fuel + 1)

theorem stripMark_around (h : Contents d c) {s : String} (hs : s.toList = d.around c) :
    stripMark (String.ofList d.chars) s = String.ofList (d.kept c) := by
  have hpos := d.length_chars_pos
  have hlength : s.length = d.chars.length + (c.length + d.chars.length) := by
    rw [← String.length_toList, hs, Delimiter.around]
    simp only [List.length_append]
    omega
  obtain ⟨front, hfront⟩ : ∃ k, s.length = k + 2 := ⟨s.length - 2, by omega⟩
  simp only [stripMark, String.toList_ofList, hs, hfront]
  cases c with
  | nil =>
    -- The second delimiter stands at the front once the first is gone.
    have hnil : ¬d.chars <+: [] := mt List.prefix_nil.mp d.chars_ne_nil
    have hdrop := dropMarks_append d.chars [] front
    rw [List.append_nil, dropMarks_eq_self hnil] at hdrop
    rw [Delimiter.around, List.append_nil, dropMarks_append, hdrop]
    simp [Delimiter.kept, dropMarks]
  | cons a c =>
    obtain ⟨back, hback⟩ : ∃ k, (a :: c ++ d.chars).length = k + 2 := by
      refine ⟨c.length + d.chars.length - 1, ?_⟩
      simp only [List.cons_append, List.length_cons, List.length_append]
      omega
    rw [h.dropMarks_front (List.cons_ne_nil a c), hback, h.dropMarks_back, List.reverse_reverse]

end Contents

end Java

end CodeAtlas
