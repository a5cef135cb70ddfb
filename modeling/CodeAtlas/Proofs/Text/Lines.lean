import CodeAtlas.Proofs.Text.Parts
import CodeAtlas.Text.Lines

/-! # The lines of a text

Splitting at line feeds gives every text its lines, and only those. A word without line breaks
stands in one of them: the one that the line feeds before it count to.
-/

namespace CodeAtlas.Text

/-- The lines of a text. Each ends in a line feed, or in a carriage return and a line feed; the
last one need not. -/
inductive HasLines : List Char → List (List Char) → Prop
  | nil : HasLines [] []
  | last {line : List Char} : line ≠ [] → '\n' ∉ line → HasLines line [line]
  | feed {line cs : List Char} {lines : List (List Char)} : '\n' ∉ line →
      line.getLast? ≠ some '\r' → HasLines cs lines →
      HasLines (line ++ '\n' :: cs) (line :: lines)
  | returnFeed {line cs : List Char} {lines : List (List Char)} : '\n' ∉ line →
      HasLines cs lines → HasLines (line ++ '\r' :: '\n' :: cs) (line :: lines)

/-! ## Splitting -/

section Splitting

variable {line cs : List Char}

theorem linesOf_eq (cs : List Char) : linesOf cs = linesOfPieces (cs.splitOn '\n') := by
  rw [linesOf, splitBy_eq_splitOnP, List.splitOn_eq_splitOnP]

theorem linesOf_of_not_mem (h : '\n' ∉ cs) (hne : cs ≠ []) : linesOf cs = [cs] := by
  rw [linesOf, splitBy_of_forall fun c hc => by simpa using ne_of_mem_of_not_mem hc h,
    linesOfPieces, if_neg (by simpa using hne)]

theorem linesOf_append_feed (h : '\n' ∉ line) (cs : List Char) :
    linesOf (line ++ '\n' :: cs) = dropReturn line :: linesOf cs := by
  rw [linesOf_eq, linesOf_eq, List.splitOn_append_cons_self_of_not_mem h, linesOfPieces]
  rw [List.splitOn_eq_splitOnP]
  exact List.splitOnP_ne_nil _ _

theorem dropReturn_of_getLast?_ne (h : line.getLast? ≠ some '\r') : dropReturn line = line := by
  rw [dropReturn, if_neg (by simpa using h)]

theorem dropReturn_append_return (line : List Char) : dropReturn (line ++ ['\r']) = line := by
  simp [dropReturn]

theorem eq_or_exists_first_line (cs : List Char) :
    '\n' ∉ cs ∨ ∃ line rest, cs = line ++ '\n' :: rest ∧ '\n' ∉ line := by
  by_cases h : '\n' ∈ cs
  · exact .inr (List.eq_append_cons_of_mem h)
  · exact .inl h

theorem hasLines_linesOf (cs : List Char) : HasLines cs (linesOf cs) := by
  rcases eq_or_exists_first_line cs with h | ⟨line, rest, rfl, h⟩
  · rcases eq_or_ne cs [] with rfl | hne
    · exact .nil
    · rw [linesOf_of_not_mem h hne]
      exact .last hne h
  · have ih := hasLines_linesOf rest
    rw [linesOf_append_feed h]
    by_cases hlast : line.getLast? = some '\r'
    · obtain ⟨front, rfl⟩ := List.getLast?_eq_some_iff.mp hlast
      rw [dropReturn_append_return, List.append_assoc]
      exact .returnFeed (fun hmem => h (List.mem_append_left _ hmem)) ih
    · rw [dropReturn_of_getLast?_ne hlast]
      exact .feed h hlast ih
termination_by cs.length

theorem hasLines_iff {lines : List (List Char)} : HasLines cs lines ↔ lines = linesOf cs := by
  constructor
  · intro h
    induction h with
    | nil => rfl
    | last hne h => rw [linesOf_of_not_mem h hne]
    | feed h hlast _ ih => rw [linesOf_append_feed h, dropReturn_of_getLast?_ne hlast, ih]
    | @returnFeed line cs lines h _ ih =>
      have h' : '\n' ∉ line ++ ['\r'] := by simpa using h
      rw [List.append_cons, linesOf_append_feed h', dropReturn_append_return, ih]
  · rintro rfl
    exact hasLines_linesOf cs

end Splitting

/-! ## The number of lines -/

theorem length_linesOf (cs : List Char) :
    (linesOf cs).length =
      cs.count '\n' + if cs = [] ∨ cs.getLast? = some '\n' then 0 else 1 := by
  rcases eq_or_exists_first_line cs with h | ⟨line, rest, rfl, h⟩
  · rcases eq_or_ne cs [] with rfl | hne
    · rfl
    · have hlast : cs.getLast? ≠ some '\n' := fun hlast => h (List.mem_of_getLast? hlast)
      simp [linesOf_of_not_mem h hne, List.count_eq_zero.mpr h, hne, hlast]
  · have ih := length_linesOf rest
    rw [linesOf_append_feed h, List.length_cons, ih, List.count_append, List.count_cons_self,
      List.count_eq_zero.mpr h]
    rcases eq_or_ne rest [] with rfl | hne
    · simp
    · simp [hne, List.getLast?_eq_some_getLast]
      omega
termination_by cs.length

/-! ## Words in lines -/

section Words

variable {before word after : List Char}

theorem infix_dropReturn (h : '\r' ∉ word) (before after : List Char) :
    word <:+: dropReturn (before ++ word ++ after) := by
  by_cases hlast : (before ++ word ++ after).getLast? = some '\r'
  · rcases List.eq_nil_or_concat after with rfl | ⟨after, c, rfl⟩
    · rcases List.eq_nil_or_concat word with rfl | ⟨word, c, rfl⟩
      · exact List.nil_infix
      · have hc : c = '\r' := by simpa using hlast
        exact absurd (by simp [hc]) h
    · have hc : c = '\r' := by simpa using hlast
      rw [hc, List.concat_eq_append, ← List.append_assoc, dropReturn_append_return]
      exact ⟨before, after, rfl⟩
  · rw [dropReturn_of_getLast?_ne hlast]
    exact ⟨before, after, rfl⟩

theorem exists_line_of_word (hne : word ≠ []) (hfeed : '\n' ∉ word) (hreturn : '\r' ∉ word)
    (before after : List Char) :
    ∃ line, (linesOf (before ++ word ++ after))[before.count '\n']? = some line ∧
      word <:+: line := by
  rcases eq_or_exists_first_line before with h | ⟨line, rest, rfl, h⟩
  · rw [List.count_eq_zero.mpr h]
    have hfront : '\n' ∉ before ++ word := by simp [h, hfeed]
    rcases eq_or_exists_first_line after with h' | ⟨line, rest, rfl, h'⟩
    · refine ⟨before ++ word ++ after, ?_, before, after, rfl⟩
      rw [linesOf_of_not_mem (by simp [h, hfeed, h']) (by simp [hne])]
      rfl
    · refine ⟨dropReturn (before ++ word ++ line), ?_, infix_dropReturn hreturn before line⟩
      rw [← List.append_assoc, linesOf_append_feed (by simp [h, hfeed, h'])]
      rfl
  · obtain ⟨l, hl, hword⟩ := exists_line_of_word hne hfeed hreturn rest after
    refine ⟨l, ?_, hword⟩
    rw [List.append_assoc, List.append_assoc, List.cons_append, linesOf_append_feed h,
      ← List.append_assoc, List.count_append, List.count_cons_self, List.count_eq_zero.mpr h,
      Nat.zero_add, List.getElem?_cons_succ, hl]
termination_by before.length

theorem infix_intercalate {α : Type} {x : List α} {xs : List (List α)} (h : x ∈ xs)
    (sep : List α) : x <:+: sep.intercalate xs := by
  induction xs with
  | nil => cases h
  | cons y ys ih =>
    cases ys with
    | nil =>
      obtain rfl := List.mem_singleton.mp h
      simp
    | cons z zs =>
      rw [List.intercalate_cons_cons]
      rcases List.mem_cons.mp h with rfl | h
      · exact ⟨[], sep ++ sep.intercalate (z :: zs), by simp⟩
      · exact (ih h).trans (List.suffix_append _ _).isInfix

end Words

/-! ## Stretches of lines -/

section Stretches

variable {before word after : List Char} {s : String} {first last : Nat}

theorem toList_sliceLines (hfirst : 1 ≤ first) (hlast : first ≤ last) :
    (sliceLines s first last).toList =
      ['\n'].intercalate (((linesOf s.toList).drop (first - 1)).take (last - first + 1)) := by
  rw [sliceLines, Nat.max_eq_left hfirst, Nat.max_eq_left hlast, String.toList_intercalate, lines,
    ← List.map_drop, ← List.map_take, List.map_map]
  simp [Function.comp_def]

/-- The text of the lines from one number to another, both counted from one and included. -/
def IsStretch (cs : List Char) (first last : Nat) (text : List Char) : Prop :=
  ∃ lines, HasLines cs lines ∧
    text = ['\n'].intercalate ((lines.drop (first - 1)).take (last - first + 1))

theorem isStretch_iff (hfirst : 1 ≤ first) (hlast : first ≤ last) {text : List Char} :
    IsStretch s.toList first last text ↔ text = (sliceLines s first last).toList := by
  simp only [IsStretch, hasLines_iff, exists_eq_left, toList_sliceLines hfirst hlast]

theorem infix_sliceLines (hs : s.toList = before ++ word ++ after) (hne : word ≠ [])
    (hfeed : '\n' ∉ word) (hreturn : '\r' ∉ word) (hpos : 1 ≤ first)
    (hfirst : first ≤ before.count '\n' + 1) (hlast : before.count '\n' + 1 ≤ last) :
    word <:+: (sliceLines s first last).toList := by
  obtain ⟨line, hline, hword⟩ := exists_line_of_word hne hfeed hreturn before after
  rw [← hs] at hline
  rw [toList_sliceLines hpos (hfirst.trans hlast)]
  refine hword.trans (infix_intercalate ?_ _)
  refine List.mem_of_getElem? (i := before.count '\n' - (first - 1)) ?_
  rw [List.getElem?_take_of_lt (by omega), List.getElem?_drop, Nat.add_sub_cancel' (by omega),
    hline]

end Stretches

end CodeAtlas.Text
