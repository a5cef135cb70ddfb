import CodeAtlas.Proofs.Text.Lines
import CodeAtlas.Text.Utf8
import Mathlib.Algebra.GroupWithZero.Nat

/-! # Characters and their bytes

A byte string is read one character at a time, and each character is read from bytes of its
own. So the bytes of some characters in a row read as these characters, whatever stands around
them. A character of ASCII is read from its own byte only; so a text has as many lines as its
bytes.
-/

namespace CodeAtlas.Text

/-! ## One character -/

/-- A character that is read from some bytes. Only a byte of ASCII is read as one. -/
structure Glyph.ReadFrom (g : Glyph) (front : List UInt8) : Prop where
  ne_nil : front ≠ []
  width : g.width = front.length
  ascii : (∃ a, a < 0x80 ∧ front = [a] ∧ g.char = Char.ofNat a.toNat) ∨
    ((∀ b ∈ front, 0x80 ≤ b) ∧ (g.char.toNat = 0 ∨ 0x80 ≤ g.char.toNat))

section Bytes

variable {a b c d : UInt8}

theorem toNat_ofNat {n : Nat} (h : n.isValidChar) : (Char.ofNat n).toNat = n := by
  have hchar : Char.ofNat n = Char.ofNatAux n h := dif_pos h
  exact congrArg Char.toNat hchar

theorem toNat_ofNat_high {n : Nat} (h : 0x80 ≤ n) :
    (Char.ofNat n).toNat = 0 ∨ 0x80 ≤ (Char.ofNat n).toNat := by
  by_cases hvalid : n.isValidChar
  · rw [toNat_ofNat hvalid]
    exact .inr h
  · have hchar : Char.ofNat n = Char.ofNat 0 := dif_neg hvalid
    rw [hchar]
    exact .inl rfl

theorem isTail_high (h : isTail b = true) : 0x80 ≤ b := by
  simp only [isTail, Bool.and_eq_true, decide_eq_true_eq] at h
  exact h.1

theorem isSecondOfThree_high (h : isSecondOfThree a b = true) :
    0x80 ≤ b ∧ 2 ≤ (a.toNat - 0xE0) * 64 + (b.toNat - 0x80) := by
  simp only [isSecondOfThree, isTail, Bool.or_eq_true, Bool.and_eq_true, decide_eq_true_eq,
    beq_iff_eq, bne_iff_ne, ne_eq, UInt8.le_iff_toNat_le, ← UInt8.toNat_inj, UInt8.reduceToNat] at *
  omega

theorem isSecondOfFour_high (h : isSecondOfFour a b = true) :
    0x80 ≤ b ∧ 2 ≤ (a.toNat - 0xF0) * 64 + (b.toNat - 0x80) := by
  simp only [isSecondOfFour, isTail, Bool.or_eq_true, Bool.and_eq_true, decide_eq_true_eq,
    beq_iff_eq, UInt8.le_iff_toNat_le, ← UInt8.toNat_inj, UInt8.reduceToNat] at *
  omega

theorem readFrom_high {n width : Nat} {front : List UInt8} (hn : 0x80 ≤ n) (hne : front ≠ [])
    (hwidth : width = front.length) (h : ∀ b ∈ front, 0x80 ≤ b) :
    Glyph.ReadFrom ⟨Char.ofNat n, width⟩ front where
  ne_nil := hne
  width := hwidth
  ascii := .inr ⟨h, toNat_ofNat_high hn⟩

theorem readFrom_ascii (ha : a < 0x80) : Glyph.ReadFrom ⟨Char.ofNat a.toNat, 1⟩ [a] where
  ne_nil := List.cons_ne_nil _ _
  width := rfl
  ascii := .inl ⟨a, ha, rfl, rfl⟩

theorem readFrom_two (ha : 0x80 ≤ a)
    (h : (decide (0xC2 ≤ a) && decide (a ≤ 0xDF) && isTail b) = true) :
    Glyph.ReadFrom ⟨codePoint (a.toNat - 0xC0) [b], 2⟩ [a, b] := by
  simp only [Bool.and_eq_true, decide_eq_true_eq, UInt8.le_iff_toNat_le, UInt8.reduceToNat] at h
  refine readFrom_high ?_ (by simp) rfl (by simp [ha, isTail_high h.2])
  simp only [List.foldl_cons, List.foldl_nil]
  omega

theorem readFrom_three (ha : 0x80 ≤ a) (h : isSecondOfThree a b = true) (hc : isTail c = true) :
    Glyph.ReadFrom ⟨codePoint (a.toNat - 0xE0) [b, c], 3⟩ [a, b, c] := by
  obtain ⟨hb, hpayload⟩ := isSecondOfThree_high h
  refine readFrom_high ?_ (by simp) rfl (by simp [ha, hb, isTail_high hc])
  simp only [List.foldl_cons, List.foldl_nil]
  omega

theorem readFrom_four (ha : 0x80 ≤ a) (h : isSecondOfFour a b = true) (hc : isTail c = true)
    (hd : isTail d = true) :
    Glyph.ReadFrom ⟨codePoint (a.toNat - 0xF0) [b, c, d], 4⟩ [a, b, c, d] := by
  obtain ⟨hb, hpayload⟩ := isSecondOfFour_high h
  refine readFrom_high ?_ (by simp) rfl
    (by simp [ha, hb, isTail_high hc, isTail_high hd])
  simp only [List.foldl_cons, List.foldl_nil]
  omega

theorem readFrom_replacement {front : List UInt8} (hne : front ≠ []) (h : ∀ b ∈ front, 0x80 ≤ b) :
    Glyph.ReadFrom ⟨replacement, front.length⟩ front := readFrom_high (by decide) hne rfl h

end Bytes

/-- A byte string begins with the bytes of one character, which is read from them also where
the bytes behind them end earlier. -/
theorem exists_readFrom {bytes : List UInt8} (h : bytes ≠ []) :
    ∃ g front rest, bytes = front ++ rest ∧ g.ReadFrom front ∧
      ∀ n, glyphs (front ++ rest.take n) = g :: glyphs (rest.take n) := by
  have high {a : UInt8} (ha : ¬a < 0x80) : 0x80 ≤ a := by simpa using ha
  -- Behind a sequence that breaks off, the next byte is looked at: it is there or it is not.
  fun_cases glyphs bytes with
  | case1 => exact absurd rfl h
  | case2 a rest ha =>
    refine ⟨_, [a], rest, rfl, readFrom_ascii ha, fun n => ?_⟩
    conv_lhs => rw [List.singleton_append, glyphs.eq_def]
    simp only [ha, if_true]
  | case3 a ha =>
    refine ⟨_, [a], [], rfl, readFrom_replacement (by simp) (by simp [high ha]), fun n => ?_⟩
    simp [glyphs, ha]
  | case4 a ha b rest htwo =>
    refine ⟨_, [a, b], rest, rfl, readFrom_two (high ha) htwo, fun n => ?_⟩
    conv_lhs => rw [List.cons_append, List.singleton_append, glyphs.eq_def]
    simp only [ha, htwo, if_true, if_false]
  | case5 a ha b htwo hthree =>
    refine ⟨_, [a, b], [], rfl, readFrom_replacement (by simp) ?_, fun n => ?_⟩
    · simp [high ha, (isSecondOfThree_high hthree).1]
    · simp [glyphs, ha, htwo, hthree]
  | case6 a ha b htwo hthree c rest hc =>
    refine ⟨_, [a, b, c], rest, rfl, readFrom_three (high ha) hthree hc, fun n => ?_⟩
    conv_lhs => rw [List.cons_append, List.cons_append, List.singleton_append, glyphs.eq_def]
    simp only [ha, htwo, hthree, hc, if_true, if_false, Bool.false_eq_true]
  | case7 a ha b htwo hthree c rest hc =>
    refine ⟨_, [a, b], c :: rest, rfl, readFrom_replacement (by simp) ?_, fun n => ?_⟩
    · simp [high ha, (isSecondOfThree_high hthree).1]
    · cases n with
      | zero => simp [glyphs, ha, htwo, hthree]
      | succ n =>
        conv_lhs => rw [List.take_succ_cons, List.cons_append, List.singleton_append, glyphs.eq_def]
        simp [ha, htwo, hthree, hc]
  | case8 a ha b htwo hthree hfour =>
    refine ⟨_, [a, b], [], rfl, readFrom_replacement (by simp) ?_, fun n => ?_⟩
    · simp [high ha, (isSecondOfFour_high hfour).1]
    · simp [glyphs, ha, htwo, hthree, hfour]
  | case9 a ha b htwo hthree hfour c hc =>
    refine ⟨_, [a, b, c], [], rfl, readFrom_replacement (by simp) ?_, fun n => ?_⟩
    · simp [high ha, (isSecondOfFour_high hfour).1, isTail_high hc]
    · simp [glyphs, ha, htwo, hthree, hfour, hc]
  | case10 a ha b htwo hthree hfour c hc d rest hd =>
    refine ⟨_, [a, b, c, d], rest, rfl, readFrom_four (high ha) hfour hc hd, fun n => ?_⟩
    conv_lhs => rw [List.cons_append, List.cons_append, List.cons_append, List.singleton_append,
      glyphs.eq_def]
    simp [ha, htwo, hthree, hfour, hc, hd]
  | case11 a ha b htwo hthree hfour c hc d rest hd =>
    refine ⟨_, [a, b, c], d :: rest, rfl, readFrom_replacement (by simp) ?_, fun n => ?_⟩
    · simp [high ha, (isSecondOfFour_high hfour).1, isTail_high hc]
    · cases n with
      | zero => simp [glyphs, ha, htwo, hthree, hfour, hc]
      | succ n =>
        conv_lhs => rw [List.take_succ_cons, List.cons_append, List.cons_append,
          List.singleton_append, glyphs.eq_def]
        simp [ha, htwo, hthree, hfour, hc, hd]
  | case12 a ha b htwo hthree hfour c rest hc =>
    refine ⟨_, [a, b], c :: rest, rfl, readFrom_replacement (by simp) ?_, fun n => ?_⟩
    · simp [high ha, (isSecondOfFour_high hfour).1]
    · cases n with
      | zero => simp [glyphs, ha, htwo, hthree, hfour]
      | succ n =>
        conv_lhs => rw [List.take_succ_cons, List.cons_append, List.singleton_append, glyphs.eq_def]
        simp [ha, htwo, hthree, hfour, hc]
  | case13 a ha b rest htwo hthree hfour =>
    refine ⟨_, [a], b :: rest, rfl, readFrom_replacement (by simp) (by simp [high ha]), fun n => ?_⟩
    cases n with
    | zero => simp [glyphs, ha]
    | succ n =>
      conv_lhs => rw [List.take_succ_cons, List.singleton_append, glyphs.eq_def]
      simp [ha, htwo, hthree, hfour]

/-! ## Characters in a row -/

/-- What holds of no bytes, and of the bytes of a character when it holds of those behind it,
holds of all byte strings. -/
theorem induction_glyphs {motive : List UInt8 → Prop} (nil : motive [])
    (front : ∀ (g : Glyph) (front rest : List UInt8), g.ReadFrom front →
      (∀ n, glyphs (front ++ rest.take n) = g :: glyphs (rest.take n)) →
      glyphs (front ++ rest) = g :: glyphs rest → motive rest → motive (front ++ rest))
    (bytes : List UInt8) : motive bytes := by
  by_cases h : bytes = []
  · exact h ▸ nil
  · obtain ⟨g, first, rest, rfl, hg, hread⟩ := exists_readFrom h
    have hwhole := hread rest.length
    rw [List.take_length] at hwhole
    have hlt : rest.length < (first ++ rest).length := by
      simpa using List.length_pos_iff.mpr hg.ne_nil
    exact front g first rest hg hread hwhole (induction_glyphs nil front rest)
termination_by bytes.length

/-- The number of bytes that some characters were read from. -/
def widths (gs : List Glyph) : Nat := (gs.map Glyph.width).sum

theorem widths_append (xs ys : List Glyph) : widths (xs ++ ys) = widths xs + widths ys := by
  rw [widths, List.map_append, List.sum_append, widths, widths]

theorem width_pos_of_mem_glyphs {bytes : List UInt8} {g : Glyph} (h : g ∈ glyphs bytes) :
    0 < g.width := by
  induction bytes using induction_glyphs with
  | nil => cases h
  | front g' first rest hg _ hwhole ih =>
    rw [hwhole] at h
    rcases List.mem_cons.mp h with rfl | h
    · exact hg.width ▸ List.length_pos_iff.mpr hg.ne_nil
    · exact ih h

/-- The bytes of some characters in a row, with what stands in front of them and behind. -/
theorem glyphs_take_drop {bytes : List UInt8} {xs ys : List Glyph} (h : glyphs bytes = xs ++ ys) :
    glyphs (bytes.take (widths xs)) = xs ∧ glyphs (bytes.drop (widths xs)) = ys ∧
      widths xs ≤ bytes.length := by
  induction bytes using induction_glyphs generalizing xs with
  | nil =>
    obtain ⟨rfl, rfl⟩ := List.append_eq_nil_iff.mp (by simpa [glyphs] using h.symm)
    simp [glyphs, widths]
  | front g first rest hg hread hwhole ih =>
    cases xs with
    | nil => exact ⟨by simp [glyphs, widths], by simpa [widths] using h, Nat.zero_le _⟩
    | cons x xs =>
      obtain ⟨rfl, hrest⟩ := List.cons.inj (hwhole.symm.trans h)
      obtain ⟨htake, hdrop, hle⟩ := ih hrest
      have hwidths : widths (g :: xs) = first.length + widths xs := by simp [widths, hg.width]
      rw [hwidths, List.take_length_add_append, List.drop_length_add_append, hread, htake]
      exact ⟨rfl, hdrop, by simpa using hle⟩

theorem toList_decode (bytes : List UInt8) :
    (decode bytes).toList = (glyphs bytes).map Glyph.char := by
  rw [decode, String.toList_ofList]

/-! ## Characters of ASCII -/

theorem ofNat_toNat_inj {a b : UInt8} (ha : a < 0x80) (hb : b < 0x80)
    (h : Char.ofNat a.toNat = Char.ofNat b.toNat) : a = b := by
  have hvalid : ∀ {a : UInt8}, a < 0x80 → a.toNat.isValidChar := fun {a} ha => by
    have := UInt8.lt_iff_toNat_lt.mp ha
    exact .inl (by simp only [UInt8.reduceToNat] at this; omega)
  have := congrArg Char.toNat h
  rw [toNat_ofNat (hvalid ha), toNat_ofNat (hvalid hb)] at this
  exact UInt8.toNat_inj.mp this

/-- A character of ASCII other than NUL is read from its byte and no other. -/
theorem Glyph.ReadFrom.cases {g : Glyph} {front : List UInt8} (h : g.ReadFrom front) {b : UInt8}
    (h0 : b ≠ 0) (hb : b < 0x80) :
    (g.char = Char.ofNat b.toNat ∧ front = [b]) ∨
      (g.char ≠ Char.ofNat b.toNat ∧ b ∉ front) := by
  rcases h.ascii with ⟨a, ha, rfl, hc⟩ | ⟨hfront, hc⟩
  · by_cases hab : a = b
    · exact .inl ⟨hab ▸ hc, by rw [hab]⟩
    · refine .inr ⟨fun he => hab (ofNat_toNat_inj ha hb (hc.symm.trans he)), ?_⟩
      exact fun hm => hab (List.mem_singleton.mp hm).symm
  · refine .inr ⟨fun he => ?_, fun hm => ?_⟩
    · have hlt := UInt8.lt_iff_toNat_lt.mp hb
      simp only [UInt8.reduceToNat] at hlt
      rw [he, toNat_ofNat (.inl (by omega))] at hc
      rcases hc with hc | hc
      · exact h0 (UInt8.toNat_inj.mp hc)
      · omega
    · exact absurd (hfront b hm) (UInt8.not_le.mpr hb)

theorem mem_decode_iff {bytes : List UInt8} {b : UInt8} (h0 : b ≠ 0) (hb : b < 0x80) :
    Char.ofNat b.toNat ∈ (decode bytes).toList ↔ b ∈ bytes := by
  rw [toList_decode]
  induction bytes using induction_glyphs with
  | nil => simp [glyphs]
  | front g first rest hg _ hwhole ih =>
    rw [hwhole, List.map_cons, List.mem_cons, List.mem_append, ih]
    refine or_congr_left ?_
    rcases hg.cases h0 hb with ⟨hc, rfl⟩ | ⟨hc, hm⟩
    · simp [hc]
    · exact iff_of_false (Ne.symm hc) hm

theorem eq_of_decode {bytes ascii : List UInt8} (h : ∀ b ∈ ascii, b ≠ 0 ∧ b < 0x80)
    (hd : (decode bytes).toList = ascii.map fun b => Char.ofNat b.toNat) : bytes = ascii := by
  rw [toList_decode] at hd
  induction bytes using induction_glyphs generalizing ascii with
  | nil =>
    rw [glyphs, List.map_nil] at hd
    exact (List.map_eq_nil_iff.mp hd.symm).symm
  | front g first rest hg _ hwhole ih =>
    rw [hwhole, List.map_cons] at hd
    cases ascii with
    | nil => simp at hd
    | cons b ascii =>
      obtain ⟨hc, hrest⟩ := List.cons.inj hd
      obtain ⟨h0, hb⟩ := h b List.mem_cons_self
      rcases hg.cases h0 hb with ⟨_, rfl⟩ | ⟨hne, _⟩
      · rw [ih (fun b hm => h b (List.mem_cons_of_mem _ hm)) hrest]
        rfl
      · exact absurd hc hne

/-! ## Line feeds -/

theorem Glyph.ReadFrom.feed {g : Glyph} {front : List UInt8} (h : g.ReadFrom front) :
    (g.char = '\n' ∧ front = [lineFeed]) ∨ (g.char ≠ '\n' ∧ lineFeed ∉ front) :=
  h.cases (b := lineFeed) (by decide) (by decide)

theorem Glyph.ReadFrom.count {g : Glyph} {front : List UInt8} (h : g.ReadFrom front) :
    front.count lineFeed = [g.char].count '\n' := by
  rcases h.feed with ⟨hc, rfl⟩ | ⟨hc, hmem⟩
  · rw [hc]
    rfl
  · rw [List.count_eq_zero.mpr hmem, List.count_eq_zero.mpr (by simpa using hc.symm)]

theorem Glyph.ReadFrom.getLast? {g : Glyph} {front : List UInt8} (h : g.ReadFrom front) :
    front.getLast? = some lineFeed ↔ g.char = '\n' := by
  rcases h.feed with ⟨hc, rfl⟩ | ⟨hc, hmem⟩
  · simp [hc]
  · exact ⟨fun hlast => absurd (List.mem_of_getLast? hlast) hmem, fun h => absurd h hc⟩

theorem count_decode (bytes : List UInt8) :
    (decode bytes).toList.count '\n' = bytes.count lineFeed := by
  rw [toList_decode]
  induction bytes using induction_glyphs with
  | nil => simp [glyphs]
  | front g first rest hg _ hwhole ih =>
    rw [hwhole, List.map_cons, ← List.singleton_append, List.count_append, ih, List.count_append,
      hg.count]

theorem decode_eq_nil_iff {bytes : List UInt8} : (decode bytes).toList = [] ↔ bytes = [] := by
  rw [toList_decode, List.map_eq_nil_iff]
  induction bytes using induction_glyphs with
  | nil => simp [glyphs]
  | front g first rest hg _ hwhole _ => simp [hwhole, hg.ne_nil]

theorem getLast?_decode_iff {bytes : List UInt8} :
    (decode bytes).toList.getLast? = some '\n' ↔ bytes.getLast? = some lineFeed := by
  rw [toList_decode]
  induction bytes using induction_glyphs with
  | nil => simp [glyphs]
  | front g first rest hg _ hwhole ih =>
    rw [hwhole, List.map_cons]
    rcases eq_or_ne rest [] with rfl | hne
    · simpa [glyphs] using hg.getLast?.symm
    · have hglyphs : (glyphs rest).map Glyph.char ≠ [] := by
        rw [← toList_decode]
        exact fun h => hne (decode_eq_nil_iff.mp h)
      rw [List.getLast?_cons_of_ne_nil hglyphs, List.getLast?_append_of_ne_nil _ hne]
      exact ih

theorem length_linesOf_decode (bytes : List UInt8) :
    (linesOf (decode bytes).toList).length = lineCount bytes := by
  simp only [length_linesOf, count_decode, decode_eq_nil_iff, getLast?_decode_iff]
  cases hlast : bytes.getLast? with
  | none => simp [lineCount, List.getLast?_eq_none_iff.mp hlast]
  | some b =>
    have hne : bytes ≠ [] := by
      rintro rfl
      cases hlast
    simp [lineCount, hlast, hne]

end CodeAtlas.Text
