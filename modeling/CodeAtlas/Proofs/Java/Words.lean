import CodeAtlas.Proofs.Java.Parsing
import CodeAtlas.Proofs.Text.Utf8

/-! # Words of a file

The lexemes of a file stand in it one after the other, and each takes up whole characters. A
word is made of identifier characters, so it stays on its line. The names of a parse tree are
such words.
-/

namespace CodeAtlas.Java

open Text (Glyph glyphs widths widths_append)

/-- Between two offsets there are the characters of a word, which do not break the line. -/
structure WordRange (bytes : List UInt8) (before word after : List Glyph) (start stop : Nat) :
    Prop where
  text : glyphs bytes = before ++ word ++ after
  start : start = widths before
  stop : stop = widths (before ++ word)
  ne_nil : word ≠ []
  unbroken : ∀ g ∈ word, g.char ≠ '\n' ∧ g.char ≠ '\r'

def IsWordRange (bytes : List UInt8) (start stop : Nat) : Prop :=
  ∃ before word after, WordRange bytes before word after start stop

/-! ## What a word is made of -/

theorem isIdentifierStart_unbroken {c : Char} (h : Text.isIdentifierStart c = true) :
    c ≠ '\n' ∧ c ≠ '\r' := by
  constructor <;> rintro rfl <;> exact absurd h (by decide)

theorem isIdentifierPart_unbroken {c : Char} (h : Text.isIdentifierPart c = true) :
    c ≠ '\n' ∧ c ≠ '\r' := by
  constructor <;> rintro rfl <;> exact absurd h (by decide)

/-- A word is made of identifier characters, or is the modifier with a hyphen. -/
theorem unbroken_of_mem_take_wordLength {c d : Char} {cs : List Char}
    (hc : Text.isIdentifierStart c = true)
    (hd : d ∈ (c :: cs).take (max 1 (wordLength (c :: cs)))) : d ≠ '\n' ∧ d ≠ '\r' := by
  unfold wordLength at hd
  split at hd
  · rename_i hprefix
    obtain ⟨rest, hrest⟩ := List.isPrefixOf_iff_prefix.mp hprefix
    rw [← hrest, List.take_left' (by decide)] at hd
    have hbreaks : '\n' ∉ "non-sealed".toList ∧ '\r' ∉ "non-sealed".toList := by decide
    exact ⟨ne_of_mem_of_not_mem hd hbreaks.1, ne_of_mem_of_not_mem hd hbreaks.2⟩
  · rcases Nat.eq_zero_or_pos ((c :: cs).takeWhile Text.isIdentifierPart).length with hn | hn
    · rw [hn] at hd
      obtain rfl := List.mem_singleton.mp hd
      exact isIdentifierStart_unbroken hc
    · rw [Nat.max_eq_right hn, ← List.prefix_iff_eq_take.mp (List.takeWhile_prefix _)] at hd
      exact isIdentifierPart_unbroken (List.mem_takeWhile_imp hd)

theorem classify_word {cs : List Char} (h : (classify cs).1 = .word) :
    ∃ c more, cs = c :: more ∧ Text.isIdentifierStart c = true ∧
      (classify cs).2 = wordLength cs := by
  cases cs with
  | nil => cases h
  | cons c more =>
    by_cases hc : Text.isIdentifierStart c = true
    · exact ⟨c, more, rfl, hc, by simp only [classify, hc, if_true]⟩
    · simp only [classify, if_neg hc] at h
      -- Every other lexeme is of another kind.
      repeat' split at h
      all_goals cases h

theorem classifyIn_of_word {strings : List OpenString} {cs : List Char} :
    (classifyIn strings cs).1 = .word →
      classifyIn strings cs = ((classify cs).1, (classify cs).2, strings) := by
  intro h
  unfold classifyIn at h ⊢
  split at h
  · cases h
  · split at h
    · split at h <;> cases h
    · cases h
  · split at h
    · split at h <;> cases h
    · rfl

theorem unbroken_of_mem_take_classifyIn {strings : List OpenString} {cs : List Char}
    (h : (classifyIn strings cs).1 = .word) {d : Char}
    (hd : d ∈ cs.take (max 1 (classifyIn strings cs).2.1)) : d ≠ '\n' ∧ d ≠ '\r' := by
  have heq := classifyIn_of_word h
  rw [heq] at h hd
  obtain ⟨c, more, rfl, hc, hlength⟩ := classify_word h
  rw [hlength] at hd
  exact unbroken_of_mem_take_wordLength hc hd

/-! ## Lexemes -/

theorem widthOf_eq_widths (gs : List Glyph) : widthOf gs = widths gs := by
  suffices h : ∀ n, gs.foldl (fun n g => n + g.width) n = n + widths gs by
    rw [widthOf, h, Nat.zero_add]
  induction gs with
  | nil => exact fun n => rfl
  | cons g gs ih =>
    intro n
    rw [List.foldl_cons, ih]
    simp [widths, Nat.add_assoc]

/-- Lexemes that stand in order, with the words of a file among them. -/
structure LaidOut (bytes : List UInt8) (lo : Nat) (ls : List Lexeme) : Prop where
  spread : Spread lo (ls.map Lexeme.range) bytes.length
  words : ∀ l ∈ ls, l.kind = .word → IsWordRange bytes l.start l.stop

variable {bytes : List UInt8}

theorem LaidOut.mono {lo lo' : Nat} {ls : List Lexeme} (h : LaidOut bytes lo ls) (hle : lo' ≤ lo) :
    LaidOut bytes lo' ls :=
  { h with spread := h.spread.mono_left hle }

/-- By induction on the lexemes; `before` are the characters in front of them. -/
theorem laidOut_lexFrom {before gs : List Glyph} (htext : glyphs bytes = before ++ gs)
    (strings : List OpenString) (fuel : Nat) :
    LaidOut bytes (widths before) (lexFrom (widths before) strings fuel (chars gs) gs) := by
  have hend : widths before ≤ bytes.length := (Text.glyphs_take_drop htext).2.2
  induction fuel generalizing before gs strings with
  | zero => exact ⟨hend, by simp [lexFrom]⟩
  | succ fuel ih =>
    cases gs with
    | nil => exact ⟨hend, by simp [lexFrom, chars]⟩
    | cons g gs =>
      have hon (n : Nat) : glyphs bytes = (before ++ (g :: gs).take n) ++ (g :: gs).drop n := by
        rw [List.append_assoc, List.take_append_drop, htext]
      have hwidths (n : Nat) : widths before + widthOf ((g :: gs).take n) =
          widths (before ++ (g :: gs).take n) := by
        rw [widthOf_eq_widths, widths_append]
      rw [chars, List.map_cons, lexFrom]
      split
      · have hrest := ih (hon 1) strings (Text.glyphs_take_drop (hon 1)).2.2
        refine LaidOut.mono ?_ (Nat.le_add_right _ g.width)
        simpa [widths_append, widths, chars] using hrest
      · have hunbroken := @unbroken_of_mem_take_classifyIn strings (g.char :: gs.map Glyph.char)
        generalize classifyIn strings (g.char :: gs.map Glyph.char) = lexeme at hunbroken
        obtain ⟨kind, length, after⟩ := lexeme
        have hrest := ih (hon (max 1 length)) after (Text.glyphs_take_drop (hon _)).2.2
        simp only [← List.map_cons, ← List.map_drop, hwidths] at hunbroken ⊢
        refine ⟨⟨Nat.le_refl _, ?_, hrest.spread⟩, List.forall_mem_cons.mpr ⟨?_, hrest.words⟩⟩
        · simp [Lexeme.range, widths_append]
        · intro hword
          refine ⟨before, _, _, hon (max 1 length), rfl, rfl, ?_, fun g' hg' => ?_⟩
          · rw [Nat.max_comm]
            simp
          · apply hunbroken hword
            rw [← List.map_take]
            exact List.mem_map_of_mem hg'

theorem laidOut_lex (bytes : List UInt8) : LaidOut bytes 0 (lex bytes) := by
  simp only [lex]
  split
  · rename_i g rest htext
    split
    · have hmark : glyphs bytes = [g] ++ rest := htext
      simpa [widths] using (laidOut_lexFrom hmark [] rest.length).mono (Nat.zero_le _)
    · have hwhole : glyphs bytes = [] ++ glyphs bytes := rfl
      exact laidOut_lexFrom hwhole [] _
  · exact ⟨Nat.zero_le _, by simp⟩

theorem start_lt_stop_of_mem_lexFrom {pos : Nat} {strings : List OpenString} {fuel : Nat}
    {cs : List Char} {gs : List Glyph} (hgs : ∀ g ∈ gs, 0 < g.width) {l : Lexeme}
    (h : l ∈ lexFrom pos strings fuel cs gs) : l.start < l.stop := by
  fun_induction lexFrom pos strings fuel cs gs with
  | case1 => cases h
  | case2 pos strings fuel c cs g gs hc ih =>
    exact ih (fun g hg => hgs g (List.mem_cons_of_mem _ hg)) h
  | case3 pos strings fuel c cs g gs hc kind length after he taken stop ih =>
    rcases List.mem_cons.mp h with rfl | h
    · have htaken : taken = g :: gs.take (max 1 length - 1) := by
        simp only [taken,
          List.take_cons (Nat.lt_of_lt_of_le Nat.one_pos (Nat.le_max_left 1 length))]
      have hfirst := hgs g List.mem_cons_self
      have hwidth : stop = pos + (g.width + widths (gs.take (max 1 length - 1))) := by
        simp only [stop, htaken, widthOf_eq_widths]
        rfl
      simp only [hwidth]
      omega
    · exact ih (fun g hg => hgs g (List.mem_of_mem_drop hg)) h
  | case4 => cases h

theorem start_lt_stop_of_mem_lex {l : Lexeme} (h : l ∈ lex bytes) : l.start < l.stop := by
  have hgs : ∀ g ∈ glyphs bytes, 0 < g.width := fun _ => Text.width_pos_of_mem_glyphs
  simp only [lex] at h
  split at h
  · rename_i g rest hglyphs
    split at h
    · exact start_lt_stop_of_mem_lexFrom (fun g hg => hgs g (hglyphs ▸ List.mem_cons_of_mem _ hg)) h
    · exact start_lt_stop_of_mem_lexFrom hgs h
  · cases h

theorem significant_sublist (afterPoint : Bool) (ls : List Lexeme) :
    (significant afterPoint ls).Sublist ls := by
  fun_induction significant afterPoint ls with
  | case1 => exact .slnil
  | case2 => exact .cons _ ‹_›
  | case3 => exact .cons_cons _ ‹_›

theorem ready_significant (bytes : List UInt8) :
    (Cursor.ofLexemes (significant false (lex bytes))).Ready (IsWordRange bytes) bytes.length := by
  have hsub := significant_sublist false (lex bytes)
  have hlex := laidOut_lex bytes
  exact ⟨rfl, hlex.spread.sublist (hsub.map _), fun l hl => hlex.words l (hsub.subset hl)⟩

/-- In the parse tree of every file, names are words inside what they name. -/
theorem parseTree_namesInside (bytes : List UInt8) :
    ∀ n ∈ (parseTree bytes).preorder, n.NamesInside (IsWordRange bytes) :=
  namesInside_parseTree (ready_significant bytes)

end CodeAtlas.Java
