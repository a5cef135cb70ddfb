import CodeAtlas.Proofs.Java.Spans
import CodeAtlas.Proofs.Java.Words

/-! # Names on the lines of their symbols

A symbol is named by a word inside the declaration that it is made from. Rows are counted in
bytes and lines are split in characters, but both count the same line feeds. So the name stands
on one of the lines that the symbol has.
-/

namespace CodeAtlas.Java

open Text (Glyph glyphs widths)

/-! ## The node of a name -/

section Names

variable {src : Source} {facts : FileFacts} {n : Node}

/-- A declaration gives a symbol its name by its own name, or by that of one of its
declarators. -/
inductive GivesName (src : Source) (n : Node) (name : String) : Prop
  | own : isDeclaration n.kind = true → declaredName? src n = some name → GivesName src n name
  | declarator {d : Node} : isDeclaration n.kind = true → d ∈ n.childrenOf .declarator →
      declaredName? src d = some name → GivesName src n name

theorem givesName_of_mem_memberOutline {owner : String} {fields : Bindings} {s : Symbol}
    (hs : s ∈ (memberOutline src facts owner fields n).symbols) : GivesName src n s.name := by
  rcases memberOutline_cases src facts owner fields n with
    ⟨hkind, h⟩ | ⟨hkind, h⟩ | ⟨kind, hkind, h⟩ | h
  · rw [h, fieldOutline_eq_join, Outline.symbols_join] at hs
    simp only [List.mem_flatMap, List.mem_map] at hs
    obtain ⟨_, ⟨name, hname, rfl⟩, hs⟩ := hs
    obtain rfl := List.mem_singleton.mp hs
    obtain ⟨d, hd, hname⟩ := List.mem_filterMap.mp hname
    exact .declarator (by simp [isDeclaration, hkind]) hd hname
  · rw [h, enumConstantOutline] at hs
    split at hs
    · obtain rfl := List.mem_singleton.mp hs
      exact .own (by simp [isDeclaration, hkind]) ‹_›
    · cases hs
  · cases hname : declaredName? src n with
    | none =>
      rw [h, callableOutline, hname] at hs
      cases hs
    | some name =>
      rw [h, callableOutline_of_name hname] at hs
      obtain rfl := List.mem_singleton.mp hs
      exact .own (by simp [isDeclaration, hkind]) hname
  · rw [h] at hs
    cases hs

theorem givesName_of_mem_ownOutline {place : Place} {s : Symbol}
    (hs : s ∈ (ownOutline src facts place n).symbols) : GivesName src n s.name := by
  cases hkind : typeKind? n.kind with
  | none =>
    cases place with
    | top =>
      rw [ownOutline_top hkind] at hs
      cases hs
    | inType owner fields =>
      rw [ownOutline_inType hkind] at hs
      exact givesName_of_mem_memberOutline hs
  | some kind =>
    cases hname : declaredName? src n with
    | none =>
      rw [ownOutline_of_unnamed hkind hname] at hs
      cases hs
    | some name =>
      rw [ownOutline_of_type hkind hname] at hs
      obtain rfl := List.mem_singleton.mp hs
      exact .own (by simp [isDeclaration, hkind]) hname

theorem exists_name_of_declaredName? {W : Nat → Nat → Prop} {name : String}
    (h : declaredName? src n = some name) (hn : n.NamesInside W)
    (hkind : n.kind.bearsName = true) :
    ∃ m : Node, m.text src = name ∧ m.IsWord W ∧ n.start ≤ m.start ∧ m.stop ≤ n.stop := by
  obtain ⟨m, hm, rfl⟩ := Option.map_eq_some_iff.mp h
  have hrole : m.role = some .name := by simpa using List.find?_some hm
  exact ⟨m, rfl, (hn hkind m (Node.mem_children_of_child? hm)).1 hrole⟩

theorem GivesName.exists_name {W : Nat → Nat → Prop} {name : String} (h : GivesName src n name)
    (hnames : ∀ m ∈ n.preorder, m.NamesInside W) :
    ∃ m : Node, m.text src = name ∧ m.IsWord W ∧ n.start ≤ m.start ∧ m.stop ≤ n.stop := by
  have hself : n ∈ n.preorder := Node.mem_preorder_iff.mpr ⟨[], Node.at?_nil n⟩
  cases h with
  | own hkind hname =>
    exact exists_name_of_declaredName? hname (hnames n hself) (by simp [Kind.bearsName, hkind])
  | @declarator d hkind hd hname =>
    obtain ⟨hchild, hrole⟩ := List.mem_filter.mp hd
    obtain ⟨hd, hstart, hstop⟩ :=
      (hnames n hself (by simp [Kind.bearsName, hkind]) d hchild).2 (by simpa using hrole)
    have hbears : d.kind.bearsName = true := by
      rw [hd]
      rfl
    obtain ⟨m, hm, hword, hfirst, hlast⟩ := exists_name_of_declaredName? hname
      (hnames d (Node.mem_preorder_of_mem_children hchild)) hbears
    exact ⟨m, hm, hword, Nat.le_trans hstart hfirst, Nat.le_trans hlast hstop⟩

end Names

/-! ## Words in the text of a file -/

section Words

variable {bytes : List UInt8} {before word after : List Glyph} {start stop : Nat}

theorem text_ofBytes (bytes : List UInt8) (start stop : Nat) :
    (Source.ofBytes bytes).text start stop =
      Text.decode ((bytes.drop start).take (stop - start)) := by
  simp [Source.text, Source.ofBytes, List.extract_eq_take_drop]

namespace WordRange

variable (h : WordRange bytes before word after start stop)

include h

theorem toList_text :
    ((Source.ofBytes bytes).text start stop).toList = word.map Glyph.char := by
  have htext := h.text
  rw [List.append_assoc] at htext
  have hrest := (Text.glyphs_take_drop htext).2.1
  have hwidth : stop - start = widths word := by
    rw [h.start, h.stop, Text.widths_append]
    omega
  rw [text_ofBytes, Text.toList_decode, hwidth, h.start, (Text.glyphs_take_drop hrest).1]

theorem toList_decode : (Text.decode bytes).toList =
    before.map Glyph.char ++ word.map Glyph.char ++ after.map Glyph.char := by
  rw [Text.toList_decode, h.text, List.map_append, List.map_append]

theorem row_start :
    (Source.ofBytes bytes).row start = (before.map Glyph.char).count '\n' := by
  have htext := h.text
  rw [List.append_assoc] at htext
  rw [Source.row_ofBytes, ← Text.count_decode, Text.toList_decode, h.start,
    (Text.glyphs_take_drop htext).1]

theorem start_le_stop : start ≤ stop := by
  rw [h.start, h.stop, Text.widths_append]
  omega

theorem feed_not_mem : '\n' ∉ word.map Glyph.char ∧ '\r' ∉ word.map Glyph.char := by
  constructor <;> intro hmem <;> obtain ⟨g, hg, hc⟩ := List.mem_map.mp hmem
  · exact (h.unbroken g hg).1 hc
  · exact (h.unbroken g hg).2 hc

theorem row_lt : (Source.ofBytes bytes).row start < Text.lineCount bytes := by
  obtain ⟨hfeed, hreturn⟩ := h.feed_not_mem
  obtain ⟨line, hline, -⟩ := Text.exists_line_of_word (by simp [h.ne_nil]) hfeed hreturn
    (before.map Glyph.char) (after.map Glyph.char)
  rw [← h.toList_decode, ← h.row_start] at hline
  rw [← Text.length_linesOf_decode]
  exact (List.getElem?_eq_some_iff.mp hline).1

end WordRange

end Words

/-! ## Lines -/

theorem ParsedFile.lines_ordered {f : ParsedFile} {s : Symbol} (hs : s ∈ f.outline.symbols) :
    1 ≤ s.lineStart ∧ s.lineStart ≤ s.lineEnd := by
  obtain ⟨p, x, _, hs⟩ := mem_symbols_iff.mp hs
  obtain ⟨hfirst, hlast⟩ := Prod.mk.inj (span_eq hs)
  omega

/-- In a tree with its names inside what they name, the lines of a symbol contain its name. -/
theorem ParsedFile.name_infix_lines {f : ParsedFile}
    (h : ∀ n ∈ f.root.preorder, n.NamesInside (IsWordRange f.bytes)) {s : Symbol}
    (hs : s ∈ f.outline.symbols) :
    s.name.toList <:+:
      (Text.sliceLines (Text.decode f.bytes) s.lineStart s.lineEnd).toList := by
  obtain ⟨p, x, hx, hs⟩ := mem_symbols_iff.mp hs
  obtain ⟨m, hname, hword, hstart, hstop⟩ := (givesName_of_mem_ownOutline hs).exists_name
    fun n hn => h n (Node.mem_preorder_trans hx.mem_preorder hn)
  rw [← hname]
  rcases hword with hempty | ⟨before, word, after, hword⟩
  · have htext : (m.text f.source).toList = [] := by
      rw [Node.text, ParsedFile.source, text_ofBytes, hempty]
      simp [Text.toList_decode, glyphs]
    rw [htext]
    exact List.nil_infix
  · obtain ⟨hfeed, hreturn⟩ := hword.feed_not_mem
    obtain ⟨hfirst, hlast⟩ := Prod.mk.inj (span_eq hs)
    have hrow := Source.row_mono f.bytes hstart
    have hrow' := Source.row_mono f.bytes (Nat.le_trans hword.start_le_stop hstop)
    have hlt := hword.row_lt
    rw [hword.row_start] at hrow hrow' hlt
    have htext : (m.text f.source).toList = word.map Glyph.char := hword.toList_text
    simp only [source, facts] at hfirst hlast
    rw [htext]
    refine Text.infix_sliceLines hword.toList_decode (by simp [hword.ne_nil]) hfeed hreturn ?_ ?_ ?_
    all_goals omega

end CodeAtlas.Java
