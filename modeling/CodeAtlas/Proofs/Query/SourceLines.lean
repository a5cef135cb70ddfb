import CodeAtlas.Proofs.Index.Isolation
import CodeAtlas.Proofs.Index.Origins
import CodeAtlas.Proofs.Index.Survival
import CodeAtlas.Proofs.Java.NameLines
import CodeAtlas.Query.SourceText

/-! # Source on the recorded lines

The source of a symbol is the text on the lines that are stored for it, as far as the budget
goes. These lines were counted in bytes when the file was indexed, and are split off in
characters when it is read. As long as the file stays the same, they have the symbol's name
on them.
-/

namespace CodeAtlas

/-- A front end reads a content off some tree of it, which has its names inside what they
name. -/
structure FrontEnd.Builds (frontEnd : FrontEnd) (content : List UInt8) (root : Java.Node) :
    Prop where
  read_eq : ∀ path fallback,
    frontEnd.read path content fallback = .ok (Java.outlineOf content root fallback)
  names : ∀ n ∈ root.preorder, n.NamesInside (Java.IsWordRange content)

theorem FrontEnd.builds_java (content : List UInt8) :
    FrontEnd.java.Builds content (Java.parseTree content) where
  read_eq _ _ := rfl
  names := Java.parseTree_namesInside content

namespace Store

/-- A query for the source of a name finds a symbol of it, whose file has some content. -/
structure Opens (s : Store) (t : FileTree) (q : SourceQuery) (target : SourceTarget)
    (content : List UInt8) : Prop where
  named : Text.trim q.fqn ≠ ""
  found : SourceText.find? s (Text.trim q.fqn) q.codebase = some target
  withBody : q.includeBody ≠ some false
  read : t.read [] target.path = .ok content

variable {s : Store} {t : FileTree} {q : SourceQuery} {target : SourceTarget}
  {content : List UInt8}

theorem mem_placedSymbols_of_find? {fqn : String} {codebase : Option Int}
    (h : SourceText.find? s fqn codebase = some target) : target.symbol ∈ s.placedSymbols := by
  unfold SourceText.find? at h
  cases hn : s.symbolsNamed fqn codebase with
  | nil => simp [hn] at h
  | cons first rest =>
    simp only [hn] at h
    obtain ⟨_, _, rfl⟩ := Option.map_eq_some_iff.mp h
    have hfirst : first ∈ s.symbolsNamed fqn codebase := hn ▸ List.mem_cons_self
    exact List.mem_of_mem_filter (mem_sortBy.mp hfirst)

theorem mem_ownedBy_of_mem_placedSymbols {p : PlacedSymbol} (h : p ∈ s.placedSymbols) :
    p.symbol ∈ s.symbols.ownedBy p.file.id := by
  obtain ⟨r, hr, hp⟩ := List.mem_filterMap.mp h
  obtain ⟨f, hf, rfl⟩ := Option.map_eq_some_iff.mp hp
  have hid : f.id = r.data.owner := by simpa using List.find?_some hf
  rw [Table.ownedBy]
  exact List.mem_map.mpr ⟨r, List.mem_filter.mpr ⟨hr, by simpa using hid.symm⟩, rfl⟩

theorem readSource_of_opens (h : s.Opens t q target content) :
    s.readSource t q =
      SourceText.cut target (SourceText.linesOf content target.symbol.symbol) q.maxTokens := by
  have hbody : q.includeBody.getD true = true := by
    cases hb : q.includeBody with
    | none => rfl
    | some b =>
      cases b with
      | false => exact absurd hb h.withBody
      | true => rfl
  simp only [readSource, String.isEmpty_iff, h.named, if_false, h.found, SourceText.answer, hbody,
    if_true, h.read]

theorem budget_eq (maxTokens : Option Nat) :
    SourceText.budget maxTokens = min (4 * max 1 (maxTokens.getD 2000)) (2 ^ 64 - 1) := by
  rw [SourceText.budget, Nat.max_comm, Nat.mul_comm]
  rfl

/-- The lines of a symbol in the content that its file was indexed from have its name. -/
theorem IndexedFrom.name_infix {frontEnd : FrontEnd} {root : Java.Node} {file : Row FileEntry}
    (hbuilds : frontEnd.Builds content root) (h : s.IndexedFrom frontEnd file content)
    {symbol : Symbol} (hs : symbol ∈ s.symbols.ownedBy file.id) :
    1 ≤ symbol.lineStart ∧ symbol.lineStart ≤ symbol.lineEnd ∧
      symbol.name.toList <:+: (SourceText.linesOf content symbol).toList := by
  obtain ⟨outline, hread, hsymbols⟩ := h.exists_outline
  rw [hbuilds.read_eq] at hread
  obtain ⟨f, rfl, rfl, rfl⟩ : ∃ f : Java.ParsedFile,
      f.bytes = content ∧ f.root = root ∧ f.outline = outline :=
    ⟨⟨content, root, packageOfPath file.data.path⟩, rfl, rfl, ReadResult.ok.inj hread⟩
  rw [hsymbols] at hs
  obtain ⟨hfirst, hlast⟩ := Java.ParsedFile.lines_ordered hs
  exact ⟨hfirst, hlast, Java.ParsedFile.name_infix_lines hbuilds.names hs⟩

/-- The source of a symbol is the text of its lines, up to the budget, and it is truncated when
the text is longer. The text has as many lines as its bytes. The lines of a symbol that is found
have its name while its file is as it was when it was indexed, whatever tree was built then, and
every file that the service stores was indexed from a content that occurred. -/
theorem readSource_shows_lines :
    (∀ {s : Store} {t : FileTree} {q : SourceQuery} {target : SourceTarget} {content : List UInt8},
      s.Opens t q target content →
      1 ≤ target.symbol.symbol.lineStart →
      target.symbol.symbol.lineStart ≤ target.symbol.symbol.lineEnd →
      ∃ text, Text.IsStretch (Text.decode content).toList target.symbol.symbol.lineStart
          target.symbol.symbol.lineEnd text ∧
        s.readSource t q =
          { fqn := target.symbol.symbol.fqn
            target := some target
            source := String.ofList
              (text.take (min (4 * max 1 (q.maxTokens.getD 2000)) (2 ^ 64 - 1)))
            truncated := decide
              (min (4 * max 1 (q.maxTokens.getD 2000)) (2 ^ 64 - 1) < text.length) }) ∧
    (∀ {bytes : List UInt8} {lines : List (List Char)},
      Text.HasLines (Text.decode bytes).toList lines → lines.length = Text.lineCount bytes) ∧
    (∀ {s : Store} {t : FileTree} {q : SourceQuery} {target : SourceTarget} {content : List UInt8}
        {frontEnd : FrontEnd} {root : Java.Node}, frontEnd.Builds content root →
      s.Opens t q target content → s.IndexedFrom frontEnd target.symbol.file content →
      1 ≤ target.symbol.symbol.lineStart ∧
        target.symbol.symbol.lineStart ≤ target.symbol.symbol.lineEnd ∧
        ∀ text, Text.IsStretch (Text.decode content).toList target.symbol.symbol.lineStart
            target.symbol.symbol.lineEnd text → target.symbol.symbol.name.toList <:+: text) ∧
    (∀ content, FrontEnd.java.Builds content (Java.parseTree content)) ∧
    ∀ {worlds : Set Surroundings} {excluded : List String} {service : Service},
      Service.Reached worlds .default excluded service →
      ∀ {fqn : String} {codebase : Option Int} {target : SourceTarget},
        SourceText.find? service.store fqn codebase = some target →
        ∃ indexed ∈ contentsIn worlds,
          service.store.IndexedFrom .java target.symbol.file indexed := by
  refine ⟨fun h hfirst hlast => ⟨_, (Text.isStretch_iff hfirst hlast).mpr rfl, ?_⟩,
    fun hlines => ?_, fun hbuilds h hindexed => ?_, FrontEnd.builds_java,
    fun hreached _ _ _ h => ?_⟩
  · rw [readSource_of_opens h, SourceText.cut, budget_eq]
    rfl
  · rw [Text.hasLines_iff.mp hlines, Text.length_linesOf_decode]
  · obtain ⟨hfirst, hlast, hname⟩ := hindexed.name_infix hbuilds
      (mem_ownedBy_of_mem_placedSymbols (mem_placedSymbols_of_find? h.found))
    refine ⟨hfirst, hlast, fun text htext => ?_⟩
    rw [(Text.isStretch_iff hfirst hlast).mp htext]
    exact hname
  · obtain ⟨c, _, frontEnd, _, hlang, hfrom⟩ := hreached.exists_indexedFrom
      (mem_files_of_mem_placedSymbols (mem_placedSymbols_of_find? h))
    obtain rfl := Registry.eq_java_of_forLanguage hlang
    exact hfrom

end Store

/-! ## A sample -/

namespace Sample

/-- Three lines that end in a carriage return and a line feed, one with a character of two
bytes. -/
def wrapped : List UInt8 :=
  "class X \x7b // é\r\n void m() \x7b\x7d\r\n\x7d\r\n".toUTF8.toList

def outlined : Service := (ran registered (world wrapped plain) row false).1

def methodQuery : SourceQuery := { fqn := " X.m ", maxTokens := some 2 }

def methodTarget : SourceTarget :=
  ⟨⟨2, ⟨1, (source "A.java" wrapped).entry .java 1⟩,
    ⟨"X.m", "m", .method, 2, 2, "void m()", "X", .packageAccess⟩⟩, "/r/A.java", 1⟩

theorem reached_outlined :
    Service.Reached {world wrapped plain} .default defaultExcluded outlined := by
  have hreg : Service.Reached {world wrapped plain} .default defaultExcluded registered :=
    reached_registered (Set.mem_singleton _)
  have hnext : Service.Reached {world wrapped plain} .default defaultExcluded
      (registered.index (world wrapped plain) 1 false).1 := hreg.index (Set.mem_singleton _)
  rwa [index_registered (a := wrapped) (b := plain) rfl rfl] at hnext

theorem opens_method :
    outlined.store.Opens (world wrapped plain).tree methodQuery methodTarget wrapped where
  named := by decide +kernel
  found := by
    have hrows : (outlined.store.placedSymbols.filter fun p =>
        p.symbol.fqn == "X.m" && isOpenOr none p.file.data.codebase) = [methodTarget.symbol] := by
      decide +kernel
    rw [show Text.trim methodQuery.fqn = "X.m" by decide +kernel, SourceText.find?,
      Store.symbolsNamed, show methodQuery.codebase = none from rfl, hrows, sortBy,
      List.mergeSort_singleton]
    decide +kernel
  withBody := by decide
  read := by decide +kernel

theorem indexedFrom_wrapped :
    outlined.store.IndexedFrom .java methodTarget.symbol.file wrapped :=
  ⟨source "A.java" wrapped, rfl, rfl, by decide +kernel⟩

end Sample

open Sample in
/-- The line of the method without its carriage return, cut off at eight characters. -/
theorem Store.readSource_shows_lines_wrapped :
    outlined.store.readSource (world wrapped plain).tree methodQuery =
      { fqn := "X.m", target := some methodTarget, source := " void m(", truncated := true } ∧
    (Text.linesOf (Text.decode wrapped).toList).length = Text.lineCount wrapped ∧
    (∀ text, Text.IsStretch (Text.decode wrapped).toList 2 2 text → "m".toList <:+: text) ∧
    ∃ indexed ∈ contentsIn {world wrapped plain},
      outlined.store.IndexedFrom .java methodTarget.symbol.file indexed := by
  obtain ⟨hread, hcount, hname, hbuilds, hindexed⟩ := Store.readSource_shows_lines
  refine ⟨?_, hcount (Text.hasLines_linesOf _),
    (hname (hbuilds wrapped) opens_method indexedFrom_wrapped).2.2,
    hindexed reached_outlined opens_method.found⟩
  obtain ⟨text, htext, hanswer⟩ := hread opens_method (by decide) (by decide)
  have hline : text = " void m() \x7b\x7d".toList := by
    rw [(Text.isStretch_iff (by decide) (by decide)).mp htext]
    decide +kernel
  rw [hanswer, hline]
  rfl

end CodeAtlas
