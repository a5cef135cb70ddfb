import CodeAtlas.Proofs.Files.Trees
import CodeAtlas.Proofs.Store.Rows

/-! # Files below a root

Where names are texts, the files below a directory are told apart by their paths. Where
besides no ignore file has rules, a scan of the directory finds exactly those of them whose
paths the scanner accepts, and what is read behind the root at a path made of names is the
content of the file at that path.
-/

namespace CodeAtlas

/-! ## Paths made of names -/

namespace Text

theorem intercalate_pieces (s : String) : "/".intercalate (pieces '/' s) = s := by
  apply String.toList_injective
  rw [String.toList_intercalate, pieces_eq, List.map_map]
  have hid : String.toList ∘ String.ofList = id := by
    funext cs
    simp
  rw [hid, List.map_id]
  exact List.intercalate_splitOn '/'

end Text

namespace Path

theorem component?_of_isName {n : String} (h : IsName n) (first : Bool) :
    component? first n = some (.normal n) := by
  simp [component?, h.ne_empty, h.ne_dot, h.ne_dots]

theorem components_eq_pieces {p : String} (h : ∀ n ∈ Text.pieces '/' p, IsName n) :
    components p = (Text.pieces '/' p).map .normal := by
  unfold components
  cases hp : Text.pieces '/' p with
  | nil => rfl
  | cons first rest =>
    rw [hp] at h
    have hfirst := h first List.mem_cons_self
    have hrest : rest.filterMap (component? false) = rest.map Component.normal := by
      rw [← List.filterMap_eq_map]
      apply List.filterMap_congr
      intro n hn
      exact component?_of_isName (h n (List.mem_cons_of_mem _ hn)) false
    have hne : first.isEmpty = false := by simpa using hfirst.ne_empty
    simp [hne, component?_of_isName hfirst, hrest]

theorem names_eq_pieces {p : String} (h : ∀ n ∈ Text.pieces '/' p, IsName n) :
    names p = Text.pieces '/' p := by
  rw [names, components_eq_pieces h, List.filterMap_map]
  simp [Function.comp_def, Component.name?]

end Path

/-! ## Lookups -/

namespace FileTree

variable {t sub : FileTree} {content : List UInt8} {names : List FileName}

def fileAt? (t : FileTree) (names : List FileName) : Option (List UInt8) :=
  match t.at? names with
  | some (.file content) => some content
  | _ => none

/-- The content of the file at a path below the place that a root leads to. -/
def below? (t : FileTree) (root path : String) : Option (List UInt8) :=
  match t.resolve [] root with
  | .ok names => t.fileAt? (names ++ (Text.pieces '/' path).map .text)
  | .error _ => none

theorem fileAt?_eq_some_iff :
    t.fileAt? names = some content ↔ t.at? names = some (.file content) := by
  unfold fileAt?
  constructor
  · intro h
    split at h
    · rename_i hat
      rw [hat, Option.some.inj h]
    · simp at h
  · intro h
    rw [h]

theorem at?_append (a b : List FileName) :
    t.at? (a ++ b) = (t.at? a).bind fun sub => sub.at? b := by
  induction a generalizing t with
  | nil => rfl
  | cons n a ih =>
    rw [List.cons_append, at?, at?]
    cases t.entry? n with
    | none => rfl
    | some child => exact ih

theorem Proper.entry?_eq_some_iff {es : List (FileName × FileTree)} (h : (FileTree.dir es).Proper)
    {n : FileName} {child : FileTree} :
    FileTree.entry? (.dir es) n = some child ↔ (n, child) ∈ es := by
  obtain ⟨⟩ | ⟨hn, _, _⟩ := h
  rw [ entry?, entries, Option.map_eq_some_iff]
  constructor
  · rintro ⟨e, he, rfl⟩
    obtain ⟨hm, rfl⟩ := (find?_key_eq_some_iff hn).mp he
    exact hm
  · intro hm
    exact ⟨_, (find?_key_eq_some_iff hn).mpr ⟨hm, rfl⟩, rfl⟩

theorem at?_file_eq_some_iff :
    (file content).at? names = some sub ↔ names = [] ∧ sub = file content := by
  cases names with
  | nil => simp [at?, eq_comm]
  | cons n rest => simp [at?, FileTree.entry?, entries]

theorem Proper.at?_dir_eq_file_iff {es : List (FileName × FileTree)}
    (h : (FileTree.dir es).Proper) :
    (FileTree.dir es).at? names = some (.file content) ↔
      ∃ e ∈ es, ∃ rest, names = e.1 :: rest ∧ e.2.at? rest = some (.file content) := by
  cases names with
  | nil => simp [FileTree.at?]
  | cons n rest =>
    rw [FileTree.at?]
    constructor
    · intro hat
      split at hat
      · rename_i child hc
        exact ⟨(n, child), h.entry?_eq_some_iff.mp hc, rest, rfl, hat⟩
      · simp at hat
    · rintro ⟨⟨m, child⟩, he, rest', hnames, hat⟩
      obtain ⟨rfl, rfl⟩ := List.cons.inj hnames
      simp only [h.entry?_eq_some_iff.mpr he]
      exact hat

theorem isFileAt_iff {cwd : List FileName} {path : DiskPath} :
    t.isFileAt cwd path = true ↔ ∃ content, t.read cwd path = .ok content := by
  unfold isFileAt read
  cases t.resolve cwd path with
  | error fault => simp
  | ok names =>
    simp only
    cases t.at? names with
    | none => simp
    | some sub => cases sub <;> simp [isDir]

/-- What is read behind a canonical root is the file below the root, at a path made of
names. -/
theorem below?_of_read {root : List String} {p : String} (hr : ∀ n ∈ root, IsName n)
    (hp : ∀ n ∈ Text.pieces '/' p, IsName n) (hdir : t.isDirAt [] (Path.absolute root) = true)
    (h : t.read [] (Path.join (Path.absolute root) p) = .ok content) :
    t.below? (Path.absolute root) p = some content := by
  have hne : Text.pieces '/' p ≠ [] := by
    rw [Text.pieces_eq]
    simp [List.splitOn_eq_splitOnP]
  have hjoin := Path.join_absolute hr hp hne
  rw [Text.intercalate_pieces] at hjoin
  rw [hjoin] at h
  have hnames : ∀ n ∈ root ++ Text.pieces '/' p, IsName n := by
    intro n hn
    rcases List.mem_append.mp hn with hn | hn
    · exact hr n hn
    · exact hp n hn
  have hroot : t.resolve [] (Path.absolute root) = .ok (root.map .text) := by
    unfold isDirAt at hdir
    cases hres : t.resolve [] (Path.absolute root) with
    | error fault => simp [hres] at hdir
    | ok names => rw [Path.resolve_absolute hr hres]
  unfold read at h
  cases hres : t.resolve [] (Path.absolute (root ++ Text.pieces '/' p)) with
  | error fault => simp [hres] at h
  | ok names =>
    obtain rfl := Path.resolve_absolute hnames hres
    simp only [hres, List.map_append] at h
    rw [below?, hroot]
    apply fileAt?_eq_some_iff.mpr
    split at h
    · rename_i hat
      rw [hat, Except.ok.inj h]
    · simp at h
    · simp at h

end FileTree

/-! ## Ignore files -/

/-- The files that rules are read from, as names below a directory. -/
def ignoreFiles : List (List FileName) := [[".ignore"], [".gitignore"], [".git", "info", "exclude"]]

/-- No ignore file of a tree has a rule. -/
def FileTree.NoRules (t : FileTree) : Prop :=
  ∀ dir : List FileName, ∀ file ∈ ignoreFiles, Ignore.rulesAt t (dir ++ file) = []

namespace Ignore

theorem nearest?_eq_none {t : FileTree} {file : List FileName}
    (h : ∀ dir : List FileName, rulesAt t (dir ++ file) = []) (isDir : Bool)
    (dirs : List (List FileName × List FileName)) :
    nearest? (fun d => verdict? (rulesAt t (d.1 ++ file)) d.2 isDir) dirs = none := by
  apply List.findSome?_eq_none_iff.mpr
  intro d _
  simp [h, verdict?]

theorem isIgnored_eq_false {t : FileTree} (h : t.NoRules) (useGit : Bool) (path : List FileName)
    (isDir : Bool) : isIgnored t useGit path isDir = false := by
  have hgeneral := nearest?_eq_none (fun dir => h dir [".ignore"] (by simp [ignoreFiles])) isDir
  have hgit := nearest?_eq_none (fun dir => h dir [".gitignore"] (by simp [ignoreFiles])) isDir
  have hexclude := nearest?_eq_none
    (fun dir => h dir [".git", "info", "exclude"] (by simp [ignoreFiles])) isDir
  simp [isIgnored, hgeneral, hgit, hexclude]

end Ignore

/-! ## Scans -/

namespace Scanner

variable {skip : List FileName → Bool → Bool} {barred : FileName → Bool} {names : List FileName}

/-- The names above a file are those above it in its entry, and the name of the entry when
this is a directory. -/
theorem barred_above_iff {t : FileTree} {name : FileName} {rest : List FileName}
    {content : List UInt8} (hat : t.at? rest = some (.file content)) :
    (∀ n ∈ (name :: rest).dropLast, barred n = false) ↔
      (t.isDir && barred name) = false ∧ ∀ n ∈ rest.dropLast, barred n = false := by
  cases rest with
  | nil =>
    obtain rfl := Option.some.inj hat
    simp [FileTree.isDir]
  | cons m rest =>
    cases t with
    | file content' => simp [FileTree.at?_file_eq_some_iff] at hat
    | dir es => simp [FileTree.isDir]

mutual

theorem mem_walk_iff
    (hskip : ∀ path isDir, skip path isDir = (isDir && path.getLast?.any barred)) :
    ∀ {t : FileTree} {here : List FileName}, t.Proper → (names ∈ walk skip here t ↔
      ∃ rest content, names = here ++ rest ∧ t.at? rest = some (.file content) ∧
        ∀ n ∈ rest.dropLast, barred n = false)
  | .file content, here, _ => by
    simp only [walk, List.mem_singleton, FileTree.at?_file_eq_some_iff]
    constructor
    · rintro rfl
      exact ⟨[], content, by simp, ⟨rfl, rfl⟩, by simp⟩
    · rintro ⟨rest, content', rfl, ⟨rfl, _⟩, _⟩
      simp
  | .dir es, here, h => by
    have hsub : ∀ e ∈ es, e.2.Proper := by
      cases h with
      | dir _ _ hsub => exact hsub
    rw [walk, mem_walkEntries_iff hskip hsub]
    simp only [h.at?_dir_eq_file_iff]
    constructor
    · rintro ⟨e, he, rest, content, rfl, hat, hbar⟩
      exact ⟨e.1 :: rest, content, rfl, ⟨e, he, rest, rfl, hat⟩, hbar⟩
    · rintro ⟨_, content, rfl, ⟨e, he, rest, rfl, hat⟩, hbar⟩
      exact ⟨e, he, rest, content, rfl, hat, hbar⟩

theorem mem_walkEntries_iff
    (hskip : ∀ path isDir, skip path isDir = (isDir && path.getLast?.any barred)) :
    ∀ {es : List (FileName × FileTree)} {here : List FileName}, (∀ e ∈ es, e.2.Proper) →
      (names ∈ walkEntries skip here es ↔ ∃ e ∈ es, ∃ rest content, names = here ++ e.1 :: rest ∧
        e.2.at? rest = some (.file content) ∧ ∀ n ∈ (e.1 :: rest).dropLast, barred n = false)
  | [], _, _ => by simp [walkEntries]
  | (name, t) :: es, here, h => by
    have ht : t.Proper := h (name, t) List.mem_cons_self
    have hes : ∀ e ∈ es, e.2.Proper := fun e he => h e (List.mem_cons_of_mem _ he)
    have hhead : names ∈ (if skip (here ++ [name]) t.isDir then []
          else walk skip (here ++ [name]) t) ↔
        ∃ rest content, names = here ++ name :: rest ∧ t.at? rest = some (.file content) ∧
          ∀ n ∈ (name :: rest).dropLast, barred n = false := by
      rw [hskip, List.getLast?_concat, Option.any_some]
      cases hb : t.isDir && barred name with
      | true =>
        constructor
        · intro hm
          simp at hm
        · rintro ⟨rest, content, rfl, hat, hbar⟩
          have := ((barred_above_iff hat).mp hbar).1
          simp [hb] at this
      | false =>
        rw [if_neg (by simp), mem_walk_iff hskip ht]
        constructor
        · rintro ⟨rest, content, rfl, hat, hbar⟩
          exact ⟨rest, content, by simp, hat, (barred_above_iff hat).mpr ⟨hb, hbar⟩⟩
        · rintro ⟨rest, content, rfl, hat, hbar⟩
          exact ⟨rest, content, by simp, hat, ((barred_above_iff hat).mp hbar).2⟩
    rw [walkEntries, List.mem_append, hhead, mem_walkEntries_iff hskip hes]
    simp

end

variable {s : Scanner} {t : FileTree} {root : List FileName} {p : String}

theorem skips_eq (h : t.NoRules) (path : List FileName) (isDir : Bool) :
    s.skips t root path isDir =
      (isDir && path.getLast?.any fun n => s.excluded.contains n.shown) := by
  rw [skips, Ignore.isIgnored_eq_false h, Bool.or_false, Option.any_map]

theorem accepts_names (h : s.accepts p = true) :
    ∀ n ∈ Path.names p, s.excluded.contains n = false := by
  rw [accepts, Bool.and_eq_true, Bool.not_eq_true', List.any_eq_false] at h
  intro n hn
  simpa using h.2 n hn

/-- Without rules to ignore files, a scan finds the accepted paths at which there are files. -/
theorem mem_scanAt_iff (ht : t.Proper) (htext : t.Textual) (hrules : t.NoRules)
    {es : List (FileName × FileTree)} (hroot : t.at? root = some (.dir es)) :
    (∃ f ∈ s.scanAt t root, f.relPath = p) ↔ s.accepts p = true ∧
      ∃ content, t.fileAt? (root ++ (Text.pieces '/' p).map .text) = some content := by
  have hdir : (FileTree.dir es).Proper := ht.at? hroot
  have hwalk : ∀ names, names ∈ walk (s.skips t root) [] (.dir es) ↔
      ∃ rest content, names = [] ++ rest ∧ (FileTree.dir es).at? rest = some (.file content) ∧
        ∀ n ∈ rest.dropLast, s.excluded.contains n.shown = false :=
    fun names => mem_walk_iff (skips_eq hrules) hdir
  have hfile : ∀ names content, t.fileAt? (root ++ names) = some content ↔
      (FileTree.dir es).at? names = some (.file content) := by
    intro names content
    rw [FileTree.fileAt?_eq_some_iff, FileTree.at?_append, hroot]
    rfl
  have hnamed : ∀ names content, (FileTree.dir es).at? names = some (.file content) →
      ∀ n ∈ names, n.IsProper ∧ n.IsText := fun names content hat n hn =>
    ⟨(hdir.allNames.at? hat).1 n hn, ((htext.at? hroot).2.at? hat).1 n hn⟩
  constructor
  · rintro ⟨f, hf, rfl⟩
    obtain ⟨haccepts, sub, names, hsub, hnames, rfl⟩ := mem_scanAt.mp hf
    obtain rfl := Option.some.inj (hroot.symm.trans hsub)
    obtain ⟨names, content, rfl, hat, _⟩ := (hwalk _).mp hnames
    have hne : names.map FileName.shown ≠ [] := by
      rintro he
      obtain rfl := List.map_eq_nil_iff.mp he
      simp [FileTree.at?] at hat
    refine ⟨haccepts, content, ?_⟩
    have hshown := isName_map_shown fun n hn => (hnamed _ _ hat n hn).1
    simp only [hfile, fileBelow, FileName.shownPath]
    rw [Text.pieces_intercalate hne fun n hn => (hshown n hn).no_slash,
      FileName.map_text_shown fun n hn => (hnamed _ _ hat n hn).2]
    exact hat
  · rintro ⟨haccepts, content, hat⟩
    rw [hfile] at hat
    have hnames : ∀ n ∈ Text.pieces '/' p, IsName n := fun n hn =>
      (hnamed _ _ hat (.text n) (List.mem_map_of_mem hn)).1
    have hpath : (fileBelow root ((Text.pieces '/' p).map .text)).relPath = p := by
      rw [fileBelow, FileName.shownPath, List.map_map]
      exact (congrArg _ (List.map_id _)).trans (Text.intercalate_pieces p)
    refine ⟨_, mem_scanAt.mpr ⟨hpath.symm ▸ haccepts, _, _, hroot, ?_, rfl⟩, hpath⟩
    refine (hwalk _).mpr ⟨_, content, rfl, hat, ?_⟩
    intro n hn
    obtain ⟨m, hm, rfl⟩ := List.mem_map.mp (List.dropLast_subset _ hn)
    apply accepts_names haccepts
    rwa [Path.names_eq_pieces hnames]

/-- A scan of a canonical directory finds the accepted paths of the files below it. -/
theorem mem_scan_iff (ht : t.Proper) (htext : t.Textual) (hrules : t.NoRules)
    {root : List String} (hr : ∀ n ∈ root, IsName n)
    (hdir : t.isDirAt [] (Path.absolute root) = true) {found : List ScannedFile}
    (h : s.scan t [] (Path.absolute root) = .ok found) :
    (∃ f ∈ found, f.relPath = p) ↔
      s.accepts p = true ∧ ∃ content, t.below? (Path.absolute root) p = some content := by
  obtain ⟨names, hn, rfl⟩ := scan_ok h
  obtain rfl := Path.resolve_absolute hr hn
  simp only [FileTree.isDirAt, hn, beq_iff_eq, Option.map_eq_some_iff] at hdir
  obtain ⟨sub, hsub, hd⟩ := hdir
  cases sub with
  | file content => simp [FileTree.isDir] at hd
  | dir es =>
    rw [mem_scanAt_iff ht htext hrules hsub, FileTree.below?, hn]

end Scanner

end CodeAtlas
