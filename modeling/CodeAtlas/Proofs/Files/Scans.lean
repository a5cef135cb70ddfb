import CodeAtlas.Proofs.Files.Disk

/-! # What a scan finds

A scan does not enter directories with excluded names, and tests the names of every path that
it comes to once more. The second test alone would do: a scan of a directory finds the same as
entering every directory and keeping the paths that are accepted. It finds a path as often as
there are files that it stands for, which can be several where names are no texts.
-/

namespace CodeAtlas

/-! ## Extensions of names -/

namespace Path

/-- The extension of a name: what follows its last dot, and nothing where there is no dot but
one in front. -/
inductive HasExtension : String → String → Prop where
  | dotted {stem ext : String} (hstem : stem ≠ "") (hext : '.' ∉ ext.toList) :
      HasExtension (stem ++ "." ++ ext) ext
  | plain {name : String} (hname : '.' ∉ name.toList.tail) : HasExtension name ""

theorem extension?_eq {path name : String} (h : fileName? path = some name) :
    extension? path =
      if ((name.toList.reverse.dropWhile (· != '.')).drop 1).isEmpty then none
      else some (String.ofList (name.toList.reverse.takeWhile (· != '.')).reverse) := by
  rw [extension?, h]

theorem extension?_dotted {path stem ext : String} (hstem : stem ≠ "") (hext : '.' ∉ ext.toList)
    (h : fileName? path = some (stem ++ "." ++ ext)) : extension? path = some ext := by
  have hchars : (stem ++ "." ++ ext).toList = stem.toList ++ '.' :: ext.toList := by
    simp
  have hrest : stem.toList ≠ [] := fun he => hstem (String.toList_eq_nil_iff.mp he)
  rw [extension?_eq h, hchars, Text.dropWhile_reverse_append hext,
    Text.takeWhile_reverse_append hext]
  simp [hrest]

theorem extension?_plain {path name : String} (hname : '.' ∉ name.toList.tail)
    (h : fileName? path = some name) : extension? path = none := by
  rw [extension?_eq h, if_pos]
  cases hcs : name.toList with
  | nil => rfl
  | cons c cs =>
    rw [hcs, List.tail_cons] at hname
    rw [List.reverse_cons, List.dropWhile_append_of_pos (Text.ne_of_mem_reverse hname)]
    by_cases hc : c = '.' <;> simp [hc]

theorem exists_stem {name : String} (h : '.' ∈ name.toList.tail) :
    ∃ stem ext : String, stem ≠ "" ∧ '.' ∉ ext.toList ∧ name = stem ++ "." ++ ext := by
  obtain ⟨c, cs, hcs⟩ :=
    List.exists_cons_of_ne_nil (l := name.toList) (by rintro he; simp [he] at h)
  rw [hcs, List.tail_cons, ← List.mem_reverse] at h
  obtain ⟨ext, front, hrev, hext⟩ := List.eq_append_cons_of_mem h
  refine ⟨.ofList (c :: front.reverse), .ofList ext.reverse, by simp, by simpa using hext, ?_⟩
  apply String.toList_injective
  rw [hcs, ← List.reverse_reverse cs, hrev]
  simp

theorem hasExtension_iff {path name ext : String} (h : fileName? path = some name) :
    HasExtension name ext ↔ (extension? path).getD "" = ext := by
  constructor
  · rintro (⟨hstem, hext⟩ | hname)
    · rw [extension?_dotted hstem hext h]
      rfl
    · rw [extension?_plain hname h]
      rfl
  · rintro rfl
    by_cases hname : '.' ∈ name.toList.tail
    · obtain ⟨stem, ext, hstem, hext, rfl⟩ := exists_stem hname
      rw [extension?_dotted hstem hext h]
      exact .dotted hstem hext
    · rw [extension?_plain hname h]
      exact .plain hname

theorem pieces_of_names {names : List String} (hnames : ∀ n ∈ names, IsName n)
    (hne : names ≠ []) : Text.pieces '/' ("/".intercalate names) = names :=
  Text.pieces_intercalate hne fun n hn => (hnames n hn).no_slash

theorem fileName?_intercalate {names : List String} (hnames : ∀ n ∈ names, IsName n)
    (hne : names ≠ []) : fileName? ("/".intercalate names) = names.getLast? := by
  have hpieces := pieces_of_names hnames hne
  rw [fileName?, components_eq_pieces (by rwa [hpieces]), hpieces, List.getLast?_map]
  cases names.getLast? <;> rfl

theorem names_intercalate {names : List String} (hnames : ∀ n ∈ names, IsName n)
    (hne : names ≠ []) : Path.names ("/".intercalate names) = names := by
  have hpieces := pieces_of_names hnames hne
  rw [names_eq_pieces (by rwa [hpieces]), hpieces]

end Path

namespace Scanner

/-! ## Accepted paths -/

/-- The names of a file that a scan is after: its extension is one of the given ones up to
ASCII case, and none of the names is excluded. -/
structure Wants (extensions excluded names : List String) : Prop where
  suffix : ∃ name ∈ names.getLast?, ∃ ext, Path.HasExtension name ext ∧
    ∃ e ∈ extensions, Text.asciiLower e = Text.asciiLower ext
  included : ∀ n ∈ names, n ∉ excluded

theorem accepts_make_iff {extensions excluded names : List String} {useGitIgnore : Bool}
    (hnames : ∀ n ∈ names, IsName n) (hne : names ≠ []) :
    (make extensions excluded useGitIgnore).accepts ("/".intercalate names) = true ↔
      Wants extensions excluded names := by
  have hname := List.getLast?_eq_some_getLast hne
  have hfile : Path.fileName? ("/".intercalate names) = some (names.getLast hne) := by
    rw [Path.fileName?_intercalate hnames hne, hname]
  have hsuffix : ((make extensions excluded useGitIgnore).extensions.contains (Text.asciiLower
      ((Path.extension? ("/".intercalate names)).getD ""))) = true ↔
      ∃ name ∈ names.getLast?, ∃ ext, Path.HasExtension name ext ∧
        ∃ e ∈ extensions, Text.asciiLower e = Text.asciiLower ext := by
    simp [make, hname, Path.hasExtension_iff hfile]
  have hincluded : (!(Path.names ("/".intercalate names)).any
      (make extensions excluded useGitIgnore).excluded.contains) = true ↔
      ∀ n ∈ names, n ∉ excluded := by
    simp [make, Path.names_intercalate hnames hne]
  rw [accepts, Bool.and_eq_true, hsuffix, hincluded]
  exact ⟨fun h => ⟨h.1, h.2⟩, fun h => ⟨h.1, h.2⟩⟩

theorem accepts_eq_false {s : Scanner} {names : List String} (hnames : ∀ n ∈ names, IsName n)
    {n : String} (hn : n ∈ names) (hexcluded : s.excluded.contains n = true) :
    s.accepts ("/".intercalate names) = false := by
  by_contra haccepts
  rw [Bool.not_eq_false] at haccepts
  have hkept := accepts_names haccepts n
  rw [Path.names_intercalate hnames (List.ne_nil_of_mem hn), hexcluded] at hkept
  exact absurd (hkept hn) (by simp)

/-! ## Walks with and without pruning -/

/-- The names of all files of a tree, below the place `here`. -/
def walkAll (here : List FileName) (t : FileTree) : List (List FileName) :=
  walk (fun _ _ => false) here t

theorem mem_walkAll_iff {t : FileTree} {names : List FileName} (ht : t.Proper) :
    names ∈ walkAll [] t ↔ ∃ content, t.at? names = some (.file content) := by
  let barred : FileName → Bool := fun _ => false
  have hskip : ∀ (path : List FileName) (isDir : Bool),
      false = (isDir && path.getLast?.any barred) := by simp [barred]
  rw [walkAll, mem_walk_iff hskip ht]
  simp [barred]

section Pruning

variable {skip : List FileName → Bool → Bool} {keep : List FileName → Bool}

mutual

/-- Entries that are left out do not matter where all files below them are rejected. -/
theorem filter_walk
    (hskip : ∀ path name isDir, skip (path ++ [name]) isDir = true →
      ∀ names, (∀ n ∈ names, n.IsProper) → name ∈ names → keep names = false) :
    ∀ {t : FileTree} {here : List FileName}, t.Proper → (∀ n ∈ here, n.IsProper) →
      (walk skip here t).filter keep = (walk (fun _ _ => false) here t).filter keep
  | .file _, _, _, _ => rfl
  | .dir es, here, .dir _ hnames hsub, hhere => by
    rw [walk, walk]
    exact filter_walkEntries hskip hnames hsub hhere

theorem filter_walkEntries
    (hskip : ∀ path name isDir, skip (path ++ [name]) isDir = true →
      ∀ names, (∀ n ∈ names, n.IsProper) → name ∈ names → keep names = false) :
    ∀ {es : List (FileName × FileTree)} {here : List FileName}, (∀ e ∈ es, e.1.IsProper) →
      (∀ e ∈ es, e.2.Proper) → (∀ n ∈ here, n.IsProper) →
      (walkEntries skip here es).filter keep =
        (walkEntries (fun _ _ => false) here es).filter keep
  | [], _, _, _, _ => by rw [walkEntries, walkEntries]
  | (name, t) :: es, here, hnames, hsub, hhere => by
    have ht : t.Proper := hsub (name, t) List.mem_cons_self
    have hplace : ∀ n ∈ here ++ [name], n.IsProper := by
      simpa [or_imp, forall_and] using ⟨hhere, hnames (name, t) List.mem_cons_self⟩
    have hrest := filter_walkEntries hskip (fun e he => hnames e (List.mem_cons_of_mem _ he))
      (fun e he => hsub e (List.mem_cons_of_mem _ he)) hhere
    rw [walkEntries, walkEntries, List.filter_append, List.filter_append, hrest]
    congr 1
    cases hs : skip (here ++ [name]) t.isDir with
    | false => simpa using filter_walk hskip ht hplace
    | true =>
      symm
      simp only [Bool.false_eq_true, if_false, if_true, List.filter_nil, List.filter_eq_nil_iff]
      intro names hm
      obtain ⟨rest, rfl, _, hrest⟩ := mem_walk hm
      have hall : ∀ n ∈ here ++ [name] ++ rest, n.IsProper := by
        intro n hn
        rcases List.mem_append.mp hn with hn | hn
        · exact hplace n hn
        · exact hrest _ ht.allNames n hn
      rw [hskip here name _ hs _ hall (by simp)]
      exact Bool.false_ne_true

end

end Pruning

/-! ## Scans as filters -/

/-- The paths of all files of a tree that are accepted, in order. -/
def acceptedPaths (s : Scanner) (t : FileTree) : List String :=
  (((walkAll [] t).map FileName.shownPath).filter s.accepts).mergeSort Text.bytesLe

def AcceptedFile (s : Scanner) (t : FileTree) (names : List FileName) : Prop :=
  (∃ content, t.at? names = some (.file content)) ∧ s.accepts (FileName.shownPath names) = true

variable {s : Scanner} {t sub : FileTree} {place names : List FileName}

theorem scanAt_eq (ht : t.Proper) (hrules : t.NoRules) (hsub : t.at? place = some sub) :
    s.scanAt t place =
      (((walkAll [] sub).filter fun names => s.accepts (FileName.shownPath names)).map
        (fileBelow place)).mergeSort fun f g => Text.bytesLe f.relPath g.relPath := by
  have hskip : ∀ path name isDir, s.skips t place (path ++ [name]) isDir = true →
      ∀ names, (∀ n ∈ names, n.IsProper) → name ∈ names →
        s.accepts (FileName.shownPath names) = false := by
    intro path name isDir h names hnames hname
    rw [skips_eq hrules, List.getLast?_concat, Option.any_some, Bool.and_eq_true] at h
    exact accepts_eq_false (isName_map_shown hnames) (List.mem_map_of_mem hname) h.2
  rw [walkAll, ← filter_walk hskip (ht.at? hsub) (by simp), scanAt, hsub, Option.map_some,
    Option.getD_some, List.filter_map]
  rfl

theorem mem_scanAt_iff_at? (ht : t.Proper) (hrules : t.NoRules) (hsub : t.at? place = some sub)
    {f : ScannedFile} :
    f ∈ s.scanAt t place ↔ ∃ names, s.AcceptedFile sub names ∧ f = fileBelow place names := by
  rw [scanAt_eq ht hrules hsub, List.mem_mergeSort, List.mem_map]
  simp only [List.mem_filter, mem_walkAll_iff (ht.at? hsub), AcceptedFile, @eq_comm _ f]

theorem map_relPath_scanAt (ht : t.Proper) (hrules : t.NoRules) (hsub : t.at? place = some sub) :
    (s.scanAt t place).map ScannedFile.relPath = s.acceptedPaths sub := by
  rw [scanAt_eq ht hrules hsub, List.map_mergeSort, List.map_map, acceptedPaths, List.filter_map]
  · rfl
  · intro f _ g _
    rfl

theorem AcceptedFile.isProper (ht : t.Proper) (hsub : t.at? place = some sub)
    (h : s.AcceptedFile sub names) : ∀ n ∈ place ++ names, n.IsProper := by
  obtain ⟨⟨content, hat⟩, _⟩ := h
  have hboth : t.at? (place ++ names) = some (.file content) := by
    rw [FileTree.at?_append, hsub]
    exact hat
  exact (ht.allNames.at? hboth).1

theorem nodup_scanAt (ht : t.Proper) (hrules : t.NoRules) (hsub : t.at? place = some sub) :
    (s.scanAt t place).Nodup := by
  rw [scanAt_eq ht hrules hsub, (List.mergeSort_perm _ _).nodup_iff]
  refine List.Nodup.map_on ?_ ((walk_nodup (ht.at? hsub)).filter _)
  have hproper : ∀ names ∈ (walkAll [] sub).filter fun names =>
      s.accepts (FileName.shownPath names), ∀ n ∈ place ++ names, n.IsProper := by
    intro names hn
    rw [List.mem_filter, mem_walkAll_iff (ht.at? hsub)] at hn
    exact AcceptedFile.isProper ht hsub hn
  intro a ha b hb hab
  exact fileBelow_inj (congrArg ScannedFile.absPath hab) (hproper a ha) (hproper b hb)

/-- The paths that a scan finds go up strictly where no two accepted files show as one path. -/
theorem scanAt_pairwise_iff (ht : t.Proper) (hrules : t.NoRules) (hsub : t.at? place = some sub) :
    ((s.scanAt t place).Pairwise fun f g => f.relPath < g.relPath) ↔
      ∀ a b, s.AcceptedFile sub a → s.AcceptedFile sub b →
        FileName.shownPath a = FileName.shownPath b → a = b := by
  have hmem : ∀ names, s.AcceptedFile sub names → fileBelow place names ∈ s.scanAt t place :=
    fun names hn => (mem_scanAt_iff_at? ht hrules hsub).mpr ⟨names, hn, rfl⟩
  constructor
  · intro h a b ha hb hab
    have hinj : ∀ f ∈ s.scanAt t place, ∀ g ∈ s.scanAt t place, f.relPath = g.relPath → f = g :=
      fun f hf g hg => List.inj_on_of_nodup_map
        (List.pairwise_map.mpr (h.imp fun hlt => ne_of_lt hlt)) hf hg
    exact fileBelow_inj (congrArg ScannedFile.absPath (hinj _ (hmem a ha) _ (hmem b hb) hab))
      (ha.isProper ht hsub) (hb.isProper ht hsub)
  · intro h
    refine scanAt_pairwise (List.Nodup.map_on ?_ (nodup_scanAt ht hrules hsub))
    intro f hf g hg hfg
    obtain ⟨a, ha, rfl⟩ := (mem_scanAt_iff_at? ht hrules hsub).mp hf
    obtain ⟨b, hb, rfl⟩ := (mem_scanAt_iff_at? ht hrules hsub).mp hg
    rw [h a b ha hb hfg]

/-- A scan of a directory without rules to ignore files finds all files below it whose paths
are accepted, each once and in order, as if every directory were entered and whatever the
directory is called. Their paths go up strictly where no two of them show as one path, so
where names are texts. -/
theorem scan_filters_all_files (extensions excluded : List String) (useGitIgnore : Bool)
    (ht : t.Proper) (hrules : t.NoRules) {cwd : List FileName} {root : String}
    (hdir : t.isDirAt cwd root = true) :
    ∃ place sub found, t.resolve cwd root = .ok place ∧ t.at? place = some sub ∧
      (make extensions excluded useGitIgnore).scan t cwd root = .ok found ∧
      found.Nodup ∧
      (found.Pairwise fun f g => f.relPath ≤ g.relPath) ∧
      ((found.Pairwise fun f g => f.relPath < g.relPath) ↔
        ∀ a b, (make extensions excluded useGitIgnore).AcceptedFile sub a →
          (make extensions excluded useGitIgnore).AcceptedFile sub b →
          FileName.shownPath a = FileName.shownPath b → a = b) ∧
      (t.Textual → found.Pairwise fun f g => f.relPath < g.relPath) ∧
      found.map ScannedFile.relPath =
        (make extensions excluded useGitIgnore).acceptedPaths sub ∧
      (∀ f, f ∈ found ↔ ∃ names, (make extensions excluded useGitIgnore).AcceptedFile sub names ∧
        f = fileBelow place names) ∧
      ∀ names content, sub.at? names = some (.file content) →
        ((make extensions excluded useGitIgnore).accepts (FileName.shownPath names) = true ↔
          Wants extensions excluded (names.map FileName.shown)) := by
  unfold FileTree.isDirAt at hdir
  split at hdir
  · rename_i place hplace
    obtain ⟨sub, hsub, hd⟩ := Option.map_eq_some_iff.mp (beq_iff_eq.mp hdir)
    refine ⟨place, sub, _, hplace, hsub, by rw [scan, hplace], nodup_scanAt ht hrules hsub,
      scanAt_pairwise_le, scanAt_pairwise_iff ht hrules hsub,
      fun htext => scanAt_pairwise (scanAt_nodup ht htext), map_relPath_scanAt ht hrules hsub,
      fun f => mem_scanAt_iff_at? ht hrules hsub, ?_⟩
    intro names content hat
    refine accepts_make_iff (isName_map_shown ((ht.at? hsub).allNames.at? hat).1) ?_
    intro he
    obtain rfl := List.map_eq_nil_iff.mp he
    rw [FileTree.at?, Option.some.injEq] at hat
    simp [hat, FileTree.isDir] at hd
  · simp at hdir

/-- A tree in which no file goes by the name of an ignore file has no rules. -/
theorem noRules_of_walkAll (ht : t.Proper)
    (h : ∀ names ∈ walkAll [] t, ∀ n ∈ names.getLast?,
      n ∉ ([".ignore", ".gitignore", "exclude"] : List FileName)) : t.NoRules := by
  intro dir file hfile
  unfold Ignore.rulesAt
  split
  · rename_i content hat
    have hlast := h _ ((mem_walkAll_iff ht).mpr ⟨content, hat⟩)
    simp only [ignoreFiles, List.mem_cons, List.not_mem_nil, or_false] at hfile
    rcases hfile with rfl | rfl | rfl <;> simp at hlast
  · rfl

end Scanner

namespace Sample

/-- A directory of sources, one of them below a directory. -/
def sources : FileTree :=
  .dir [("B.java", .file []), ("build", .dir [("C.java", .file [])]), ("notes.txt", .file [])]

def target : FileTree :=
  .dir [(".hidden", .dir [("A.java", .file [])]), ("build", .file []), ("src", sources)]

theorem proper_target : (FileTree.dir [("target", target)]).Proper := by
  have hfile : ∀ n : FileName, n.IsProper → (FileTree.dir [(n, .file [])]).Proper := by
    intro n hn
    exact .dir (by simp) (by simpa using hn) (by simp [FileTree.Proper.file])
  have hsources : sources.Proper :=
    .dir (by decide) (by decide) (by simp [FileTree.Proper.file, hfile "C.java" (by decide)])
  have htarget : target.Proper :=
    .dir (by decide) (by decide)
      (by simp [FileTree.Proper.file, hsources, hfile "A.java" (by decide)])
  exact .dir (by decide) (by decide) (by simpa using htarget)

theorem make_java : Scanner.make ["JAVA"] ["target", "build"] true =
    ⟨["java"], ["target", "build"], true⟩ := by
  have hlower : ["JAVA"].map Text.asciiLower = ["java"] := by decide +kernel
  rw [Scanner.make, hlower]

theorem acceptedPaths_target :
    (Scanner.make ["JAVA"] ["target", "build"] true).acceptedPaths target =
      [".hidden/A.java", "src/B.java"] := by
  have hall : (Scanner.walkAll [] target).map FileName.shownPath =
      [".hidden/A.java", "build", "src/B.java", "src/build/C.java", "src/notes.txt"] := by
    decide +kernel
  have hkept : [".hidden/A.java", "build", "src/B.java", "src/build/C.java",
      "src/notes.txt"].filter (Scanner.accepts ⟨["java"], ["target", "build"], true⟩) =
      [".hidden/A.java", "src/B.java"] := by
    decide +kernel
  rw [make_java, Scanner.acceptedPaths, hall, hkept]
  exact List.mergeSort_of_pairwise (by decide +kernel)

def oddName : FileName := .raw [0x61, 0xff, 0x2e, 0x6a, 0x61, 0x76, 0x61] (by decide +kernel)

def oddTwin : FileName := .raw [0x61, 0xfe, 0x2e, 0x6a, 0x61, 0x76, 0x61] (by decide +kernel)

/-- A directory of two such files, and one of a file without extension. -/
def oddTree : FileTree :=
  .dir [("odd", .dir [(oddName, .file []), (oddTwin, .file [])]),
    ("plain", .dir [("Makefile", .file [])])]

theorem proper_oddTree : oddTree.Proper := by
  have hodd : (FileTree.dir [(oddName, .file []), (oddTwin, .file [])]).Proper :=
    .dir (by decide +kernel) (by decide +kernel) (by simp [FileTree.Proper.file])
  have hplain : (FileTree.dir [("Makefile", .file [])]).Proper :=
    .dir (by decide) (by decide) (by simp [FileTree.Proper.file])
  exact .dir (by decide) (by decide) (by simp [hodd, hplain])

end Sample

open Sample in
/-- Files whose names show alike are found under one path, and a file without extension is found
where the empty one is asked for. -/
theorem Scanner.scan_repeats_paths :
    oddTree.Proper ∧ oddTree.NoRules ∧
      oddTree.isDirAt [] "/odd" = true ∧ oddTree.isDirAt [] "/plain" = true ∧
      (∃ found, (make ["java"] [] true).scan oddTree [] "/odd" = .ok found ∧
        found.map ScannedFile.relPath = ["a\uFFFD.java", "a\uFFFD.java"] ∧
        ¬ (found.map ScannedFile.relPath).Nodup ∧
        ¬ found.Pairwise fun f g => f.relPath < g.relPath) ∧
      ∃ found, (make [""] [] true).scan oddTree [] "/plain" = .ok found ∧
        found.map ScannedFile.relPath = ["Makefile"] ∧ Path.extension? "Makefile" = none := by
  have hrules : oddTree.NoRules := noRules_of_walkAll proper_oddTree (by decide +kernel)
  have hodd : (make ["java"] [] true).scan oddTree [] "/odd" =
      .ok ((make ["java"] [] true).scanAt oddTree ["odd"]) := by
    have hresolve : oddTree.resolve [] "/odd" = .ok ["odd"] := by decide +kernel
    rw [scan, hresolve]
  have hplain : (make [""] [] true).scan oddTree [] "/plain" =
      .ok ((make [""] [] true).scanAt oddTree ["plain"]) := by
    have hresolve : oddTree.resolve [] "/plain" = .ok ["plain"] := by decide +kernel
    rw [scan, hresolve]
  have htwice : ((make ["java"] [] true).scanAt oddTree ["odd"]).map ScannedFile.relPath =
      ["a\uFFFD.java", "a\uFFFD.java"] := by
    have hkept : ((walkAll [] (.dir [(oddName, .file []), (oddTwin, .file [])])).map
        FileName.shownPath).filter (make ["java"] [] true).accepts =
        ["a\uFFFD.java", "a\uFFFD.java"] := by decide +kernel
    rw [map_relPath_scanAt proper_oddTree hrules rfl, acceptedPaths, hkept]
    exact List.mergeSort_of_pairwise (by decide +kernel)
  have honce : ((make [""] [] true).scanAt oddTree ["plain"]).map ScannedFile.relPath =
      ["Makefile"] := by
    have hkept : ((walkAll [] (.dir [("Makefile", .file [])])).map
        FileName.shownPath).filter (make [""] [] true).accepts = ["Makefile"] := by decide +kernel
    rw [map_relPath_scanAt proper_oddTree hrules rfl, acceptedPaths, hkept]
    exact List.mergeSort_singleton _
  refine ⟨proper_oddTree, hrules, by decide +kernel, by decide +kernel,
    ⟨_, hodd, htwice, by simp [htwice], ?_⟩, _, hplain, honce, by decide +kernel⟩
  intro hstrict
  have hnodup := (List.pairwise_map.mpr hstrict : List.Pairwise (· < ·) _).imp ne_of_lt
  rw [htwice] at hnodup
  simp at hnodup

open Sample in
/-- The excluded names are `target`, which the directory itself goes by, and `build`. -/
theorem Scanner.scan_filters_all_files_target :
    (FileTree.dir [("target", target)]).Proper ∧ (FileTree.dir [("target", target)]).NoRules ∧
      (FileTree.dir [("target", target)]).isDirAt ["target"] "src/.." = true ∧
      ∃ found, (make ["JAVA"] ["target", "build"] true).scan
          (.dir [("target", target)]) ["target"] "src/.." = .ok found ∧
        found.map ScannedFile.relPath = [".hidden/A.java", "src/B.java"] := by
  have hrules : (FileTree.dir [("target", target)]).NoRules :=
    noRules_of_walkAll proper_target (by decide +kernel)
  have hdir : (FileTree.dir [("target", target)]).isDirAt ["target"] "src/.." = true := by
    decide +kernel
  obtain ⟨place, sub, found, hplace, hsub, hscan, _, _, _, _, hpaths, _⟩ :=
    scan_filters_all_files ["JAVA"] ["target", "build"] true proper_target hrules hdir
  obtain rfl : place = ["target"] := by
    have hresolve : (FileTree.dir [("target", target)]).resolve ["target"] "src/.." =
        .ok ["target"] := by decide +kernel
    exact Except.ok.inj (hplace.symm.trans hresolve)
  obtain rfl : sub = target := by
    have hat : (FileTree.dir [("target", target)]).at? ["target"] = some target := rfl
    exact Option.some.inj (hsub.symm.trans hat)
  refine ⟨proper_target, hrules, hdir, found, hscan, ?_⟩
  rw [hpaths, acceptedPaths_target]

end CodeAtlas
