import CodeAtlas.Proofs.Index.History

/-! # Full runs

After a full run without failures a codebase holds one file for each path that a scan of its
root finds, with the rows that the content on disk yields, and no other file. This is so in
every service that is reached, although a run skips the files whose hash it knows, and whichever
way its workers take turns.
-/

namespace CodeAtlas

/-- A codebase holds one file for each path of a scan, with what a file that the scan finds
there yields, and nothing else. -/
structure Store.Mirrors (s : Store) (c : Int) (frontEnd : FrontEnd) (t : FileTree)
    (found : List ScannedFile) : Prop where
  readable : ∀ f ∈ found, ∃ x, frontEnd.sourceFile? t f = some x
  nodup : ((s.storedFiles c).map fun x => x.entry.path).Nodup
  stored : ∀ f ∈ found, ∃ x ∈ s.storedFiles c, x.entry.path = f.relPath
  scanned : ∀ x ∈ s.storedFiles c,
    ∃ f ∈ found, ∃ y, frontEnd.sourceFile? t f = some y ∧ x = y.stored frontEnd c

/-- Where no two files of a scan share a path, a codebase holds what each of them yields. -/
theorem Store.Mirrors.mem_iff {s : Store} {c : Int} {frontEnd : FrontEnd} {t : FileTree}
    {found : List ScannedFile} (h : s.Mirrors c frontEnd t found)
    (hpaths : ∀ f ∈ found, ∀ g ∈ found, f.relPath = g.relPath → f = g) (x : StoredFile) :
    x ∈ s.storedFiles c ↔
      ∃ f ∈ found, ∃ y, frontEnd.sourceFile? t f = some y ∧ x = y.stored frontEnd c := by
  refine ⟨h.scanned x, ?_⟩
  rintro ⟨f, hf, y, hy, rfl⟩
  obtain ⟨x, hx, hp⟩ := h.stored f hf
  obtain ⟨g, hg, z, hz, rfl⟩ := h.scanned x hx
  have hgp : z.path = g.relPath := (FrontEnd.sourceFile?_eq_some_iff.mp hz).1
  obtain rfl : g = f := hpaths g hg f hf (hgp.symm.trans hp)
  rwa [Option.some.inj (hy.symm.trans hz)]

/-- Two codebases that mirror one scan whose files do not share paths hold the same files. -/
theorem Store.Mirrors.perm {s s' : Store} {c : Int} {frontEnd : FrontEnd} {t : FileTree}
    {found : List ScannedFile} (h : s.Mirrors c frontEnd t found)
    (h' : s'.Mirrors c frontEnd t found)
    (hpaths : ∀ f ∈ found, ∀ g ∈ found, f.relPath = g.relPath → f = g) :
    (s.storedFiles c).Perm (s'.storedFiles c) :=
  (List.perm_ext_iff_of_nodup h.nodup.of_map h'.nodup.of_map).mpr fun x => by
    rw [h.mem_iff hpaths, h'.mem_iff hpaths]

namespace IndexRun

variable {frontEnd : FrontEnd} {t : FileTree} {c : Int} {s s' : Store}

/-- A codebase mirrors a scan when at each path of the scan a file that it finds there is
current, and no other path is stored. -/
theorem mirrors_of_current (h : s.Sound) {found : List ScannedFile}
    (hread : ∀ f ∈ found, ∃ x, frontEnd.sourceFile? t f = some x)
    (hcur : ∀ f ∈ found, ∃ g ∈ found, g.relPath = f.relPath ∧ Current frontEnd t c s g)
    (hnone : ∀ p, (∀ f ∈ found, f.relPath ≠ p) → s.storedAt? c p = none) :
    s.Mirrors c frontEnd t found := by
  refine ⟨hread, h.storedFiles_nodup c, fun f hf => ?_, fun x hx => ?_⟩
  · obtain ⟨g, _, hp, y, _, hs⟩ := hcur f hf
    exact ⟨_, h.mem_storedFiles_iff.mpr ((h.storedAt?_eq_some_iff.mp hs).2 ▸ hs),
      (h.storedAt?_eq_some_iff.mp hs).2.trans hp⟩
  · rw [h.mem_storedFiles_iff] at hx
    by_cases hm : ∃ f ∈ found, f.relPath = x.entry.path
    · obtain ⟨f, hf, hp⟩ := hm
      obtain ⟨g, hg, hgp, y, hy, hs⟩ := hcur f hf
      rw [hgp, hp, hx] at hs
      exact ⟨g, hg, y, hy, Option.some.inj hs⟩
    · push Not at hm
      rw [hnone _ hm] at hx
      simp at hx

theorem Settled.mirrors {found : List ScannedFile}
    (h : Settled frontEnd t c s (.ofScan s c found) s') (hs : s.Sound) :
    s'.Mirrors c frontEnd t found := by
  refine mirrors_of_current h.sound h.readable h.processed fun p hp => ?_
  rw [h.others p hp]
  split
  · rfl
  · -- A path that the scan did not find would have been deleted.
    rename_i hd
    by_contra hn
    exact hd ((IndexPlan.mem_delete_ofScan hs).mpr ⟨Option.ne_none_iff_exists'.mp hn, hp⟩)

end IndexRun

namespace Service

variable {worlds : Set Surroundings} {registry : Registry} {excluded : List String} {s : Service}

theorem Faithful.vouched_run (h : Faithful worlds registry excluded s) {r : OpenRun}
    (hr : r ∈ s.runs) (frontEnd : FrontEnd)
    (hf : registry.forLanguage r.codebase.data.language = some frontEnd) :
    s.store.Vouched (contentsIn worlds) frontEnd r.codebase.id :=
  h.vouched _ (h.registered r hr) frontEnd hf

/-- A full run without failures leaves the codebase as a scan of its root finds it. -/
theorem full_run_mirrors_scan (h : Reached worlds registry excluded s)
    (hinj : Set.InjOn contentHash (contentsIn worlds)) {w : Surroundings} (hw : w ∈ worlds)
    {r : OpenRun} (hr : r ∈ s.runs) {summary : IndexSummary}
    (hok : (s.finish w r).2 = .ok summary) (hm : summary.mode = .full) (hf : summary.failed = 0) :
    ∃ frontEnd found,
      registry.forLanguage r.codebase.data.language = some frontEnd ∧
      (Scanner.make frontEnd.extensions excluded true).scan w.tree [] r.codebase.data.rootPath =
        .ok found ∧
      (s.finish w r).1.store.Sound ∧
      (s.finish w r).1.store.Mirrors r.codebase.id frontEnd w.tree found := by
  have hs := h.faithful
  rw [finish, hs.registry_eq, hs.excluded_eq] at hok ⊢
  obtain ⟨frontEnd, plan, hfe, hplan, hmode, hsettled⟩ :=
    IndexRun.run_settled hinj hs.sound (hs.vouched_run hr) (fun _ hc => ⟨w, hw, hc⟩) hok hf
  obtain ⟨found, hscan, rfl⟩ :=
    IndexPlan.full_ok (IndexPlan.full_of_make hplan (hmode.symm.trans hm))
  exact ⟨frontEnd, found, (IndexRun.check_ok hfe).1, hscan, hsettled.sound,
    hsettled.mirrors hs.sound⟩

end Service

/-! ## A sample

Two files in a directory, of which one has a call, seen by a service that registered the
directory.
-/

namespace Sample

/-- The text `class X{void m(){n();}}`. -/
def calling : List UInt8 :=
  [99, 108, 97, 115, 115, 32, 88, 123, 118, 111, 105, 100, 32, 109, 40, 41, 123, 110, 40, 41, 59,
    125, 125]

/-- The text `class Y{}`. -/
def plain : List UInt8 := [99, 108, 97, 115, 115, 32, 89, 123, 125]

def world (a b : List UInt8) : Surroundings :=
  { tree := .dir [("r", .dir [("A.java", .file a), ("B.java", .file b)])], now := "" }

def files : List ScannedFile := [⟨"A.java", "/r/A.java"⟩, ⟨"B.java", "/r/B.java"⟩]

def row : Row Codebase := ⟨1, { rootPath := "/r", language := "java", name := "r" }⟩

def registered : Service := { store := { codebases := ⟨[row], 1⟩ } }

def openRun : OpenRun := ⟨row, false⟩

def claimed : Service :=
  { registered with statuses := registered.statuses.set 1 .starting, runs := [openRun] }

section

variable {a b : List UInt8}

theorem holds_world_iff {content : List UInt8} :
    (world a b).tree.Holds content ↔ content = a ∨ content = b := by
  simp [world, FileTree.holds_dir_iff, FileTree.holds_file_iff]

theorem proper_world : (world a b).Proper where
  tree := by
    have hr : (FileName.text "r").IsProper := by decide
    have ha : (FileName.text "A.java").IsProper := by decide
    have hb : (FileName.text "B.java").IsProper := by decide
    refine .dir (by simp) (by simpa using hr) ?_
    simp only [List.mem_singleton, forall_eq]
    refine .dir (by simp) (by simpa using ⟨ha, hb⟩) ?_
    simpa using ⟨FileTree.Proper.file a, FileTree.Proper.file b⟩
  cwd := by simp [world]

theorem textual_world : (world a b).tree.Textual := by
  have htext : ∀ s : String, (FileName.text s).IsText := fun s => ⟨s, rfl⟩
  refine .dir (by simpa using htext "r") ?_
  simp only [List.mem_singleton, forall_eq]
  exact .dir (by simpa using ⟨htext "A.java", htext "B.java"⟩)
    (by simpa using ⟨FileTree.AllNames.file a, FileTree.AllNames.file b⟩)

theorem injOn_contents {worlds : Set Surroundings}
    (h : ∀ content ∈ contentsIn worlds, content = calling ∨ content = plain) :
    Set.InjOn contentHash (contentsIn worlds) := by
  have hne : contentHash calling ≠ contentHash plain := by decide +kernel
  intro x hx y hy hxy
  rcases h x hx with rfl | rfl <;> rcases h y hy with rfl | rfl
  · rfl
  · exact absurd hxy hne
  · exact absurd hxy.symm hne
  · rfl

theorem resolve_world : (world a b).tree.resolve [] "/r" = .ok ["r"] := rfl

theorem scan_world : (Scanner.make FrontEnd.java.extensions defaultExcluded true).scan
    (world a b).tree [] "/r" = .ok files := by
  have hfound : (([["A.java"], ["B.java"]] : List (List FileName)).map
      (Scanner.fileBelow ["r"])).filter (fun f => (Scanner.make FrontEnd.java.extensions
        defaultExcluded true).accepts f.relPath) = files ∧
      files.Pairwise fun f g => Text.bytesLe f.relPath g.relPath := by decide +kernel
  exact Scanner.scan_of_walk resolve_world rfl hfound.1 hfound.2

/-- What a registration of the sample takes from its path and its language. -/
theorem spelled_row :
    Path.absolute ((["r"] : List FileName).map FileName.shown) = "/r" ∧
    Service.codebaseName none "/r" = "r" ∧ Text.asciiLower "java" = "java" := by decide +kernel

theorem forLanguage_java : Registry.default.forLanguage "java" = some .java := by
  obtain ⟨_, _, hj⟩ := spelled_row
  simp [Registry.default, Registry.register, Registry.forLanguage, Registry.lookup, FrontEnd.java,
    hj]

theorem check_world {w : Surroundings} (hw : w.begun = (world a b).tree) {registry : Registry}
    (hs : registry = .default) {c : Codebase} (hl : c.language = "java")
    (hr : c.rootPath = "/r") : IndexRun.check registry w c = .ok .java := by
  have hd : (world a b).tree.isDirAt [] "/r" = true := rfl
  simp [IndexRun.check, hw, hs, hl, hr, forLanguage_java, hd]

/-- What a full run does that finds some files. -/
def ranOver (found : List ScannedFile) (s : Service) (w : Surroundings) (row : Row Codebase)
    (force : Bool) : Service × Except Error IndexSummary :=
  let report := IndexRun.carryOut ⟨row, force⟩ w .java s.store .starting
    (w.detector.head? row.data.rootPath) (.ofScan s.store row.id found)
  ({ s with
      store := report.store
      statuses := (s.statuses.set row.id .starting).set row.id report.status
      runs := [] }, report.outcome)

def ran : Service → Surroundings → Row Codebase → Bool → Service × Except Error IndexSummary :=
  ranOver files

theorem index_eq_ran {w : Surroundings} (hw : w.tree = (world a b).tree)
    (hbegun : w.begun = (world a b).tree) {s : Service} (hs : s.registry = .default)
    (he : s.excluded = defaultExcluded) (hruns : s.runs = []) {row : Row Codebase}
    (hrow : s.store.codebase? row.id = some row)
    (hl : row.data.language = "java") (hr : row.data.rootPath = "/r")
    (hidle : s.statuses.isIndexing row.id = false) {force : Bool}
    (hb : (⟨row, force⟩ : OpenRun).base? = none) :
    s.index w row.id force = ran s w row force :=
  Service.index_of_scan hrow hidle hruns (check_world hbegun hs hl hr) hb
    (by rw [hw, he, hr, scan_world])

theorem index_registered {w : Surroundings} (hw : w.tree = (world a b).tree)
    (hbegun : w.begun = (world a b).tree) :
    registered.index w 1 false = ran registered w row false := by
  have hrow : registered.store.codebase? row.id = some row := rfl
  exact index_eq_ran hw hbegun rfl rfl rfl hrow rfl rfl rfl rfl

theorem register_root {w : Surroundings} {registry : Registry}
    (hr : w.tree.resolve w.cwd "/r" = .ok ["r"])
    (hdir : (w.tree.at? ["r"]).map FileTree.isDir = some true) :
    ({ registry := registry } : Service).register w "/r" "java" none =
      .ok ({ registered with registry := registry }, row) := by
  obtain ⟨hp, hn, hj⟩ := spelled_row
  have hu : ({} : Store).upsertCodebase "/r" "java" "r" = (registered.store, row) := by
    rw [Store.upsertCodebase, hj]
    rfl
  simp only [Service.register, hr, hdir, hp, hn, hu]
  rfl

theorem register_world {registry : Registry} :
    ({ registry := registry } : Service).register (world a b) "/r" "java" none =
      .ok ({ registered with registry := registry }, row) :=
  register_root resolve_world rfl

theorem claim_registered : registered.claim 1 false = .ok claimed := by
  have hrow : registered.store.codebase? 1 = some row := rfl
  have hidle : registered.statuses.isIndexing 1 = false := rfl
  simp only [Service.claim, hrow, hidle]
  rfl

theorem reached_registered {worlds : Set Surroundings} (h : world a b ∈ worlds) :
    Service.Reached worlds .default defaultExcluded registered :=
  .register .start h register_world

theorem reached_claimed {worlds : Set Surroundings} (h : world a b ∈ worlds) :
    Service.Reached worlds .default defaultExcluded claimed :=
  .claim (reached_registered h) claim_registered

end

theorem finish_claimed :
    (claimed.finish (world calling plain) openRun).2 = .ok ⟨1, .full, 2, 2, 0, 0, 0, none⟩ := by
  simp only [Service.finish]
  rw [show claimed.registry = .default from rfl, show claimed.excluded = defaultExcluded from rfl,
    IndexRun.run_of_scan (r := openRun) (check_world (a := calling) (b := plain) rfl rfl rfl rfl)
      rfl scan_world]
  decide +kernel

end Sample

theorem Service.full_run_mirrors_scan_sample :
    ∃ frontEnd found, Registry.default.forLanguage "java" = some frontEnd ∧
      (Scanner.make frontEnd.extensions defaultExcluded true).scan
        (Sample.world Sample.calling Sample.plain).tree [] "/r" = .ok found ∧
      (Sample.claimed.finish (Sample.world Sample.calling Sample.plain)
        Sample.openRun).1.store.Sound ∧
      (Sample.claimed.finish (Sample.world Sample.calling Sample.plain)
        Sample.openRun).1.store.Mirrors 1 frontEnd
          (Sample.world Sample.calling Sample.plain).tree found :=
  full_run_mirrors_scan (Sample.reached_claimed (Set.mem_singleton _))
    (Sample.injOn_contents fun _ ⟨_, hw, hc⟩ => Sample.holds_world_iff.mp (hw ▸ hc))
    (Set.mem_singleton _) List.mem_cons_self Sample.finish_claimed rfl rfl

end CodeAtlas
