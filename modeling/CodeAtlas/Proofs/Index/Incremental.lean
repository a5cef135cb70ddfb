import CodeAtlas.Proofs.Files.Scans
import CodeAtlas.Proofs.Index.Synchronised

/-! # Incremental runs

An incremental run leaves what a full run leaves, provided that the change set lists every
file that is not stored yet. The change set may list paths twice, list paths that did not
change, are gone or are not accepted, and list a path as deleted and changed at once. What
matters is that each file of the scan is the file that its relative path leads to; a path that
a name was replaced in leads to none, and one that is spelled in another way is another path.
-/

namespace CodeAtlas

/-- The change set and the stored paths cover the files of a scan, and no other accepted
file on disk. -/
structure ChangeSet.Covers (changes : ChangeSet) (scanner : Scanner) (t : FileTree) (root : String)
    (found : List ScannedFile) (stored : String → Prop) : Prop where
  unstored : ∀ f ∈ found, ¬ stored f.relPath → f.relPath ∈ changes.changed
  scanned : ∀ p, p ∈ changes.changed ∨ stored p → scanner.accepts p = true →
    IndexPlan.isOnDisk t root p = true → ∃ f ∈ found, f.relPath = p
  deleted : ∀ f ∈ found, f.relPath ∈ changes.deleted → f.relPath ∈ changes.changed

theorem Store.Sound.hasPath_iff {s : Store} (h : s.Sound) {c : Int} {p : String} :
    s.HasPath c p ↔ p ∈ (s.storedFiles c).map fun x => x.entry.path := by
  rw [List.mem_map]
  constructor
  · rintro ⟨x, hx⟩
    exact ⟨x, h.storedAt?_eq_some_iff.mp hx⟩
  · rintro ⟨x, hx⟩
    exact ⟨x, h.storedAt?_eq_some_iff.mpr hx⟩

namespace IndexPlan

variable {t : FileTree} {root p hash : String}

theorem isOnDisk_of_read {content : List UInt8} (h : t.read [] (Path.join root p) = .ok content) :
    isOnDisk t root p = true := by
  unfold FileTree.read at h
  unfold isOnDisk FileTree.isFileAt
  cases hr : t.resolve [] (Path.join root p) with
  | error e => simp [hr] at h
  | ok names =>
    simp only [hr] at h ⊢
    split at h
    · rename_i hs
      simp [hs, FileTree.isDir]
    · simp at h
    · simp at h

theorem isCurrent_iff :
    isCurrent t root p hash = true ↔
      ∃ content, t.read [] (Path.join root p) = .ok content ∧ contentHash content = hash := by
  unfold isCurrent
  cases t.read [] (Path.join root p) <;> simp

/-- Each of some files is the file that its relative path leads to below a root. -/
def Placed (root : String) (found : List ScannedFile) : Prop :=
  ∀ f ∈ found, f = fileAt root f.relPath

theorem Placed.eq_of_relPath {found : List ScannedFile} (h : Placed root found) :
    ∀ f ∈ found, ∀ g ∈ found, f.relPath = g.relPath → f = g := by
  intro f hf g hg hp
  rw [h f hf, h g hg, hp]

/-- Where names are texts, a scan of a canonical directory finds every file where its relative
path leads. -/
theorem placed_of_textual {scanner : Scanner} {found : List ScannedFile} (ht : t.Proper)
    (htext : t.Textual) {names : List String} (hn : ∀ n ∈ names, IsName n)
    (hdir : t.isDirAt [] (Path.absolute names) = true)
    (h : scanner.scan t [] (Path.absolute names) = .ok found) :
    Placed (Path.absolute names) found := by
  intro f hf
  rw [fileAt, ← Scanner.absPath_of_mem_scan ht htext hn hdir h hf]

end IndexPlan

namespace IndexRun

open IndexPlan

variable {frontEnd : FrontEnd} {t : FileTree} {c : Int} {s s₁ s₂ : Store} {scanner : Scanner}
  {root : String} {found : List ScannedFile} {changes : ChangeSet}
  {contents : Set (List UInt8)}

/-- The files of a scan that an incremental run leaves out are current already. -/
theorem Settled.current_of_covers (hs : s.Sound) (hinj : Set.InjOn contentHash contents)
    (hv : s.Vouched contents frontEnd c) (ht : ∀ content, t.Holds content → content ∈ contents)
    (hcov : changes.Covers scanner t root found (s.HasPath c))
    (h : Settled frontEnd t c s (incremental s t scanner c root changes) s₁)
    {f : ScannedFile} (hf : f ∈ found) (hroot : f = fileAt root f.relPath)
    (haccepts : scanner.accepts f.relPath = true) {content : List UInt8}
    (hread : t.read [] f.absPath = .ok content) : Current frontEnd t c s₁ f := by
  have hread' : t.read [] (Path.join root f.relPath) = .ok content := by
    rw [hroot] at hread
    exact hread
  have hdisk := isOnDisk_of_read hread'
  -- The files of the plan are told apart by their paths.
  have hprocessed : f ∈ (incremental s t scanner c root changes).process →
      Current frontEnd t c s₁ f := by
    intro hf
    obtain ⟨g, hg, hp, hcur⟩ := h.processed f hf
    rwa [hroot, ← hp, ← (mem_process_incremental.mp hg).1]
  by_cases hc : f.relPath ∈ changes.changed
  · exact hprocessed (mem_process_incremental.mpr ⟨hroot, haccepts, hdisk, .inl hc⟩)
  · have hdel : f.relPath ∉ changes.deleted := fun hd => hc (hcov.deleted f hf hd)
    obtain ⟨x, hx⟩ : s.HasPath c f.relPath := by
      by_contra hn
      exact hc (hcov.unstored f hf hn)
    have hmem := hs.mem_fileHashes_iff.mpr ⟨x, hx, rfl⟩
    by_cases hcur : isCurrent t root f.relPath x.entry.hash = true
    · -- The path is neither processed nor deleted, so its rows stay, and its hash vouches for them.
      have hkeep : s₁.storedAt? c f.relPath = s.storedAt? c f.relPath := by
        rw [h.others, if_neg]
        · rw [mem_delete_incremental]
          simp [hc, hdel, hdisk, haccepts]
        · rintro g hg hp
          obtain ⟨_, _, _, hg | ⟨_, hash, hm, hne⟩⟩ := mem_process_incremental.mp hg
          · exact hc (hp ▸ hg)
          · rw [hp] at hm hne
            obtain ⟨y, hy, rfl⟩ := hs.mem_fileHashes_iff.mp hm
            rw [← Option.some.inj (hx.symm.trans hy), hcur] at hne
            simp at hne
      obtain ⟨content', hr, hh⟩ := isCurrent_iff.mp hcur
      obtain rfl := Except.ok.inj (hread'.symm.trans hr)
      obtain ⟨y, hy, hstored⟩ := current_of_vouched hinj hv hread
        (ht _ (FileTree.holds_of_read hread)) hx (hs.storedAt?_eq_some_iff.mp hx).2 hh.symm
      exact ⟨y, hy, hkeep.trans hstored⟩
    · refine hprocessed (mem_process_incremental.mpr ⟨hroot, haccepts, hdisk, .inr ⟨hdel, ?_⟩⟩)
      exact ⟨_, hmem, by simpa using hcur⟩

/-- A path that a scan does not find is not stored after an incremental run. -/
theorem Settled.storedAt?_eq_none (hs : s.Sound)
    (hcov : changes.Covers scanner t root found (s.HasPath c))
    (h : Settled frontEnd t c s (incremental s t scanner c root changes) s₁) {p : String}
    (hp : ∀ f ∈ found, f.relPath ≠ p) : s₁.storedAt? c p = none := by
  have hgone : p ∈ changes.changed ∨ s.HasPath c p → scanner.accepts p = true →
      isOnDisk t root p = false := by
    intro hl ha
    by_contra hd
    obtain ⟨f, hf, hfp⟩ := hcov.scanned p hl ha (by simpa using hd)
    exact hp f hf hfp
  rw [h.others]
  · split
    · rfl
    · rename_i hd
      by_contra hn
      obtain ⟨x, hx⟩ := Option.ne_none_iff_exists'.mp hn
      have hfalse := fun ha => hgone (.inr ⟨x, hx⟩) ha
      refine hd (mem_delete_incremental.mpr ?_)
      by_cases ha : scanner.accepts p = true
      · by_cases hl : p ∈ changes.changed ∨ p ∈ changes.deleted
        · exact .inl ⟨ha, hl.symm.imp_right fun hc => ⟨hc, hfalse ha⟩⟩
        · refine .inr ⟨⟨_, hs.mem_fileHashes_iff.mpr ⟨x, hx, rfl⟩⟩, fun hc => hl hc.2, ?_⟩
          rw [hfalse ha, Bool.false_and]
      · refine .inr ⟨⟨_, hs.mem_fileHashes_iff.mpr ⟨x, hx, rfl⟩⟩, fun hc => ha hc.1, ?_⟩
        rw [Bool.not_eq_true] at ha
        rw [ha, Bool.and_false]
  · rintro g hg rfl
    obtain ⟨_, ha, hd, hl⟩ := mem_process_incremental.mp hg
    have hl : g.relPath ∈ changes.changed ∨ s.HasPath c g.relPath := by
      refine hl.imp_right ?_
      rintro ⟨_, hash, hm, _⟩
      obtain ⟨x, hx, _⟩ := hs.mem_fileHashes_iff.mp hm
      exact ⟨x, hx⟩
    rw [hgone hl ha] at hd
    simp at hd

/-- An incremental run with a change set that covers a scan mirrors the scan. -/
theorem Settled.mirrors_of_covers (hs : s.Sound) (hinj : Set.InjOn contentHash contents)
    (hv : s.Vouched contents frontEnd c) (ht : ∀ content, t.Holds content → content ∈ contents)
    (hroot : Placed root found) (haccepts : ∀ f ∈ found, scanner.accepts f.relPath = true)
    (hread : ∀ f ∈ found, ∃ x, frontEnd.sourceFile? t f = some x)
    (hcov : changes.Covers scanner t root found (s.HasPath c))
    (h : Settled frontEnd t c s (incremental s t scanner c root changes) s₁) :
    s₁.Mirrors c frontEnd t found := by
  refine mirrors_of_current h.sound hread (fun f hf => ⟨f, hf, rfl, ?_⟩)
    fun p hp => h.storedAt?_eq_none hs hcov hp
  obtain ⟨y, hy⟩ := hread f hf
  obtain ⟨_, hr, _⟩ := FrontEnd.sourceFile?_eq_some_iff.mp hy
  exact h.current_of_covers hs hinj hv ht hcov hf (hroot f hf) (haccepts f hf) hr

end IndexRun

namespace Service

variable {worlds : Set Surroundings} {registry : Registry} {excluded : List String} {s : Service}
  {w : Surroundings} {id : Int} {force : Bool} {summary : IndexSummary}

theorem Faithful.index_settled (h : Faithful worlds registry excluded s)
    (hinj : Set.InjOn contentHash (contentsIn worlds))
    (hw : ∀ content, w.tree.Holds content → content ∈ contentsIn worlds)
    (hok : (s.index w id force).2 = .ok summary) (hf : summary.failed = 0) :
    ∃ row frontEnd plan, s.store.codebase? id = some row ∧
      registry.forLanguage row.data.language = some frontEnd ∧
      w.begun.isDirAt [] row.data.rootPath = true ∧
      IndexPlan.make s.store w.tree w.detector (.make frontEnd.extensions excluded true) id
        row.data.rootPath (if force then none else row.data.commit) = .ok plan ∧
      summary.mode = plan.mode ∧
      IndexRun.Settled frontEnd w.tree id s.store plan (s.index w id force).1.store := by
  obtain ⟨row, status, hrow, hstore, hrun⟩ := h.index_ok hok
  obtain rfl : row.id = id := (h.sound.codebase?_eq_some_iff.mp hrow).2
  obtain ⟨frontEnd, plan, hfe, hplan, hmode, hsettled⟩ := IndexRun.run_settled hinj h.sound
    (fun _ hlang => h.vouched_codebase hrow hlang) hw hrun hf
  obtain ⟨hlang, hdir⟩ := IndexRun.check_ok hfe
  exact ⟨row, frontEnd, plan, hrow, hlang, hdir, hplan, hmode, hstore ▸ hsettled⟩

/-- An incremental run whose change set covers the scan leaves the files that a full run from
the same store and tree leaves, neither of them with failures, where each file of the scan is
the file at its relative path. -/
theorem incremental_run_agrees_with_full (h : Reached worlds registry excluded s)
    (hinj : Set.InjOn contentHash (contentsIn worlds)) (hw : w ∈ worlds) {w' : Surroundings}
    (htree : w'.tree = w.tree)
    (hok : (s.index w id false).2 = .ok summary) (hm : summary.mode = .incremental)
    (hf : summary.failed = 0) {summary' : IndexSummary}
    (hok' : (s.index w' id force).2 = .ok summary') (hm' : summary'.mode = .full)
    (hf' : summary'.failed = 0) {row : Row Codebase} (hrow : s.store.codebase? id = some row)
    {frontEnd : FrontEnd} (hlang : registry.forLanguage row.data.language = some frontEnd)
    {commit : String} (hcommit : row.data.commit = some commit) {changes : ChangeSet}
    (hchanges : w.detector.changesSince row.data.rootPath commit = .ok changes)
    {found : List ScannedFile}
    (hscan : (Scanner.make frontEnd.extensions excluded true).scan w.tree [] row.data.rootPath =
      .ok found) (hplaced : IndexPlan.Placed row.data.rootPath found)
    (hcov : changes.Covers (.make frontEnd.extensions excluded true) w.tree row.data.rootPath found
      (s.store.HasPath id)) :
    ((s.index w id false).1.store.storedFiles id).Perm
      ((s.index w' id force).1.store.storedFiles id) := by
  have hs := h.faithful
  have hcontents : ∀ content, w.tree.Holds content → content ∈ contentsIn worlds :=
    fun _ hc => ⟨w, hw, hc⟩
  obtain ⟨row₁, fe₁, plan, hrow₁, hlang₁, _, hplan, hmode, hsettled⟩ :=
    hs.index_settled hinj hcontents hok hf
  obtain ⟨row₂, fe₂, plan', hrow₂, hlang₂, _, hplan', hmode', hsettled'⟩ :=
    hs.index_settled hinj (htree ▸ hcontents) hok' hf'
  obtain rfl := Option.some.inj (hrow₁.symm.trans hrow)
  obtain rfl := Option.some.inj (hrow₂.symm.trans hrow)
  obtain rfl := Option.some.inj (hlang₁.symm.trans hlang)
  obtain rfl := Option.some.inj (hlang₂.symm.trans hlang)
  rw [htree] at hplan' hsettled'
  obtain ⟨found', hscan', rfl⟩ :=
    IndexPlan.full_ok (IndexPlan.full_of_make hplan' (hmode'.symm.trans hm'))
  obtain ⟨_, _, hc, hch, rfl⟩ := IndexPlan.incremental_of_make hplan (hmode.symm.trans hm)
  obtain rfl := Except.ok.inj (hscan'.symm.trans hscan)
  obtain rfl : _ = commit := Option.some.inj (hc.symm.trans hcommit)
  obtain rfl := Except.ok.inj (hch.symm.trans hchanges)
  have hreg := hs.sound.registration_of_codebase? hrow
  obtain rfl : row₂.id = id := (hs.sound.codebase?_eq_some_iff.mp hrow).2
  have hmirrors' := hsettled'.mirrors hs.sound
  have hmirrors := hsettled.mirrors_of_covers hs.sound hinj (hs.vouched _ hreg _ hlang) hcontents
    hplaced (fun f hf => Scanner.accepts_of_mem_scan hscan hf) hmirrors'.readable hcov
  exact hmirrors.perm hmirrors' hplaced.eq_of_relPath

end Service

/-! ## The sample under version control

The two files change places between two runs, and the change set lists more than that.
-/

namespace Sample

def changes : ChangeSet :=
  { added := ["B.java"], modified := ["A.java", "A.java"], deleted := ["B.java", "C.java"] }

def tracked (a b : List UInt8) : Surroundings :=
  { world a b with
    detector := { head? := fun _ => some "c", changesSince := fun _ _ => .ok changes } }

def indexed : Service := (ran registered (tracked calling plain) row false).1

def indexedRow : Row Codebase :=
  ⟨1, { row.data with commit := some "c", indexedAt := some "" }⟩

def trackedWorlds : Set Surroundings := {tracked calling plain, tracked plain calling}

theorem contents_trackedWorlds :
    ∀ content ∈ contentsIn trackedWorlds, content = calling ∨ content = plain := by
  rintro content ⟨w, rfl | rfl, hc⟩
  · exact holds_world_iff.mp hc
  · exact (holds_world_iff.mp hc).symm

theorem reached_indexed : Service.Reached trackedWorlds .default defaultExcluded indexed := by
  have hr : ({} : Service).register (tracked calling plain) "/r" "java" none =
      .ok (registered, row) := register_world (a := calling) (b := plain)
  have hreg : Service.Reached trackedWorlds .default defaultExcluded registered :=
    .register .start (.inl rfl) hr
  have hnext : Service.Reached trackedWorlds .default defaultExcluded
      (registered.index (tracked calling plain) 1 false).1 := hreg.index (.inl rfl)
  rwa [index_registered (w := tracked calling plain) (a := calling) (b := plain) rfl rfl] at hnext

theorem runs_indexed :
    (indexed.store.storedFiles 1).map (fun x => x.entry.path) = files.map ScannedFile.relPath ∧
    indexed.store.codebase? indexedRow.id = some indexedRow ∧
    indexed.statuses.isIndexing indexedRow.id = false ∧
    (indexed.index (tracked plain calling) 1 false).2 =
      .ok ⟨1, .incremental, 3, 3, 0, 1, 0, some "c"⟩ ∧
    (ran indexed (tracked plain calling) indexedRow true).2 =
      .ok ⟨1, .full, 2, 2, 0, 0, 0, some "c"⟩ := by decide +kernel

theorem placed_files : IndexPlan.Placed "/r" files := by
  obtain ⟨hroot, _⟩ := spelled_row
  have hname : ∀ n ∈ ["r"], IsName n := by decide
  have hscan := scan_world (a := calling) (b := plain)
  have hdir : (world calling plain).tree.isDirAt [] (Path.absolute ["r"]) = true := by
    rw [show Path.absolute ["r"] = "/r" from hroot]
    rfl
  rw [← show Path.absolute ["r"] = "/r" from hroot] at hscan ⊢
  exact IndexPlan.placed_of_textual proper_world.tree textual_world hname hdir hscan

theorem changed_of_mem_files : ∀ f ∈ files, f.relPath ∈ changes.changed := by decide

theorem mem_files_of_changed : ∀ p ∈ changes.changed, ∃ f ∈ files, f.relPath = p := by decide

theorem covers_changes : changes.Covers (.make FrontEnd.java.extensions defaultExcluded true)
    (tracked plain calling).tree "/r" files (indexed.store.HasPath 1) where
  unstored f hf _ := changed_of_mem_files f hf
  scanned := by
    obtain ⟨hpaths, _⟩ := runs_indexed
    rintro p (hp | hp) _ _
    · exact mem_files_of_changed p hp
    · rw [reached_indexed.faithful.sound.hasPath_iff, hpaths] at hp
      exact List.mem_map.mp hp
  deleted f hf _ := changed_of_mem_files f hf

theorem index_forced : (indexed.index (tracked plain calling) 1 true).2 =
    .ok ⟨1, .full, 2, 2, 0, 0, 0, some "c"⟩ := by
  obtain ⟨_, hrow, hidle, _, hran⟩ := runs_indexed
  have hindex : indexed.index (tracked plain calling) indexedRow.id true =
      ran indexed (tracked plain calling) indexedRow true :=
    index_eq_ran (w := tracked plain calling) (a := plain) (b := calling) rfl rfl rfl rfl rfl hrow
      rfl rfl hidle rfl
  rw [show (1 : Int) = indexedRow.id from rfl, hindex]
  exact hran

end Sample

theorem Service.incremental_run_agrees_with_full_sample :
    ((Sample.indexed.index (Sample.tracked Sample.plain Sample.calling) 1
        false).1.store.storedFiles 1).Perm
      ((Sample.indexed.index (Sample.tracked Sample.plain Sample.calling) 1
        true).1.store.storedFiles 1) := by
  obtain ⟨_, hrow, _, hchanged, _⟩ := Sample.runs_indexed
  exact incremental_run_agrees_with_full Sample.reached_indexed
    (Sample.injOn_contents Sample.contents_trackedWorlds) (Or.inr rfl) rfl hchanged rfl rfl
    Sample.index_forced rfl rfl hrow
    Sample.forLanguage_java rfl rfl (Sample.scan_world (a := Sample.plain) (b := Sample.calling))
    Sample.placed_files Sample.covers_changes

/-! ## Files that are not where their paths lead -/

namespace Sample

/-- A directory with some entries, and what version control tells about it. -/
def lone (entries : List (FileName × FileTree)) (changes : ChangeSet) : Surroundings where
  tree := .dir [("r", .dir entries)]
  detector := { head? := fun _ => some "c", changesSince := fun _ _ => .ok changes }
  now := ""

def odd : Surroundings := lone [(oddName, .file plain)] {}

/-- A file below a directory, listed with another spelling of its path. -/
def respelled : Surroundings :=
  lone [("sub", .dir [("B.java", .file plain)])] { modified := ["sub//B.java"] }

def oddFiles : List ScannedFile := [Scanner.fileBelow ["r"] [oddName]]

def nestedFiles : List ScannedFile := [Scanner.fileBelow ["r"] ["sub", "B.java"]]

def oddIndexed : Service := (registered.index odd 1 false).1

def respelledIndexed : Service := (registered.index respelled 1 false).1

theorem runs_odd :
    (Scanner.make FrontEnd.java.extensions defaultExcluded true).scan odd.tree [] "/r" =
      .ok oddFiles ∧
    (oddIndexed.store.storedFiles 1).map (fun x => x.entry.path) =
      oddFiles.map ScannedFile.relPath ∧
    (oddIndexed.index odd 1 false).2 = .ok ⟨1, .incremental, 0, 0, 0, 1, 0, some "c"⟩ ∧
    (oddIndexed.index odd 1 true).2 = .ok ⟨1, .full, 1, 1, 0, 0, 0, some "c"⟩ ∧
    ((oddIndexed.index odd 1 false).1.store.storedFiles 1).length = 0 ∧
    ((oddIndexed.index odd 1 true).1.store.storedFiles 1).length = 1 := by decide +kernel

theorem runs_respelled :
    (Scanner.make FrontEnd.java.extensions defaultExcluded true).scan respelled.tree [] "/r" =
      .ok nestedFiles ∧
    (∀ f ∈ nestedFiles, Path.names f.relPath = Path.names "sub//B.java" ∧
      respelled.tree.resolve [] f.absPath =
        respelled.tree.resolve [] (Path.join "/r" "sub//B.java")) ∧
    (respelledIndexed.index respelled 1 false).2 =
      .ok ⟨1, .incremental, 1, 1, 0, 0, 0, some "c"⟩ ∧
    (respelledIndexed.index respelled 1 true).2 = .ok ⟨1, .full, 1, 1, 0, 0, 0, some "c"⟩ ∧
    ((respelledIndexed.index respelled 1 false).1.store.storedFiles 1).length = 2 ∧
    ((respelledIndexed.index respelled 1 true).1.store.storedFiles 1).length = 1 := by
  decide +kernel

theorem proper_odd : odd.Proper where
  tree := by
    have hodd : (FileTree.dir [(oddName, .file plain)]).Proper :=
      .dir (by decide) (by simpa using (by decide : oddName.IsProper))
        (by simp [FileTree.Proper.file])
    exact .dir (by simp) (by simpa using (by decide : (FileName.text "r").IsProper))
      (by simpa using hodd)
  cwd := by simp [odd, lone]

theorem reached_lone {w : Surroundings}
    (hr : ({} : Service).register w "/r" "java" none = .ok (registered, row)) :
    Service.Reached {w} .default defaultExcluded (registered.index w 1 false).1 :=
  have h : Service.Reached {w} .default defaultExcluded registered :=
    .register .start (Set.mem_singleton w) hr
  h.index (Set.mem_singleton w)

theorem covers_odd : ({} : ChangeSet).Covers (.make FrontEnd.java.extensions defaultExcluded true)
    odd.tree "/r" oddFiles (oddIndexed.store.HasPath 1) := by
  obtain ⟨_, hpaths, _⟩ := runs_odd
  have hs : oddIndexed.store.Sound :=
    (reached_lone (w := odd) (register_root rfl rfl)).faithful.sound
  have hstored : ∀ p, oddIndexed.store.HasPath 1 p ↔ ∃ f ∈ oddFiles, f.relPath = p := by
    intro p
    rw [hs.hasPath_iff, hpaths, List.mem_map]
  constructor
  · exact fun f hf hn => absurd ((hstored _).mpr ⟨f, hf, rfl⟩) hn
  · rintro p (hp | hp) _ _
    · simp [ChangeSet.changed] at hp
    · exact (hstored p).mp hp
  · intro f _ hd
    simp at hd

end Sample

open Sample in
/-- A file whose name is no text is stored by a full run and deleted by an incremental one, with
nothing listed. A file that is listed with another spelling of its path is stored twice by an
incremental run and once by a full one. -/
theorem Service.incremental_run_differs_from_full :
    (Reached {odd} .default defaultExcluded oddIndexed ∧ odd.Proper ∧
      (Scanner.make FrontEnd.java.extensions defaultExcluded true).scan odd.tree [] "/r" =
        .ok oddFiles ∧
      ({} : ChangeSet).Covers (.make FrontEnd.java.extensions defaultExcluded true) odd.tree "/r"
        oddFiles (oddIndexed.store.HasPath 1) ∧
      (oddIndexed.index odd 1 false).2 = .ok ⟨1, .incremental, 0, 0, 0, 1, 0, some "c"⟩ ∧
      (oddIndexed.index odd 1 true).2 = .ok ⟨1, .full, 1, 1, 0, 0, 0, some "c"⟩ ∧
      ¬ ((oddIndexed.index odd 1 false).1.store.storedFiles 1).Perm
        ((oddIndexed.index odd 1 true).1.store.storedFiles 1)) ∧
    Reached {respelled} .default defaultExcluded respelledIndexed ∧
      (Scanner.make FrontEnd.java.extensions defaultExcluded true).scan respelled.tree [] "/r" =
        .ok nestedFiles ∧
      (∀ f ∈ nestedFiles, Path.names f.relPath = Path.names "sub//B.java" ∧
        respelled.tree.resolve [] f.absPath =
          respelled.tree.resolve [] (Path.join "/r" "sub//B.java")) ∧
      (respelledIndexed.index respelled 1 false).2 =
        .ok ⟨1, .incremental, 1, 1, 0, 0, 0, some "c"⟩ ∧
      (respelledIndexed.index respelled 1 true).2 = .ok ⟨1, .full, 1, 1, 0, 0, 0, some "c"⟩ ∧
      ¬ ((respelledIndexed.index respelled 1 false).1.store.storedFiles 1).Perm
        ((respelledIndexed.index respelled 1 true).1.store.storedFiles 1) := by
  obtain ⟨hscan, _, hincremental, hfull, hnone, hone⟩ := runs_odd
  obtain ⟨hnested, hnames, hagain, hforced, htwo, hsingle⟩ := runs_respelled
  refine ⟨⟨reached_lone (register_root rfl rfl), proper_odd, hscan, covers_odd, hincremental, hfull,
    fun h => ?_⟩, reached_lone (register_root rfl rfl), hnested, hnames, hagain, hforced,
    fun h => ?_⟩
  · have := h.length_eq
    omega
  · have := h.length_eq
    omega

end CodeAtlas
