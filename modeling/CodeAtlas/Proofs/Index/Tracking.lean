import CodeAtlas.Proofs.Files.Disk
import CodeAtlas.Proofs.Index.Incremental

/-! # Runs under version control

A run that is not forced starts from the commit that the last run saw at the head, with the
changes since then. Even where these are listed exactly, the store does not always follow the
files on disk: a file that is as the commit has it is listed nowhere, and when it was missing
at the last run it is not stored either, so the run does not see it. Apart from such files the
store has every accepted file with the hash of its content, and nothing else.
-/

namespace CodeAtlas

/-! ## Exact change sets -/

/-- A change set lists how files differ from those of a commit. -/
structure ChangeSet.Exact (changes : ChangeSet) (old new : String → Option (List UInt8)) :
    Prop where
  added : ∀ p, p ∈ changes.added ↔ old p = none ∧ new p ≠ none
  modified : ∀ p, p ∈ changes.modified ↔ old p ≠ none ∧ new p ≠ none ∧ old p ≠ new p
  deleted : ∀ p, p ∈ changes.deleted ↔ old p ≠ none ∧ new p = none

theorem ChangeSet.Exact.mem_changed_iff {changes : ChangeSet}
    {old new : String → Option (List UInt8)} (h : changes.Exact old new) {p : String} :
    p ∈ changes.changed ↔ new p ≠ none ∧ old p ≠ new p := by
  rw [changed, List.mem_append, h.added, h.modified]
  constructor
  · rintro (⟨hold, hnew⟩ | ⟨_, hnew, hne⟩)
    · exact ⟨hnew, fun he => hnew (he ▸ hold)⟩
    · exact ⟨hnew, hne⟩
  · rintro ⟨hnew, hne⟩
    by_cases hold : old p = none
    · exact .inl ⟨hold, hnew⟩
    · exact .inr ⟨hold, hnew, hne⟩

/-- Version control tells exactly how the files on disk differ from a commit. -/
def Surroundings.Tells (w : Surroundings) (root commit : String)
    (tree : String → Option (List UInt8)) : Prop :=
  ∃ changes, w.detector.changesSince root commit = .ok changes ∧
    changes.Exact tree (w.tree.below? root)

/-! ## Files on disk -/

/-- A world in which all names are text, no ignore file has rules, and no file changes while a
run goes on. -/
structure Surroundings.Trackable (w : Surroundings) : Prop where
  proper : w.Proper
  textual : w.tree.Textual
  noRules : w.tree.NoRules
  begun : w.begun = w.tree

/-- A canonical directory in a proper tree where names are text and no file is ignored. -/
structure FileTree.Site (t : FileTree) (root : String) : Prop where
  proper : t.Proper
  textual : t.Textual
  noRules : t.NoRules
  canonical : ∃ names, (∀ n ∈ names, IsName n) ∧ root = Path.absolute names
  isDir : t.isDirAt [] root = true

/-- A file on disk that a scanner accepts and that can be read, with its hash. -/
structure Scanner.Sees (scanner : Scanner) (t : FileTree) (root path hash : String) : Prop where
  accepts : scanner.accepts path = true
  content : ∃ content, t.below? root path = some content ∧
    t.read [] (Path.join root path) = .ok content ∧ contentHash content = hash

/-- The content hash of each file of a scan that can be read. -/
def contentHashes (t : FileTree) (found : List ScannedFile) : List (String × String) :=
  found.filterMap fun f =>
    (t.read [] f.absPath).toOption.map fun content => (f.relPath, contentHash content)

theorem mem_contentHashes {t : FileTree} {found : List ScannedFile} {p hash : String} :
    (p, hash) ∈ contentHashes t found ↔ ∃ f ∈ found, f.relPath = p ∧
      ∃ content, t.read [] f.absPath = .ok content ∧ contentHash content = hash := by
  have hread : ∀ f : ScannedFile, ∀ content, (t.read [] f.absPath).toOption = some content ↔
      t.read [] f.absPath = .ok content := by
    intro f content
    cases t.read [] f.absPath <;> simp [Except.toOption]
  simp only [contentHashes, List.mem_filterMap, Option.map_eq_some_iff, hread, Prod.mk.injEq]
  constructor
  · rintro ⟨f, hf, content, hr, rfl, rfl⟩
    exact ⟨f, hf, rfl, content, hr, rfl⟩
  · rintro ⟨f, hf, rfl, content, hr, rfl⟩
    exact ⟨f, hf, content, hr, rfl, rfl⟩

namespace FileTree.Site

variable {t : FileTree} {root p hash : String} {scanner : Scanner} {found : List ScannedFile}
  {content : List UInt8}

theorem isName_of_below? (h : t.Site root) (hb : t.below? root p = some content) :
    ∀ n ∈ Text.pieces '/' p, IsName n := by
  unfold below? at hb
  split at hb
  · intro n hn
    exact (h.proper.allNames.at? (fileAt?_eq_some_iff.mp hb)).1 (.text n)
      (List.mem_append_right _ (List.mem_map_of_mem hn))
  · simp at hb

theorem below?_of_read (h : t.Site root) (hp : ∀ n ∈ Text.pieces '/' p, IsName n)
    (hr : t.read [] (Path.join root p) = .ok content) : t.below? root p = some content := by
  obtain ⟨names, hn, rfl⟩ := h.canonical
  exact FileTree.below?_of_read hn hp h.isDir hr

theorem scan (h : t.Site root) (scanner : Scanner) :
    ∃ found, scanner.scan t [] root = .ok found := by
  have hdir := h.isDir
  unfold isDirAt at hdir
  unfold Scanner.scan
  cases hres : t.resolve [] root with
  | error fault => simp [hres] at hdir
  | ok names => exact ⟨_, rfl⟩

theorem nodup_paths (h : t.Site root) (hscan : scanner.scan t [] root = .ok found) :
    (found.map ScannedFile.relPath).Nodup :=
  Scanner.scan_nodup h.proper h.textual hscan

theorem mem_contentHashes_iff (h : t.Site root) (hscan : scanner.scan t [] root = .ok found) :
    (p, hash) ∈ contentHashes t found ↔ scanner.Sees t root p hash := by
  obtain ⟨names, hn, rfl⟩ := h.canonical
  have hmem := Scanner.mem_scan_iff (p := p) h.proper h.textual h.noRules hn h.isDir hscan
  have hpath : ∀ f ∈ found,
      f.absPath = DiskPath.ofText (Path.join (Path.absolute names) f.relPath) :=
    fun f hf => Scanner.absPath_of_mem_scan h.proper h.textual hn h.isDir hscan hf
  rw [mem_contentHashes]
  constructor
  · rintro ⟨f, hf, rfl, content, hr, hh⟩
    obtain ⟨haccepts, content', hb⟩ := hmem.mp ⟨f, hf, rfl⟩
    rw [hpath f hf] at hr
    exact ⟨haccepts, content, h.below?_of_read (h.isName_of_below? hb) hr, hr, hh⟩
  · rintro ⟨haccepts, content, hb, hr, hh⟩
    obtain ⟨f, hf, rfl⟩ := hmem.mpr ⟨haccepts, content, hb⟩
    rw [← hpath f hf] at hr
    exact ⟨f, hf, rfl, content, hr, hh⟩

/-- An accepted path made of names is on disk when the scanner sees it there. -/
theorem isOnDisk_iff (h : t.Site root) (haccepts : scanner.accepts p = true)
    (hp : ∀ n ∈ Text.pieces '/' p, IsName n) :
    IndexPlan.isOnDisk t root p = true ↔ ∃ hash, scanner.Sees t root p hash := by
  rw [IndexPlan.isOnDisk, isFileAt_iff]
  constructor
  · rintro ⟨content, hr⟩
    exact ⟨_, haccepts, content, h.below?_of_read hp hr, hr, rfl⟩
  · rintro ⟨_, _, content, _, hr, _⟩
    exact ⟨content, hr⟩

theorem contentHashes_nodup (h : t.Site root) (hscan : scanner.scan t [] root = .ok found) :
    (contentHashes t found).Nodup := by
  have hpaths : found.Pairwise fun f g => f.relPath ≠ g.relPath :=
    List.pairwise_map.mp (h.nodup_paths hscan)
  refine List.Pairwise.filterMap _ ?_ hpaths
  rintro f g hne a ha b hb rfl
  obtain ⟨_, _, rfl⟩ := Option.map_eq_some_iff.mp ha
  obtain ⟨_, _, he⟩ := Option.map_eq_some_iff.mp hb
  exact hne (Prod.mk.inj he).1.symm

end FileTree.Site

/-! ## What one run leaves -/

namespace IndexRun

open IndexPlan

variable {t : FileTree} {c : Int} {s s' : Store} {scanner : Scanner} {root p hash : String}
  {found : List ScannedFile} {changes : ChangeSet} {old : String → Option (List UInt8)}

theorem Hashed.mem_fileHashes (hs : s.Sound) {f : ScannedFile} (h : Hashed t c s f)
    {content : List UInt8} (hr : t.read [] f.absPath = .ok content) :
    (f.relPath, contentHash content) ∈ s.fileHashes c := by
  obtain ⟨content', x, hr', hx, hh⟩ := h
  obtain rfl := Except.ok.inj (hr.symm.trans hr')
  exact hs.mem_fileHashes_iff.mpr ⟨x, hx, hh⟩

theorem CarriedOut.mem_fileHashes_ofScan (hs : s.Sound)
    (hpaths : ∀ f ∈ found, ∀ g ∈ found, f.relPath = g.relPath → f = g)
    (h : CarriedOut t c s (.ofScan s c found) s') :
    (p, hash) ∈ s'.fileHashes c ↔ (p, hash) ∈ contentHashes t found := by
  rw [mem_contentHashes]
  constructor
  · intro hm
    obtain ⟨x, hx, rfl⟩ := h.sound.mem_fileHashes_iff.mp hm
    by_cases hp : ∃ f ∈ found, f.relPath = p
    · obtain ⟨f, hf, rfl⟩ := hp
      obtain ⟨g, hg, hp, content, y, hr, hy, hh⟩ := h.processed f hf
      rw [hp, hx] at hy
      obtain rfl := Option.some.inj hy
      exact ⟨g, hg, hp, content, hr, hh.symm⟩
    · -- A path that the scan did not find would have been deleted.
      push Not at hp
      rw [h.others p hp] at hx
      split at hx
      · simp at hx
      · rename_i hd
        exact absurd ((mem_delete_ofScan hs).mpr ⟨⟨x, hx⟩, hp⟩) hd
  · rintro ⟨f, hf, rfl, content, hr, rfl⟩
    obtain ⟨g, hg, hp, hhashed⟩ := h.processed f hf
    obtain rfl : g = f := hpaths g hg f hf hp
    exact hhashed.mem_fileHashes h.sound hr

theorem CarriedOut.hashed_incremental
    (h : CarriedOut t c s (incremental s t scanner c root changes) s') {f : ScannedFile}
    (hf : f ∈ (incremental s t scanner c root changes).process) : Hashed t c s' f := by
  obtain ⟨g, hg, hp, hhashed⟩ := h.processed f hf
  have hsame : g = f := by
    rw [(mem_process_incremental.mp hg).1, hp, ← (mem_process_incremental.mp hf).1]
  exact hsame ▸ hhashed

theorem exists_process_incremental_iff :
    (∃ f ∈ (incremental s t scanner c root changes).process, f.relPath = p) ↔
      scanner.accepts p = true ∧ isOnDisk t root p = true ∧
      (p ∈ changes.changed ∨ p ∉ changes.deleted ∧
        ∃ hash, (p, hash) ∈ s.fileHashes c ∧ isCurrent t root p hash = false) := by
  constructor
  · rintro ⟨f, hf, rfl⟩
    exact (mem_process_incremental.mp hf).2
  · intro h
    exact ⟨fileAt root p, mem_process_incremental.mpr ⟨rfl, h⟩, rfl⟩

/-- What an incremental run processes is listed as on disk, or was stored before. -/
theorem listed_or_stored_of_process (hs : s.Sound) {f : ScannedFile}
    (hf : f ∈ (incremental s t scanner c root changes).process) :
    f.relPath ∈ changes.changed ∨ s.HasPath c f.relPath := by
  rcases (mem_process_incremental.mp hf).2.2.2 with hc | ⟨_, hash, hm, _⟩
  · exact .inl hc
  · obtain ⟨x, hx, _⟩ := hs.mem_fileHashes_iff.mp hm
    exact .inr ⟨x, hx⟩

/-- A path that an incremental run does not process but leaves stored was stored before, and
is on disk with the hash that it is stored with. -/
theorem CarriedOut.of_not_processed (hs : s.Sound)
    (h : CarriedOut t c s (incremental s t scanner c root changes) s')
    (hp : ¬ ∃ f ∈ (incremental s t scanner c root changes).process, f.relPath = p)
    (hm : (p, hash) ∈ s'.fileHashes c) :
    (p, hash) ∈ s.fileHashes c ∧ scanner.accepts p = true ∧ isCurrent t root p hash = true := by
  obtain ⟨x, hx, rfl⟩ := h.sound.mem_fileHashes_iff.mp hm
  rw [h.others p (by push Not at hp; exact hp)] at hx
  split at hx
  · simp at hx
  rename_i hdelete
  have hstored := hs.mem_fileHashes_iff.mpr ⟨x, hx, rfl⟩
  rw [exists_process_incremental_iff] at hp
  rw [mem_delete_incremental] at hdelete
  have haccepts : scanner.accepts p = true := by
    by_contra ha
    rw [Bool.not_eq_true] at ha
    exact hdelete (.inr ⟨⟨_, hstored⟩, by simp [ha], by simp [ha]⟩)
  have hdel : p ∉ changes.deleted := fun hd => hdelete (.inl ⟨haccepts, .inl hd⟩)
  have hdisk : isOnDisk t root p = true := by
    by_contra hd
    rw [Bool.not_eq_true] at hd
    by_cases hc : p ∈ changes.changed
    · exact hdelete (.inl ⟨haccepts, .inr ⟨hc, hd⟩⟩)
    · exact hdelete (.inr ⟨⟨_, hstored⟩, by simp [hc, hdel], by simp [hd]⟩)
  refine ⟨hstored, haccepts, ?_⟩
  by_contra hcur
  rw [Bool.not_eq_true] at hcur
  exact hp ⟨haccepts, hdisk, .inr ⟨hdel, _, hstored, hcur⟩⟩

/-- A stored path that is on disk with its hash stays stored when the changes do not list
it. -/
theorem CarriedOut.of_not_listed (hs : s.Sound)
    (h : CarriedOut t c s (incremental s t scanner c root changes) s')
    (haccepts : scanner.accepts p = true) (hdisk : isOnDisk t root p = true)
    (hchanged : p ∉ changes.changed) (hdeleted : p ∉ changes.deleted)
    (hm : (p, hash) ∈ s.fileHashes c) (hcur : isCurrent t root p hash = true) :
    (p, hash) ∈ s'.fileHashes c := by
  obtain ⟨x, hx, rfl⟩ := hs.mem_fileHashes_iff.mp hm
  have hprocess : ∀ f ∈ (incremental s t scanner c root changes).process, f.relPath ≠ p := by
    rintro f hf rfl
    rcases (mem_process_incremental.mp hf).2.2.2 with hc | ⟨_, hash', hm', hcur'⟩
    · exact hchanged hc
    · obtain ⟨y, hy, rfl⟩ := hs.mem_fileHashes_iff.mp hm'
      rw [← Option.some.inj (hx.symm.trans hy), hcur] at hcur'
      simp at hcur'
  have hdelete : p ∉ (incremental s t scanner c root changes).delete := by
    rw [mem_delete_incremental]
    simp [hchanged, hdeleted, hdisk, haccepts]
  refine h.sound.mem_fileHashes_iff.mpr ⟨x, ?_, rfl⟩
  rw [h.others p hprocess, if_neg hdelete]
  exact hx

/-- After an incremental run with exact changes the codebase has the files on disk, without
those that are as in the commit and were not stored before. -/
theorem CarriedOut.mem_fileHashes_incremental (hs : s.Sound) (hsite : t.Site root)
    (hexact : changes.Exact old (t.below? root))
    (hnames : ∀ p, s.HasPath c p → ∀ n ∈ Text.pieces '/' p, IsName n)
    (h : CarriedOut t c s (incremental s t scanner c root changes) s') :
    (p, hash) ∈ s'.fileHashes c ↔ scanner.Sees t root p hash ∧
      ¬ (old p = t.below? root p ∧ ¬ s.HasPath c p) := by
  constructor
  · intro hm
    by_cases hp : ∃ f ∈ (incremental s t scanner c root changes).process, f.relPath = p
    · obtain ⟨f, hf, rfl⟩ := hp
      obtain ⟨hfile, haccepts, _⟩ := mem_process_incremental.mp hf
      obtain ⟨content, x, hr, hx, hh⟩ := h.hashed_incremental hf
      obtain ⟨y, hy, rfl⟩ := h.sound.mem_fileHashes_iff.mp hm
      obtain rfl := Option.some.inj (hx.symm.trans hy)
      rw [hfile] at hr
      have hwhy := listed_or_stored_of_process hs hf
      have hnamed : ∀ n ∈ Text.pieces '/' f.relPath, IsName n := by
        rcases hwhy with hc | hpath
        · obtain ⟨content', hb⟩ := Option.ne_none_iff_exists'.mp (hexact.mem_changed_iff.mp hc).1
          exact hsite.isName_of_below? hb
        · exact hnames _ hpath
      refine ⟨⟨haccepts, content, hsite.below?_of_read hnamed hr, hr, hh.symm⟩, ?_⟩
      rintro ⟨hsame, hnew⟩
      rcases hwhy with hc | hpath
      · exact (hexact.mem_changed_iff.mp hc).2 hsame
      · exact hnew hpath
    · obtain ⟨hstored, haccepts, hcur⟩ := h.of_not_processed hs hp hm
      obtain ⟨x, hx, _⟩ := hs.mem_fileHashes_iff.mp hstored
      obtain ⟨content, hr, hh⟩ := isCurrent_iff.mp hcur
      refine ⟨⟨haccepts, content, ?_, hr, hh⟩, fun hno => hno.2 ⟨x, hx⟩⟩
      exact hsite.below?_of_read (hnames p ⟨x, hx⟩) hr
  · rintro ⟨⟨haccepts, content, hb, hr, rfl⟩, hno⟩
    have hdisk := isOnDisk_of_read hr
    have hdeleted : p ∉ changes.deleted := by
      intro hd
      have hnone := ((hexact.deleted p).mp hd).2
      simp [hb] at hnone
    by_cases hp : ∃ f ∈ (incremental s t scanner c root changes).process, f.relPath = p
    · obtain ⟨f, hf, rfl⟩ := hp
      have hfile := (mem_process_incremental.mp hf).1
      apply (h.hashed_incremental hf).mem_fileHashes h.sound
      rw [hfile]
      exact hr
    · rw [exists_process_incremental_iff] at hp
      have hchanged : p ∉ changes.changed := fun hc => hp ⟨haccepts, hdisk, .inl hc⟩
      have hsame : old p = t.below? root p := by
        by_contra hne
        exact hchanged (hexact.mem_changed_iff.mpr ⟨by simp [hb], hne⟩)
      obtain ⟨x, hx⟩ : s.HasPath c p := by
        by_contra hnew
        exact hno ⟨hsame, hnew⟩
      have hm := hs.mem_fileHashes_iff.mpr ⟨x, hx, rfl⟩
      have hcur : isCurrent t root p x.entry.hash = true := by
        by_contra hcur
        rw [Bool.not_eq_true] at hcur
        exact hp ⟨haccepts, hdisk, .inr ⟨hdeleted, _, hm, hcur⟩⟩
      obtain ⟨content', hr', hh⟩ := isCurrent_iff.mp hcur
      obtain rfl := Except.ok.inj (hr.symm.trans hr')
      rw [hh]
      exact h.of_not_listed hs haccepts hdisk hchanged hdeleted hm hcur

end IndexRun

/-! ## Runs one after another -/

/-- A path that the latest of some runs misses: its file on disk is as in the commit at which
the run before stood, and it was not on disk at that run, or was missed by it. The worlds that
the runs saw come latest first. -/
def Missed (commits : String → String → Option (List UInt8)) (root path : String) :
    List Surroundings → Prop
  | w :: u :: earlier =>
    (∃ commit, u.detector.head? root = some commit ∧
      commits commit path = w.tree.below? root path) ∧
    (IndexPlan.isOnDisk u.tree root path = false ∨ Missed commits root path (u :: earlier))
  | _ => False

namespace Service

/-- Runs of a codebase one after another, not forced and none with a failure, with the worlds
that they saw, latest first. Version control tells each of them exactly what changed since the
commit that it asks about; `commits` are the trees of the commits. -/
inductive TrackedRuns (worlds : Set Surroundings)
    (commits : String → String → Option (List UInt8)) (c : Store.Registration) (s : Service) :
    List Surroundings → Service → Prop where
  | start : TrackedRuns worlds commits c s [] s
  | run {ws : List Surroundings} {s' : Service} {w : Surroundings} {row : Row Codebase}
      {summary : IndexSummary} : TrackedRuns worlds commits c s ws s' → w ∈ worlds →
      s'.store.codebase? c.id = some row →
      (∀ commit, row.data.commit = some commit → w.Tells c.root commit (commits commit)) →
      (s'.index w c.id false).2 = .ok summary → summary.failed = 0 →
      TrackedRuns worlds commits c s (w :: ws) (s'.index w c.id false).1

variable {worlds : Set Surroundings} {registry : Registry} {excluded : List String}
  {s s' : Service} {c : Store.Registration} {w w' : Surroundings} {ws : List Surroundings}
  {summary : IndexSummary} {frontEnd : FrontEnd} {row : Row Codebase}
  {commits : String → String → Option (List UInt8)}

/-- What a run that is not forced leaves of its codebase, when no file fails. -/
structure Ran (registry : Registry) (excluded : List String) (c : Store.Registration)
    (row : Row Codebase) (s : Service) (w : Surroundings) (frontEnd : FrontEnd) (plan : IndexPlan)
    (s' : Service) : Prop where
  language : registry.forLanguage c.language = some frontEnd
  site : w.tree.Site c.root
  planned : IndexPlan.make s.store w.tree w.detector (.make frontEnd.extensions excluded true) c.id
    c.root row.data.commit = .ok plan
  carriedOut : IndexRun.CarriedOut w.tree c.id s.store plan s'.store
  registered : c ∈ s'.store.registrations
  commit : ∀ row, s'.store.codebase? c.id = some row → row.data.commit = w.detector.head? c.root

theorem Reached.ran (h : Reached worlds registry excluded s)
    (hworlds : ∀ w ∈ worlds, w.Trackable) (hc : c ∈ s.store.registrations) (hw : w ∈ worlds)
    (hrow : s.store.codebase? c.id = some row) (hok : (s.index w c.id false).2 = .ok summary)
    (hf : summary.failed = 0) :
    ∃ frontEnd plan, Ran registry excluded c row s w frontEnd plan (s.index w c.id false).1 := by
  have hs := h.faithful
  obtain ⟨row', status, hrow', hstore, hrun⟩ := hs.index_ok hok
  obtain rfl := Option.some.inj (hrow.symm.trans hrow')
  obtain rfl : c = Store.registrationOf row :=
    hs.sound.registration_ext hc (hs.sound.registration_of_codebase? hrow)
      (hs.sound.codebase?_eq_some_iff.mp hrow).2.symm
  obtain ⟨frontEnd, plan, hfe, hplan, _, _, hdone⟩ := IndexRun.run_carriedOut hs.sound hrun hf
  obtain ⟨hlang, hdir⟩ := IndexRun.check_ok hfe
  obtain ⟨hproper, htext, hrules, hbegun⟩ := hworlds w hw
  rw [hbegun] at hdir
  have hcanonical := h.canonical (fun w hw => (hworlds w hw).proper) _ hc
  refine ⟨frontEnd, plan, hlang, ⟨hproper.tree, htext, hrules, hcanonical, hdir⟩, hplan,
    hstore ▸ hdone, ?_, ?_⟩
  · rw [hstore, IndexRun.run_registrations hs.sound]
    exact hc
  · intro row' hrow'
    rw [hstore] at hrow'
    have hmarked := IndexRun.run_marks hs.sound hrow hrun hf
    obtain rfl := Option.some.inj (hrow'.symm.trans hmarked)
    rfl

theorem Ran.mem_fileHashes_of_none {plan : IndexPlan} (hs : s.store.Sound)
    (h : Ran registry excluded c row s w frontEnd plan s') (hcommit : row.data.commit = none)
    {p hash : String} :
    (p, hash) ∈ s'.store.fileHashes c.id ↔
      (Scanner.make frontEnd.extensions excluded true).Sees w.tree c.root p hash := by
  have hplan := h.planned
  rw [hcommit] at hplan
  obtain ⟨found, hscan, rfl⟩ := IndexPlan.full_ok hplan
  have hpaths : ∀ f ∈ found, ∀ g ∈ found, f.relPath = g.relPath → f = g :=
    fun _ hf _ hg => List.inj_on_of_nodup_map (h.site.nodup_paths hscan) hf hg
  rw [h.carriedOut.mem_fileHashes_ofScan hs hpaths, h.site.mem_contentHashes_iff hscan]

/-- A run from a commit leaves the files on disk, without those that are as in the commit and
were not stored. -/
theorem Ran.mem_fileHashes_of_some {plan : IndexPlan} (hs : s.store.Sound)
    (h : Ran registry excluded c row s w frontEnd plan s') {commit : String}
    (hcommit : row.data.commit = some commit) (htells : w.Tells c.root commit (commits commit))
    (hnames : ∀ p, s.store.HasPath c.id p → ∀ n ∈ Text.pieces '/' p, IsName n) {p hash : String} :
    (p, hash) ∈ s'.store.fileHashes c.id ↔
      (Scanner.make frontEnd.extensions excluded true).Sees w.tree c.root p hash ∧
        ¬ (commits commit p = w.tree.below? c.root p ∧ ¬ s.store.HasPath c.id p) := by
  obtain ⟨changes, hchanges, hexact⟩ := htells
  have hplan := h.planned
  rw [hcommit, IndexPlan.make, hchanges] at hplan
  obtain rfl := Except.ok.inj hplan
  exact h.carriedOut.mem_fileHashes_incremental hs h.site hexact hnames

/-- What holds after runs, the latest of which saw a world. -/
structure Following (worlds : Set Surroundings) (registry : Registry) (excluded : List String)
    (commits : String → String → Option (List UInt8)) (c : Store.Registration)
    (frontEnd : FrontEnd) (w : Surroundings) (ws : List Surroundings) (s : Service) : Prop where
  reached : Reached worlds registry excluded s
  registered : c ∈ s.store.registrations
  language : registry.forLanguage c.language = some frontEnd
  site : w.tree.Site c.root
  commit : ∀ row, s.store.codebase? c.id = some row → row.data.commit = w.detector.head? c.root
  hashes : ∀ p hash, (p, hash) ∈ s.store.fileHashes c.id ↔
    (Scanner.make frontEnd.extensions excluded true).Sees w.tree c.root p hash ∧
      ¬ Missed commits c.root p (w :: ws)

theorem Following.hasPath_iff (h : Following worlds registry excluded commits c frontEnd w ws s)
    {p : String} :
    s.store.HasPath c.id p ↔
      (∃ hash, (Scanner.make frontEnd.extensions excluded true).Sees w.tree c.root p hash) ∧
        ¬ Missed commits c.root p (w :: ws) := by
  have hs := h.reached.faithful.sound
  constructor
  · rintro ⟨x, hx⟩
    obtain ⟨hsees, hmissed⟩ := (h.hashes _ _).mp (hs.mem_fileHashes_iff.mpr ⟨x, hx, rfl⟩)
    exact ⟨⟨_, hsees⟩, hmissed⟩
  · rintro ⟨⟨hash, hsees⟩, hmissed⟩
    obtain ⟨x, hx, _⟩ := hs.mem_fileHashes_iff.mp ((h.hashes p hash).mpr ⟨hsees, hmissed⟩)
    exact ⟨x, hx⟩

/-- A path that is on disk now is not stored when it was not on disk at the last run, or was
missed by it. -/
theorem Following.not_hasPath_iff
    (h : Following worlds registry excluded commits c frontEnd w ws s) (hsite : w'.tree.Site c.root)
    {p hash : String}
    (hsees : (Scanner.make frontEnd.extensions excluded true).Sees w'.tree c.root p hash) :
    ¬ s.store.HasPath c.id p ↔
      IndexPlan.isOnDisk w.tree c.root p = false ∨ Missed commits c.root p (w :: ws) := by
  obtain ⟨content, hb, _, _⟩ := hsees.content
  have hdisk := h.site.isOnDisk_iff hsees.accepts (hsite.isName_of_below? hb)
  rw [h.hasPath_iff, ← hdisk, not_and_or, not_not, Bool.not_eq_true]

theorem Following.run (h : Following worlds registry excluded commits c frontEnd w ws s)
    (hworlds : ∀ w ∈ worlds, w.Trackable) (hw' : w' ∈ worlds)
    (hrow : s.store.codebase? c.id = some row)
    (htells : ∀ commit, row.data.commit = some commit → w'.Tells c.root commit (commits commit))
    (hok : (s.index w' c.id false).2 = .ok summary) (hf : summary.failed = 0) :
    Following worlds registry excluded commits c frontEnd w' (w :: ws)
      (s.index w' c.id false).1 := by
  have hs := h.reached.faithful.sound
  obtain ⟨frontEnd', plan, hran⟩ := h.reached.ran hworlds h.registered hw' hrow hok hf
  obtain rfl := Option.some.inj (h.language.symm.trans hran.language)
  refine ⟨h.reached.index hw', hran.registered, h.language, hran.site, hran.commit, ?_⟩
  intro p hash
  have hhead := h.commit row hrow
  cases hcommit : row.data.commit with
  | none =>
    rw [hran.mem_fileHashes_of_none hs hcommit]
    have hnot : ¬ Missed commits c.root p (w' :: w :: ws) := by
      rintro ⟨⟨commit, hc, _⟩, _⟩
      rw [← hhead, hcommit] at hc
      simp at hc
    exact ⟨fun hsees => ⟨hsees, hnot⟩, And.left⟩
  | some commit =>
    have hnames : ∀ p, s.store.HasPath c.id p → ∀ n ∈ Text.pieces '/' p, IsName n := by
      intro p hp
      obtain ⟨⟨_, hsees⟩, _⟩ := h.hasPath_iff.mp hp
      obtain ⟨content, hb, _⟩ := hsees.content
      exact h.site.isName_of_below? hb
    rw [hran.mem_fileHashes_of_some hs hcommit (htells commit hcommit) hnames]
    refine and_congr_right fun hsees => not_congr ?_
    rw [h.not_hasPath_iff hran.site hsees, Missed]
    refine and_congr_left fun _ => ?_
    rw [← hhead, hcommit]
    simp

theorem TrackedRuns.following (h : Reached worlds registry excluded s)
    (hworlds : ∀ w ∈ worlds, w.Trackable) (hc : c ∈ s.store.registrations)
    (hnew : ∀ row, s.store.codebase? c.id = some row → row.data.commit = none)
    (hruns : TrackedRuns worlds commits c s ws s') :
    (ws = [] ∧ s' = s) ∨ ∃ w earlier frontEnd, ws = w :: earlier ∧
      Following worlds registry excluded commits c frontEnd w earlier s' := by
  induction hruns with
  | start => exact .inl ⟨rfl, rfl⟩
  | @run _ _ w _ _ _ hw hrow htells hok hf ih =>
    refine .inr ?_
    rcases ih with ⟨rfl, rfl⟩ | ⟨u, earlier, frontEnd, rfl, hfollowing⟩
    · obtain ⟨frontEnd, plan, hran⟩ := h.ran hworlds hc hw hrow hok hf
      refine ⟨w, [], frontEnd, rfl, h.index hw, hran.registered, hran.language, hran.site,
        hran.commit, ?_⟩
      intro p hash
      rw [hran.mem_fileHashes_of_none h.faithful.sound (hnew _ hrow)]
      simp [Missed]
    · exact ⟨w, _, frontEnd, rfl, hfollowing.run hworlds hw hrow htells hok hf⟩

/-- After runs under exact version control, the latest of which saw a world, a codebase has
the content hashes of the files that a scan of its root finds there if and only if no path of
these was missed. -/
theorem tracked_runs_follow_disk_iff (h : Reached worlds registry excluded s)
    (hworlds : ∀ w ∈ worlds, w.Trackable) (hc : c ∈ s.store.registrations)
    (hnew : ∀ row, s.store.codebase? c.id = some row → row.data.commit = none)
    (hruns : TrackedRuns worlds commits c s (w :: ws) s') :
    ∃ frontEnd found, registry.forLanguage c.language = some frontEnd ∧
      (Scanner.make frontEnd.extensions excluded true).scan w.tree [] c.root = .ok found ∧
      ((s'.store.fileHashes c.id).Perm (contentHashes w.tree found) ↔
        ∀ e ∈ contentHashes w.tree found, ¬ Missed commits c.root e.1 (w :: ws)) := by
  rcases hruns.following h hworlds hc hnew with ⟨hnil, _⟩ | ⟨w, ws, frontEnd, heq, hfol⟩
  · simp at hnil
  obtain ⟨rfl, rfl⟩ := List.cons.inj heq
  obtain ⟨found, hscan⟩ := hfol.site.scan (.make frontEnd.extensions excluded true)
  refine ⟨frontEnd, found, hfol.language, hscan, ?_⟩
  have hmem : ∀ e, e ∈ s'.store.fileHashes c.id ↔
      e ∈ contentHashes w.tree found ∧ ¬ Missed commits c.root e.1 (w :: ws) := by
    rintro ⟨p, hash⟩
    rw [hfol.hashes, hfol.site.mem_contentHashes_iff hscan]
  have hnodup := (hfol.reached.faithful.sound.fileHashes_nodup c.id).of_map
  rw [List.perm_ext_iff_of_nodup hnodup (hfol.site.contentHashes_nodup hscan)]
  constructor
  · intro hsame e he
    exact ((hmem e).mp ((hsame e).mpr he)).2
  · intro hall e
    rw [hmem]
    exact ⟨And.left, fun he => ⟨he, hall e he⟩⟩

end Service

/-! ## A file that comes back

A file is removed after the first run, and a second run deletes it from the store. When it is
restored as it was, it does not differ from the commit, and the third run does not see it.
-/

namespace Sample

/-- The files of every commit. -/
def committed (_commit path : String) : Option (List UInt8) :=
  if path = "A.java" then some calling else if path = "B.java" then some plain else none

def intact : Surroundings :=
  { world calling plain with detector := { head? := fun _ => some "c" } }

def removed : Surroundings where
  tree := .dir [("r", .dir [("B.java", .file plain)])]
  detector :=
    { head? := fun _ => some "c", changesSince := fun _ _ => .ok { deleted := ["A.java"] } }
  now := ""

def restoringWorlds : Set Surroundings := {intact, removed}

def complete : Service := (ran registered intact row false).1

def reduced : Service := (complete.index removed 1 false).1

/-- The service after a run that sees both files again. -/
def followed : Service := (reduced.index intact 1 false).1

theorem proper_restoringWorlds : ∀ w ∈ restoringWorlds, w.Proper := by
  rintro w (rfl | rfl)
  · exact ⟨(proper_world (a := calling) (b := plain)).tree, by simp [intact, world]⟩
  · have hr : (FileName.text "r").IsProper := by decide
    have hb : (FileName.text "B.java").IsProper := by decide
    refine ⟨.dir (by simp) (by simpa using hr) ?_, by simp [removed]⟩
    simp only [List.mem_singleton, forall_eq]
    exact .dir (by simp) (by simpa using hb) (by simpa using FileTree.Proper.file plain)

theorem textual_restoringWorlds : ∀ w ∈ restoringWorlds, w.tree.Textual := by
  have htext : ∀ s : String, (FileName.text s).IsText := fun s => ⟨s, rfl⟩
  rintro w (rfl | rfl)
  · exact textual_world
  · refine .dir (by simpa using htext "r") ?_
    simp only [List.mem_singleton, forall_eq]
    exact .dir (by simpa using htext "B.java") (by simpa using FileTree.AllNames.file plain)

section

variable {es : List (FileName × FileTree)} {names : List FileName} {content : List UInt8}

theorem at?_flat_iff (h : (FileTree.dir [("r", .dir es)]).Proper)
    (hfiles : ∀ e ∈ es, ∃ content, e.2 = .file content) :
    (FileTree.dir [("r", .dir es)]).at? names = some (.file content) ↔
      ∃ n, names = [.text "r", n] ∧ (n, .file content) ∈ es := by
  have hdir : (FileTree.dir es).Proper := by
    obtain ⟨⟩ | ⟨_, _, hsub⟩ := h
    exact hsub _ List.mem_cons_self
  rw [h.at?_dir_eq_file_iff]
  simp only [List.mem_singleton, exists_eq_left, hdir.at?_dir_eq_file_iff]
  constructor
  · rintro ⟨_, rfl, ⟨n, sub⟩, he, rest, rfl, hat⟩
    obtain ⟨content', rfl⟩ := hfiles _ he
    obtain ⟨rfl, hsub⟩ := FileTree.at?_file_eq_some_iff.mp hat
    rw [hsub]
    exact ⟨n, rfl, he⟩
  · rintro ⟨n, rfl, he⟩
    exact ⟨[n], rfl, _, he, [], rfl, rfl⟩

theorem noRules_flat (h : (FileTree.dir [("r", .dir es)]).Proper)
    (hfiles : ∀ e ∈ es, ∃ content, e.2 = .file content)
    (hnames : ∀ e ∈ es, e.1 ∉ [.text ".ignore", .text ".gitignore", .text "exclude"]) :
    (FileTree.dir [("r", .dir es)]).NoRules := by
  intro dir file hfile
  unfold Ignore.rulesAt
  split
  · rename_i content hat
    obtain ⟨n, heq, he⟩ := (at?_flat_iff h hfiles).mp hat
    have hlast : (dir ++ file).getLast? = some n := by
      rw [heq]
      rfl
    have hn := hnames _ he
    simp only [ignoreFiles, List.mem_cons, List.not_mem_nil, or_false] at hfile
    rcases hfile with rfl | rfl | rfl
    all_goals
      obtain rfl := (by simpa using hlast : _ = n)
      simp at hn
  · rfl

theorem below?_flat_iff (h : (FileTree.dir [("r", .dir es)]).Proper)
    (hfiles : ∀ e ∈ es, ∃ content, e.2 = .file content) {p : String} :
    (FileTree.dir [("r", .dir es)]).below? "/r" p = some content ↔
      (FileName.text p, .file content) ∈ es := by
  have hres : (FileTree.dir [("r", .dir es)]).resolve [] "/r" = .ok ["r"] := rfl
  rw [FileTree.below?, hres]
  simp only [FileTree.fileAt?_eq_some_iff, at?_flat_iff h hfiles]
  constructor
  · rintro ⟨n, heq, he⟩
    have hp := Text.intercalate_pieces p
    obtain ⟨m, hm, rfl⟩ := List.map_eq_singleton_iff.mp
      ((List.append_right_inj [FileName.text "r"]).mp (heq : _ = [.text "r"] ++ [n]))
    rw [hm] at hp
    obtain rfl : m = p := by simpa using hp
    exact he
  · intro he
    have hn : IsName p := by
      obtain ⟨⟩ | ⟨_, _, hsub⟩ := h
      obtain ⟨⟩ | ⟨_, hn, _⟩ := hsub _ List.mem_cons_self
      exact hn _ he
    have hp : Text.pieces '/' ("/".intercalate [p]) = [p] :=
      Text.pieces_intercalate (by simp) (by simpa using hn.no_slash)
    rw [String.intercalate_singleton] at hp
    exact ⟨p, by rw [hp]; rfl, he⟩

end

theorem noRules_restoringWorlds : ∀ w ∈ restoringWorlds, w.tree.NoRules := by
  intro w hw
  have hproper := (proper_restoringWorlds w hw).tree
  rcases hw with rfl | rfl
  · exact noRules_flat hproper (by simp) (by simp)
  · exact noRules_flat hproper (by simp) (by simp)

theorem trackable_restoringWorlds : ∀ w ∈ restoringWorlds, w.Trackable := by
  intro w hw
  refine ⟨proper_restoringWorlds w hw, textual_restoringWorlds w hw, noRules_restoringWorlds w hw,
    ?_⟩
  rcases hw with rfl | rfl
  · rfl
  · rfl

theorem below?_intact (p : String) : intact.tree.below? "/r" p = committed "c" p := by
  apply Option.ext
  intro content
  rw [intact, world, below?_flat_iff (proper_restoringWorlds _ (.inl rfl)).tree (by simp)]
  by_cases ha : p = "A.java"
  · simp [committed, ha, eq_comm]
  · by_cases hb : p = "B.java"
    · simp [committed, hb, eq_comm]
    · simp [committed, ha, hb]

theorem below?_removed (p : String) :
    removed.tree.below? "/r" p = if p = "B.java" then some plain else none := by
  apply Option.ext
  intro content
  rw [removed, below?_flat_iff (proper_restoringWorlds _ (.inr rfl)).tree (by simp)]
  by_cases hb : p = "B.java"
  · simp [hb, eq_comm]
  · simp [hb]

theorem tells_intact : intact.Tells "/r" "c" (committed "c") := by
  refine ⟨{}, rfl, ?_⟩
  rw [funext below?_intact]
  constructor
  all_goals simp

theorem tells_removed : removed.Tells "/r" "c" (committed "c") := by
  refine ⟨_, rfl, ?_⟩
  rw [funext below?_removed]
  unfold committed
  constructor
  all_goals
    intro p
    by_cases ha : p = "A.java"
    · simp [ha]
    · by_cases hb : p = "B.java"
      · simp [hb]
      · simp [ha, hb]

theorem runs_restoring :
    (ran registered intact row false).2 = .ok ⟨1, .full, 2, 2, 0, 0, 0, some "c"⟩ ∧
    complete.store.codebase? 1 = some indexedRow ∧
    (complete.index removed 1 false).2 = .ok ⟨1, .incremental, 0, 0, 0, 1, 0, some "c"⟩ ∧
    reduced.store.codebase? 1 = some indexedRow ∧
    (reduced.index intact 1 false).2 = .ok ⟨1, .incremental, 0, 0, 0, 0, 0, some "c"⟩ ∧
    (followed.store.fileHashes 1).length = 1 ∧
    (contentHashes intact.tree files).length = 2 := by decide +kernel

theorem trackedRuns_restoring : Service.TrackedRuns restoringWorlds committed
    (Store.registrationOf row) registered [intact, removed, intact] followed := by
  have hindex : registered.index intact 1 false = ran registered intact row false :=
    index_registered (a := calling) (b := plain) rfl rfl
  obtain ⟨hran, hcomplete, hsecond, hreduced, hthird, _⟩ := runs_restoring
  have hfirst : (registered.index intact 1 false).2 = .ok ⟨1, .full, 2, 2, 0, 0, 0, some "c"⟩ := by
    rw [hindex]
    exact hran
  have h₁ : Service.TrackedRuns restoringWorlds committed (Store.registrationOf row) registered
      [intact] complete := by
    have hrow : registered.store.codebase? 1 = some row := rfl
    rw [complete, ← hindex]
    refine .run .start (.inl rfl) hrow ?_ hfirst rfl
    intro commit hcommit
    simp [row] at hcommit
  have h₂ : Service.TrackedRuns restoringWorlds committed (Store.registrationOf row) registered
      [removed, intact] reduced := by
    refine .run h₁ (.inr rfl) hcomplete ?_ hsecond rfl
    rintro commit hcommit
    obtain rfl := Option.some.inj hcommit
    exact tells_removed
  refine .run h₂ (.inl rfl) hreduced ?_ hthird rfl
  rintro commit hcommit
  obtain rfl := Option.some.inj hcommit
  exact tells_intact

theorem reached_restoring :
    Service.Reached restoringWorlds .default defaultExcluded registered := by
  have hr : ({} : Service).register intact "/r" "java" none = .ok (registered, row) :=
    register_world (a := calling) (b := plain)
  exact .register .start (.inl rfl) hr

end Sample

theorem Service.tracked_runs_follow_disk_iff_sample :
    ∃ frontEnd found, Registry.default.forLanguage "java" = some frontEnd ∧
      (Scanner.make frontEnd.extensions defaultExcluded true).scan Sample.intact.tree [] "/r" =
        .ok found ∧
      ((Sample.followed.store.fileHashes 1).Perm (contentHashes Sample.intact.tree found) ↔
        ∀ e ∈ contentHashes Sample.intact.tree found, ¬ Missed Sample.committed "/r" e.1
          [Sample.intact, Sample.removed, Sample.intact]) :=
  tracked_runs_follow_disk_iff Sample.reached_restoring Sample.trackable_restoringWorlds
    (c := Store.registrationOf Sample.row) List.mem_cons_self
    (fun _ hrow => Option.some.inj hrow ▸ rfl) Sample.trackedRuns_restoring

/-- Two files are on disk as they were at the first run, and one of them is not stored. -/
theorem Service.restored_file_stays_missing :
    Reached Sample.restoringWorlds .default defaultExcluded Sample.registered ∧
    (∀ w ∈ Sample.restoringWorlds, w.Trackable) ∧
    TrackedRuns Sample.restoringWorlds Sample.committed (Store.registrationOf Sample.row)
      Sample.registered [Sample.intact, Sample.removed, Sample.intact] Sample.followed ∧
    (Scanner.make FrontEnd.java.extensions defaultExcluded true).scan Sample.intact.tree [] "/r" =
      .ok Sample.files ∧
    ¬ (Sample.followed.store.fileHashes 1).Perm
      (contentHashes Sample.intact.tree Sample.files) := by
  refine ⟨Sample.reached_restoring, Sample.trackable_restoringWorlds, Sample.trackedRuns_restoring,
    Sample.scan_world (a := Sample.calling) (b := Sample.plain), fun h => ?_⟩
  obtain ⟨_, _, _, _, _, hone, htwo⟩ := Sample.runs_restoring
  have := h.length_eq
  omega

end CodeAtlas
