import CodeAtlas.Proofs.Index.Exclusion
import CodeAtlas.Proofs.Index.Isolation
import CodeAtlas.Proofs.Index.Tracking

/-! # Runs that find nothing new

After a full run without failures the stored hashes are those of the files that a scan finds.
A further run of the same tree has nothing to do then: its plan deletes no path that is stored,
and it skips every file that it goes through, also those that a change set lists although they
did not change. So the rows of the codebase stay as they are, ids included, over any number of
such runs and whatever happens to other codebases in between.
-/

namespace CodeAtlas

/-- A change set that tells of nothing new: what it lists as deleted is not on disk, and the
accepted files on disk that it lists are files of a scan. -/
structure ChangeSet.Redundant (changes : ChangeSet) (scanner : Scanner) (t : FileTree)
    (root : String) (found : List ScannedFile) : Prop where
  deleted : ∀ p ∈ changes.deleted, IndexPlan.isOnDisk t root p = false
  changed : ∀ p ∈ changes.changed, scanner.accepts p = true →
    IndexPlan.isOnDisk t root p = true → ∃ f ∈ found, f.relPath = p

/-- A run that had nothing to do. -/
structure IndexSummary.Idle (summary : IndexSummary) : Prop where
  indexed : summary.indexed = 0
  deleted : summary.deleted = 0
  failed : summary.failed = 0
  unchanged : summary.unchanged = summary.filesTotal

/-- Two stores have the same rows of a codebase, apart from the mark of its last run. -/
structure Store.SameContents (c : Int) (s s' : Store) : Prop where
  files : (s'.share c).files = (s.share c).files
  symbols : (s'.share c).symbols = (s.share c).symbols
  imports : (s'.share c).imports = (s.share c).imports
  calls : (s'.share c).calls = (s.share c).calls
  annotations : (s'.share c).annotations = (s.share c).annotations

namespace Store

variable {s s' s'' : Store} {c : Int}

theorem SameContents.refl (s : Store) : SameContents c s s := ⟨rfl, rfl, rfl, rfl, rfl⟩

theorem SameContents.trans (h : SameContents c s s') (h' : SameContents c s' s'') :
    SameContents c s s'' where
  files := h'.files.trans h.files
  symbols := h'.symbols.trans h.symbols
  imports := h'.imports.trans h.imports
  calls := h'.calls.trans h.calls
  annotations := h'.annotations.trans h.annotations

theorem sameContents_of_share_eq (h : s'.share c = s.share c) : SameContents c s s' := by
  constructor <;> rw [h]

theorem sameContents_markIndexed (id : Int) (commit : Option String) (time : String) :
    SameContents c s (s.markIndexed id commit time) := by
  rw [markIndexed_eq]
  exact ⟨rfl, rfl, rfl, rfl, rfl⟩

theorem SameContents.fileHashes (h : SameContents c s s') : s'.fileHashes c = s.fileHashes c := by
  rw [fileHashes_eq_share, fileHashes_eq_share, h.files]

theorem share_upsertCodebase (h : s.Sound) {root language name : String}
    (hnone : s.codebaseAt? root = none) (hc : s.HasCodebase c) :
    (s.upsertCodebase root language name).1.share c = s.share c := by
  rw [upsertCodebase_eq]
  apply share_codebases
  rw [upsertCodebase, hnone]
  apply Table.filter_insertAll
  intro r hr
  obtain rfl := List.mem_singleton.mp hr
  -- The id of a new codebase was not handed out before.
  obtain ⟨row, hm, rfl⟩ := hc
  have hle := h.codebases.le_last row hm
  rw [beq_eq_false_iff_ne]
  simp only
  omega

theorem mem_registrations_iff_share {c : Registration} :
    c ∈ s.registrations ↔ ∃ row ∈ (s.share c.id).codebase, registrationOf row = c := by
  simp only [registrations, share, List.mem_map, List.mem_filter, beq_iff_eq]
  constructor
  · rintro ⟨row, hm, rfl⟩
    exact ⟨row, ⟨hm, rfl⟩, rfl⟩
  · rintro ⟨row, ⟨hm, _⟩, hrow⟩
    exact ⟨row, hm, hrow⟩

end Store

namespace IndexRun

open IndexPlan

variable {f : ScannedFile} {s : Store} {c : Int} {t : FileTree} {scanner : Scanner}
  {root : String} {found : List ScannedFile} {changes : ChangeSet}

theorem deleteAll_of_absent {paths : List String} (h : ∀ p ∈ paths, s.storedAt? c p = none) :
    deleteAll c s paths = (s, 0) := by
  induction paths with
  | nil => rfl
  | cons path rest ih =>
    have hd := Store.deleteFile?_eq_none_iff.mpr (h path List.mem_cons_self)
    rw [deleteAll, hd]
    exact ih fun p hp => h p (List.mem_cons_of_mem _ hp)

/-! ## Plans that do nothing -/

/-- A plan whose files are stored with the hashes that they have on disk, and that deletes
nothing that is stored. -/
structure IdlePlan (t : FileTree) (c : Int) (s : Store) (plan : IndexPlan) : Prop where
  process : ∀ f ∈ plan.process, Hashed t c s f
  delete : ∀ p ∈ plan.delete, s.storedAt? c p = none

variable {registry : Registry} {excluded : List String} {r : OpenRun} {w : Surroundings}
  {frontEnd : FrontEnd} {plan : IndexPlan}

theorem IdlePlan.skips (h : IdlePlan w.tree r.codebase.id s plan) (hs : s.Sound)
    (hforce : r.force = false) : ∀ f ∈ plan.process, (jobOf r w frontEnd s plan).Skips f := by
  intro f hf
  obtain ⟨content, x, hr, hx, hh⟩ := h.process f hf
  refine ⟨content, hr, ?_⟩
  apply (knows_iff hs _).mpr ⟨x, hx, hh⟩
  simp [jobOf, cleared, hforce, deleteAll_of_absent h.delete]

/-- To carry out such a plan is to mark the codebase, whichever way the workers take turns. -/
theorem IdlePlan.carryOut (h : IdlePlan w.tree r.codebase.id s plan) (hs : s.Sound)
    (hforce : r.force = false) (frontEnd : FrontEnd) (status : IndexStatus)
    (head : Option String) :
    (IndexRun.carryOut r w frontEnd s status head plan).store =
        s.markIndexed r.codebase.id head w.now ∧
      (IndexRun.carryOut r w frontEnd s status head plan).outcome =
        .ok ⟨r.codebase.id, plan.mode, plan.process.length, 0, plan.process.length, 0, 0,
          head⟩ := by
  have hskips : ∀ f ∈ plan.process, (jobOf r w frontEnd s plan).Skips f := h.skips hs hforce
  have hdelete := deleteAll_of_absent h.delete
  have hreason : (poolOf r w frontEnd s status plan).reason? = none :=
    Job.reason?_all fun f hf => (hskips f hf).crashes_eq_false
  have hpool : (poolOf r w frontEnd s status plan).progress = ⟨s, 0, plan.process.length, 0⟩ := by
    have hperm := w.schedule.arrange_perm plan.process
    have hworks := (Job.all_works hreason).eq_of_skips fun f hf => hskips f (hperm.mem_iff.mp hf)
    rw [poolOf, hworks, outset, cleared, hdelete, hperm.length_eq, Nat.zero_add]
  rw [carryOut_eq]
  simp only [hreason, hpool, hdelete, beq_self_eq_true, if_true, and_self]

/-! ## Stored hashes and a scan -/

/-- The files that a scan of a root finds, all of which can be read. -/
structure FoundAt (scanner : Scanner) (t : FileTree) (root : String) (found : List ScannedFile) :
    Prop where
  scan : scanner.scan t [] root = .ok found
  accepts : ∀ f ∈ found, scanner.accepts f.relPath = true
  path : Placed root found
  readable : ∀ f ∈ found, ∃ content, t.read [] f.absPath = .ok content

/-- A codebase has the hashes of the files of a scan, and no others. -/
structure UpToDate (s : Store) (c : Int) (t : FileTree) (found : List ScannedFile) : Prop where
  sound : s.Sound
  hashes : ∀ p hash, (p, hash) ∈ s.fileHashes c ↔ (p, hash) ∈ contentHashes t found

theorem UpToDate.hashed (h : UpToDate s c t found) (hfound : FoundAt scanner t root found)
    (hf : f ∈ found) : Hashed t c s f := by
  obtain ⟨content, hr⟩ := hfound.readable f hf
  have hm := (h.hashes _ _).mpr (mem_contentHashes.mpr ⟨f, hf, rfl, content, hr, rfl⟩)
  obtain ⟨x, hx, hh⟩ := h.sound.mem_fileHashes_iff.mp hm
  exact ⟨content, x, hr, hx, hh⟩

/-- What is stored is on disk with the hash it is stored with, and the scan finds it. -/
theorem UpToDate.of_stored (h : UpToDate s c t found) (hfound : FoundAt scanner t root found)
    {path hash : String} (hm : (path, hash) ∈ s.fileHashes c) :
    (∃ f ∈ found, f.relPath = path) ∧ scanner.accepts path = true ∧
      isOnDisk t root path = true ∧ isCurrent t root path hash = true := by
  obtain ⟨f, hf, rfl, content, hr, hh⟩ := mem_contentHashes.mp ((h.hashes _ _).mp hm)
  rw [hfound.path f hf] at hr
  exact ⟨⟨f, hf, rfl⟩, hfound.accepts f hf, isOnDisk_of_read hr,
    isCurrent_iff.mpr ⟨content, hr, hh⟩⟩

theorem UpToDate.storedAt?_eq_none (h : UpToDate s c t found) {path : String}
    (hpath : ∀ hash, (path, hash) ∉ s.fileHashes c) : s.storedAt? c path = none := by
  apply Option.eq_none_iff_forall_ne_some.mpr
  intro x hx
  exact hpath _ (h.sound.mem_fileHashes_iff.mpr ⟨x, hx, rfl⟩)

theorem UpToDate.idle_ofScan (h : UpToDate s c t found) (hfound : FoundAt scanner t root found) :
    IdlePlan t c s (.ofScan s c found) where
  process _ hf := h.hashed hfound hf
  delete path hpath := by
    apply h.storedAt?_eq_none
    intro hash hm
    obtain ⟨⟨f, hf, hfp⟩, _⟩ := h.of_stored hfound hm
    exact ((mem_delete_ofScan h.sound).mp hpath).2 f hf hfp

theorem UpToDate.idle_incremental (h : UpToDate s c t found)
    (hfound : FoundAt scanner t root found) (hred : changes.Redundant scanner t root found) :
    IdlePlan t c s (incremental s t scanner c root changes) where
  process f hf := by
    obtain ⟨hpath, haccepts, hdisk, hwhy⟩ := mem_process_incremental.mp hf
    rcases hwhy with hc | ⟨_, hash, hm, hcur⟩
    · obtain ⟨g, hg, hgp⟩ := hred.changed _ hc haccepts hdisk
      have hgf : g = f := by rw [hfound.path g hg, hgp, ← hpath]
      exact h.hashed hfound (hgf ▸ hg)
    · obtain ⟨_, _, _, hcur'⟩ := h.of_stored hfound hm
      rw [hcur'] at hcur
      simp at hcur
  delete path hpath := by
    apply h.storedAt?_eq_none
    intro hash hm
    obtain ⟨_, haccepts, hdisk, _⟩ := h.of_stored hfound hm
    rcases mem_delete_incremental.mp hpath with ⟨_, hd | ⟨_, hgone⟩⟩ | ⟨_, _, hgone⟩
    · rw [hred.deleted path hd] at hdisk
      simp at hdisk
    · rw [hgone] at hdisk
      simp at hdisk
    · rw [hdisk, haccepts] at hgone
      simp at hgone

/-- A run is full, or the changes that it asks for are redundant. -/
def Repeats (r : OpenRun) (w : Surroundings) (scanner : Scanner) (found : List ScannedFile) :
    Prop :=
  ∀ commit changes, r.base? = some commit →
    w.detector.changesSince r.codebase.data.rootPath commit = .ok changes →
      changes.Redundant scanner w.tree r.codebase.data.rootPath found

theorem UpToDate.exists_idle_plan (h : UpToDate s r.codebase.id w.tree found)
    (hfound : FoundAt scanner w.tree r.codebase.data.rootPath found)
    (hrepeats : Repeats r w scanner found) :
    ∃ plan, IndexPlan.make s w.tree w.detector scanner r.codebase.id r.codebase.data.rootPath
      r.base? = .ok plan ∧ IdlePlan w.tree r.codebase.id s plan := by
  have hfull : IndexPlan.full s w.tree scanner r.codebase.id r.codebase.data.rootPath =
      .ok (.ofScan s r.codebase.id found) := by
    rw [IndexPlan.full, hfound.scan]
    rfl
  cases hb : r.base? with
  | none => exact ⟨_, hfull, h.idle_ofScan hfound⟩
  | some commit =>
    rw [IndexPlan.make]
    cases hc : w.detector.changesSince r.codebase.data.rootPath commit with
    | ok changes => exact ⟨_, rfl, h.idle_incremental hfound (hrepeats commit changes hb hc)⟩
    | error e => exact ⟨_, hfull, h.idle_ofScan hfound⟩

theorem UpToDate.run (h : UpToDate s r.codebase.id w.tree found)
    (hfe : check registry w r.codebase.data = .ok frontEnd) (hforce : r.force = false)
    (hfound : FoundAt (.make frontEnd.extensions excluded true) w.tree r.codebase.data.rootPath
      found)
    (hrepeats : Repeats r w (.make frontEnd.extensions excluded true) found)
    (status : IndexStatus) :
    (IndexRun.run registry excluded r w s status).store = s.markIndexed r.codebase.id
        (w.detector.head? r.codebase.data.rootPath) w.now ∧
      ∃ summary, (IndexRun.run registry excluded r w s status).outcome = .ok summary ∧
        summary.Idle := by
  obtain ⟨plan, hplan, hidle⟩ := h.exists_idle_plan hfound hrepeats
  have hp : prepare registry excluded r w s = .ok (frontEnd, plan) := by
    simp only [prepare, hfe, hplan]
  obtain ⟨hstore, hout⟩ := hidle.carryOut h.sound hforce frontEnd status
    (w.detector.head? r.codebase.data.rootPath)
  rw [run_eq, hp]
  exact ⟨hstore, _, hout, ⟨rfl, rfl, rfl, rfl⟩⟩

end IndexRun

namespace Service

open IndexRun

variable {worlds : Set Surroundings} {registry : Registry} {excluded : List String}
  {s s' : Service} {w : Surroundings} {c : Store.Registration} {frontEnd : FrontEnd}
  {t : FileTree} {found : List ScannedFile} {op : Operation}

/-! ## Operations on other codebases -/

theorem Reached.share_perform (h : Reached worlds registry excluded s)
    (hc : c ∈ s.store.registrations) (hop : op.target? ≠ some c.id) :
    (s.perform op).1.store.share c.id = s.store.share c.id := by
  have hs := h.faithful.sound
  have hp := performed s op
  generalize s.perform op = result at hp
  cases hp with
  | unchanged reply => rfl
  | registered hr =>
    obtain ⟨_, _, rfl | ⟨hnone, rfl⟩⟩ := register_ok hr
    · rfl
    · obtain ⟨row, hm, rfl⟩ := List.mem_map.mp hc
      exact Store.share_upsertCodebase hs hnone ⟨row, hm, rfl⟩
  | claimed hc =>
    obtain ⟨_, _, _, rfl⟩ := claim_ok hc
    rfl
  | ended hr => exact share_run hs fun he => hop (congrArg some he)
  | deleted hd =>
    obtain ⟨_, _, hstore, rfl⟩ := delete_ok hd
    exact hs.share_deleteCodebase? hstore fun he => hop (congrArg some he)

theorem Reached.mem_runs_of_perform (h : Reached worlds registry excluded s)
    (hop : op.target? ≠ some c.id) {r : OpenRun} (hr : r ∈ (s.perform op).1.runs)
    (hid : r.codebase.id = c.id) : r ∈ s.runs := by
  have hp := performed s op
  generalize s.perform op = result at hp hr
  cases hp with
  | unchanged reply => exact hr
  | registered hreg =>
    obtain ⟨_, _, rfl | ⟨_, rfl⟩⟩ := register_ok hreg
    · exact hr
    · exact hr
  | claimed hc =>
    obtain ⟨row, hrow, _, rfl⟩ := claim_ok hc
    rcases List.mem_append.mp hr with hr | hr
    · exact hr
    · obtain rfl := List.mem_singleton.mp hr
      have hrowid := (h.faithful.sound.codebase?_eq_some_iff.mp hrow).2
      exact absurd (congrArg some (hrowid.symm.trans hid)) hop
  | ended => exact List.mem_of_mem_filter hr
  | deleted hd =>
    obtain ⟨_, _, _, rfl⟩ := delete_ok hd
    exact hr

/-! ## Further runs -/

/-- What happens after a run: anything to other codebases, and runs of this one that are not
forced, see the same tree, and are full or have redundant changes. -/
inductive Reruns (worlds : Set Surroundings) (scanner : Scanner) (id : Int) (t : FileTree)
    (found : List ScannedFile) (s : Service) : Service → Prop where
  | start : Reruns worlds scanner id t found s s
  | other {s' : Service} {op : Operation} : Reruns worlds scanner id t found s s' →
      (∀ w, op.world? = some w → w ∈ worlds) → op.target? ≠ some id →
      Reruns worlds scanner id t found s (s'.perform op).1
  | claim {s' s'' : Service} : Reruns worlds scanner id t found s s' →
      s'.claim id false = .ok s'' → Reruns worlds scanner id t found s s''
  | finish {s' : Service} {w : Surroundings} {r : OpenRun} :
      Reruns worlds scanner id t found s s' → w ∈ worlds → w.tree = t → r ∈ s'.runs →
      r.codebase.id = id → Repeats r w scanner found →
      Reruns worlds scanner id t found s (s'.finish w r).1

/-- A directory of a codebase that a scan goes through. -/
structure Scanned (registry : Registry) (excluded : List String) (c : Store.Registration)
    (frontEnd : FrontEnd) (t : FileTree) (found : List ScannedFile) : Prop where
  language : registry.forLanguage c.language = some frontEnd
  found : FoundAt (.make frontEnd.extensions excluded true) t c.root found

/-- What holds after a full run of a tree, and after further runs of it. -/
structure InSync (worlds : Set Surroundings) (registry : Registry) (excluded : List String)
    (c : Store.Registration) (frontEnd : FrontEnd) (t : FileTree) (found : List ScannedFile)
    (s : Service) : Prop where
  reached : Reached worlds registry excluded s
  registered : c ∈ s.store.registrations
  upToDate : UpToDate s.store c.id t found
  unforced : ∀ r ∈ s.runs, r.codebase.id = c.id → r.force = false

theorem InSync.other (h : InSync worlds registry excluded c frontEnd t found s)
    (hw : ∀ w, op.world? = some w → w ∈ worlds) (hop : op.target? ≠ some c.id) :
    InSync worlds registry excluded c frontEnd t found (s.perform op).1 := by
  have hreached := h.reached.perform op hw
  have hshare := h.reached.share_perform h.registered hop
  constructor
  · exact hreached
  · rw [Store.mem_registrations_iff_share, hshare, ← Store.mem_registrations_iff_share]
    exact h.registered
  · refine ⟨hreached.faithful.sound, ?_⟩
    rw [(Store.sameContents_of_share_eq hshare).fileHashes]
    exact h.upToDate.hashes
  · intro r hr hid
    exact h.unforced r (h.reached.mem_runs_of_perform hop hr hid) hid

theorem InSync.claim (h : InSync worlds registry excluded c frontEnd t found s)
    (hc : s.claim c.id false = .ok s') :
    InSync worlds registry excluded c frontEnd t found s' := by
  have hreached := Reached.claim h.reached hc
  obtain ⟨row, hrow, _, rfl⟩ := claim_ok hc
  refine ⟨hreached, h.registered, h.upToDate, ?_⟩
  intro r hr hid
  rcases List.mem_append.mp hr with hr | hr
  · exact h.unforced r hr hid
  · rw [List.mem_singleton.mp hr]

/-- A further run whose root is there marks its codebase and does nothing else. -/
theorem InSync.run (h : InSync worlds registry excluded c frontEnd t found s)
    (hscan : Scanned registry excluded c frontEnd t found) (ht : w.tree = t)
    (hdir : w.begun.isDirAt [] c.root = true) {r : OpenRun} (hr : r ∈ s.runs)
    (hid : r.codebase.id = c.id)
    (hrepeats : Repeats r w (.make frontEnd.extensions excluded true) found) :
    (s.finish w r).1.store =
        s.store.markIndexed c.id (w.detector.head? c.root) w.now ∧
      ∃ summary, (s.finish w r).2 = .ok summary ∧ summary.Idle := by
  have hs := h.reached.faithful
  obtain rfl : c = Store.registrationOf r.codebase :=
    hs.sound.registration_ext h.registered (hs.registered r hr) hid.symm
  have hfe : check registry w r.codebase.data = .ok frontEnd := by
    have hl : registry.forLanguage r.codebase.data.language = some frontEnd := hscan.language
    have hd : w.begun.isDirAt [] r.codebase.data.rootPath = true := hdir
    simp only [check, hl, hd, if_true]
  subst ht
  rw [finish, hs.registry_eq, hs.excluded_eq]
  exact h.upToDate.run hfe (h.unforced r hr rfl) hscan.found hrepeats _

theorem InSync.store_finish (h : InSync worlds registry excluded c frontEnd t found s)
    (hscan : Scanned registry excluded c frontEnd t found) (ht : w.tree = t) {r : OpenRun}
    (hr : r ∈ s.runs) (hid : r.codebase.id = c.id)
    (hrepeats : Repeats r w (.make frontEnd.extensions excluded true) found) :
    (s.finish w r).1.store = s.store ∨
      (s.finish w r).1.store = s.store.markIndexed c.id (w.detector.head? c.root) w.now := by
  have hs := h.reached.faithful
  cases hf : check registry w r.codebase.data with
  | error e =>
    left
    rw [finish, hs.registry_eq]
    exact run_store_of_error hf
  | ok frontEnd' =>
    obtain rfl : c = Store.registrationOf r.codebase :=
      hs.sound.registration_ext h.registered (hs.registered r hr) hid.symm
    exact .inr (h.run hscan ht (check_ok hf).2 hr hid hrepeats).1

theorem InSync.finish (h : InSync worlds registry excluded c frontEnd t found s)
    (hscan : Scanned registry excluded c frontEnd t found) (hw : w ∈ worlds) (ht : w.tree = t)
    {r : OpenRun} (hr : r ∈ s.runs) (hid : r.codebase.id = c.id)
    (hrepeats : Repeats r w (.make frontEnd.extensions excluded true) found) :
    InSync worlds registry excluded c frontEnd t found (s.finish w r).1 ∧
      Store.SameContents c.id s.store (s.finish w r).1.store := by
  have hreached := Reached.finish h.reached hw hr
  have hs := h.reached.faithful.sound
  have hunforced : ∀ o ∈ (s.finish w r).1.runs, o.codebase.id = c.id → o.force = false := by
    intro o ho hoid
    simp [Service.finish, hid, hoid] at ho
  rcases h.store_finish hscan ht hr hid hrepeats with hstore | hstore
  · refine ⟨⟨hreached, ?_, ?_, hunforced⟩, ?_⟩
    all_goals rw [hstore]
    · exact h.registered
    · exact h.upToDate
    · exact .refl _
  · have hsame : Store.SameContents c.id s.store (s.finish w r).1.store :=
      hstore ▸ Store.sameContents_markIndexed _ _ _
    refine ⟨⟨hreached, ?_, ⟨hreached.faithful.sound, ?_⟩, hunforced⟩, hsame⟩
    · rw [hstore, hs.registrations_markIndexed]
      exact h.registered
    · rw [hsame.fileHashes]
      exact h.upToDate.hashes

/-- However many further runs there are, the codebase stays in step with the tree and keeps its
rows. -/
theorem InSync.reruns (h : InSync worlds registry excluded c frontEnd t found s)
    (hscan : Scanned registry excluded c frontEnd t found)
    (hruns : Reruns worlds (.make frontEnd.extensions excluded true) c.id t found s s') :
    InSync worlds registry excluded c frontEnd t found s' ∧
      Store.SameContents c.id s.store s'.store := by
  induction hruns with
  | start => exact ⟨h, .refl _⟩
  | other _ hw hop ih =>
    obtain ⟨hsync, hsame⟩ := ih
    refine ⟨hsync.other hw hop, hsame.trans ?_⟩
    exact Store.sameContents_of_share_eq (hsync.reached.share_perform hsync.registered hop)
  | claim _ hc ih =>
    obtain ⟨hsync, hsame⟩ := ih
    refine ⟨hsync.claim hc, ?_⟩
    obtain ⟨_, _, _, rfl⟩ := claim_ok hc
    exact hsame
  | finish _ hw ht hr hid hrepeats ih =>
    obtain ⟨hsync, hsame⟩ := ih
    obtain ⟨hnext, hkept⟩ := hsync.finish hscan hw ht hr hid hrepeats
    exact ⟨hnext, hsame.trans hkept⟩

/-! ## The first run -/

theorem id_ne_of_index_ok {id : Int} {force : Bool} {summary : IndexSummary}
    (hok : (s.index w id force).2 = .ok summary) :
    ∀ r ∈ (s.index w id force).1.runs, r.codebase.id ≠ id := by
  unfold Service.index at hok ⊢
  cases hc : s.claim id force with
  | error e => simp [hc] at hok
  | ok s' =>
    simp only [hc] at hok ⊢
    cases ho : s'.openRun? id with
    | none => simp [ho] at hok
    | some r =>
      obtain ⟨_, rfl⟩ := openRun?_eq_some ho
      intro o hmem
      simpa using (List.mem_filter.mp hmem).2

/-- A full run without failures brings its codebase in step with the tree, where each file of
the scan is the file at its relative path. -/
theorem Reached.inSync (h : Reached worlds registry excluded s) (hw : w ∈ worlds) {id : Int}
    {force : Bool} {summary : IndexSummary} (hok : (s.index w id force).2 = .ok summary)
    (hm : summary.mode = .full) (hf : summary.failed = 0) :
    ∃ row frontEnd found, s.store.codebase? id = some row ∧ row.id = id ∧
      registry.forLanguage row.data.language = some frontEnd ∧
      (Scanner.make frontEnd.extensions excluded true).scan w.tree [] row.data.rootPath =
        .ok found ∧
      (IndexPlan.Placed row.data.rootPath found →
        Scanned registry excluded (Store.registrationOf row) frontEnd w.tree found ∧
        InSync worlds registry excluded (Store.registrationOf row) frontEnd w.tree found
          (s.index w id force).1) := by
  have hs := h.faithful
  obtain ⟨row, status, hrow, hstore, hrun⟩ := hs.index_ok hok
  obtain ⟨frontEnd, plan, hfe, hplan, hmode, _, hdone⟩ := run_carriedOut hs.sound hrun hf
  obtain ⟨found, hscan, rfl⟩ :=
    IndexPlan.full_ok (IndexPlan.full_of_make hplan (hmode.symm.trans hm))
  obtain ⟨hlang, _⟩ := check_ok hfe
  have hreg := hs.sound.registration_of_codebase? hrow
  obtain rfl : row.id = id := (hs.sound.codebase?_eq_some_iff.mp hrow).2
  refine ⟨row, frontEnd, found, hrow, rfl, hlang, hscan, fun hplaced => ?_⟩
  have hhashed : ∀ f ∈ found, Hashed w.tree row.id (s.index w row.id force).1.store f := by
    intro f hf
    obtain ⟨g, hg, hp, hat⟩ := hdone.processed f hf
    rwa [hstore, ← hplaced.eq_of_relPath g hg f hf hp]
  have hfound : FoundAt (.make frontEnd.extensions excluded true) w.tree row.data.rootPath
      found := by
    refine ⟨hscan, fun f hf => Scanner.accepts_of_mem_scan hscan hf, hplaced, fun f hf => ?_⟩
    obtain ⟨content, _, hread, _⟩ := hhashed f hf
    exact ⟨content, hread⟩
  refine ⟨⟨hlang, hfound⟩, h.index hw, ?_, ⟨?_, ?_⟩, ?_⟩
  · rw [hstore, run_registrations hs.sound]
    exact hreg
  · rw [hstore]
    exact hdone.sound
  · rw [hstore]
    exact fun _ _ => hdone.mem_fileHashes_ofScan hs.sound hplaced.eq_of_relPath
  · intro r hr hid
    exact absurd hid (id_ne_of_index_ok hok r hr)

/-- After a full run without failures, further runs of the same tree have nothing to do and
leave all rows of the codebase as they are, where each file of the scan is the file at its
relative path. -/
theorem reruns_change_nothing (h : Reached worlds registry excluded s) (hw : w ∈ worlds)
    {id : Int} {force : Bool} {summary : IndexSummary}
    (hok : (s.index w id force).2 = .ok summary) (hm : summary.mode = .full)
    (hf : summary.failed = 0) :
    ∃ row frontEnd found, s.store.codebase? id = some row ∧
      registry.forLanguage row.data.language = some frontEnd ∧
      (Scanner.make frontEnd.extensions excluded true).scan w.tree [] row.data.rootPath =
        .ok found ∧
      (IndexPlan.Placed row.data.rootPath found →
        ∀ s', Reruns worlds (.make frontEnd.extensions excluded true) id w.tree found
            (s.index w id force).1 s' →
          Store.SameContents id (s.index w id force).1.store s'.store ∧
          ∀ w' r, w'.tree = w.tree → w'.begun.isDirAt [] row.data.rootPath = true →
            r ∈ s'.runs → r.codebase.id = id →
            Repeats r w' (.make frontEnd.extensions excluded true) found →
            Store.SameContents id s'.store (s'.finish w' r).1.store ∧
            ∃ summary', (s'.finish w' r).2 = .ok summary' ∧ summary'.Idle) := by
  obtain ⟨row, frontEnd, found, hrow, rfl, hlang, hscan, hsync⟩ := h.inSync hw hok hm hf
  refine ⟨row, frontEnd, found, hrow, hlang, hscan, fun hplaced s' hruns => ?_⟩
  obtain ⟨hscanned, hsync⟩ := hsync hplaced
  obtain ⟨hsync', hsame⟩ := hsync.reruns hscanned hruns
  refine ⟨hsame, ?_⟩
  intro w' r ht hdir hr hid hrepeats
  obtain ⟨hstore, hidle⟩ := hsync'.run hscanned ht hdir hr hid hrepeats
  refine ⟨?_, hidle⟩
  rw [hstore]
  exact Store.sameContents_markIndexed _ _ _

end Service

namespace Sample

/-- A world in which version control lists a file that did not change, twice, and one that was
never there. -/
def echoed : Surroundings :=
  { world calling plain with
    detector :=
      { head? := fun _ => some "c"
        changesSince := fun _ _ =>
          .ok { added := ["A.java"], modified := ["A.java"], deleted := ["C.java"] } } }

def settled : Service := (ran registered echoed row false).1

def secondRun : OpenRun := ⟨indexedRow, false⟩

def reclaimed : Service :=
  { settled with statuses := settled.statuses.set 1 .starting, runs := [secondRun] }

theorem reached_echoed : Service.Reached {echoed} .default defaultExcluded registered := by
  have hr : ({} : Service).register echoed "/r" "java" none = .ok (registered, row) :=
    register_world (a := calling) (b := plain)
  exact .register .start rfl hr

theorem runs_echoed :
    (ran registered echoed row false).2 = .ok ⟨1, .full, 2, 2, 0, 0, 0, some "c"⟩ ∧
    settled.store.codebase? 1 = some indexedRow ∧ settled.statuses.isIndexing 1 = false ∧
    (reclaimed.finish echoed secondRun).2 = .ok ⟨1, .incremental, 2, 0, 2, 0, 0, some "c"⟩ ∧
    ∀ p ∈ ["C.java"], IndexPlan.isOnDisk echoed.tree "/r" p = false := by
  decide +kernel

theorem index_echoed : registered.index echoed 1 false = ran registered echoed row false :=
  index_registered (a := calling) (b := plain) rfl rfl

theorem index_echoed_ok : (registered.index echoed 1 false).2 =
    .ok ⟨1, .full, 2, 2, 0, 0, 0, some "c"⟩ := by
  rw [index_echoed]
  exact runs_echoed.1

theorem claim_settled : settled.claim 1 false = .ok reclaimed := by
  obtain ⟨_, hrow, hidle, _⟩ := runs_echoed
  simp only [Service.claim, hrow, hidle]
  rfl

theorem repeats_echoed : IndexRun.Repeats secondRun echoed
    (.make FrontEnd.java.extensions defaultExcluded true) files := by
  intro commit changes _ hchanges
  obtain rfl := Except.ok.inj hchanges
  constructor
  · exact runs_echoed.2.2.2.2
  · intro p hp _ _
    obtain rfl : p = "A.java" := by simpa [ChangeSet.changed] using hp
    exact ⟨⟨"A.java", "/r/A.java"⟩, by decide, rfl⟩

end Sample

/-- An incremental run of the sample after a full one skips the file that is listed, and the
codebase keeps its rows. -/
theorem Service.reruns_change_nothing_sample :
    Sample.settled.claim 1 false = .ok Sample.reclaimed ∧
    (Sample.reclaimed.finish Sample.echoed Sample.secondRun).2 =
      .ok ⟨1, .incremental, 2, 0, 2, 0, 0, some "c"⟩ ∧
    Store.SameContents 1 Sample.settled.store
      (Sample.reclaimed.finish Sample.echoed Sample.secondRun).1.store := by
  obtain ⟨row, frontEnd, found, hrow, hlang, hscan, hruns⟩ := reruns_change_nothing
    Sample.reached_echoed rfl Sample.index_echoed_ok rfl rfl
  obtain rfl : Sample.row = row := Option.some.inj hrow
  obtain rfl : .java = frontEnd := Option.some.inj (Sample.forLanguage_java.symm.trans hlang)
  obtain rfl : Sample.files = found := Except.ok.inj
    ((Sample.scan_world (a := Sample.calling) (b := Sample.plain)).symm.trans hscan)
  rw [Sample.index_echoed] at hruns
  obtain ⟨hsame, hfurther⟩ :=
    hruns Sample.placed_files Sample.reclaimed (.claim .start Sample.claim_settled)
  obtain ⟨hsame', _⟩ := hfurther Sample.echoed Sample.secondRun rfl rfl List.mem_cons_self rfl
    Sample.repeats_echoed
  obtain ⟨_, _, _, hsecond, _⟩ := Sample.runs_echoed
  exact ⟨Sample.claim_settled, hsecond, hsame.trans hsame'⟩

/-! ## Files that are indexed again and again -/

namespace Sample

/-- Two files whose names show alike, without version control. -/
def twins : Surroundings :=
  { lone [(oddName, .file plain), (oddTwin, .file calling)] {} with detector := {} }

def twinFiles : List ScannedFile :=
  [Scanner.fileBelow ["r"] [oddName], Scanner.fileBelow ["r"] [oddTwin]]

def twinsIndexed : Service := (ranOver twinFiles registered twins row false).1

def twinsRow : Row Codebase := ⟨1, { row.data with indexedAt := some "" }⟩

theorem proper_twins : twins.Proper where
  tree := by
    have htwins : (FileTree.dir [(oddName, .file plain), (oddTwin, .file calling)]).Proper :=
      .dir (by decide) (by decide) (by simp [FileTree.Proper.file])
    exact .dir (by simp) (by decide) (by simpa using htwins)
  cwd := by simp [twins, lone]

/-- What a scan finds, already in order, and two runs, of which the second changes what is
stored. -/
theorem runs_twins :
    (([[oddName], [oddTwin]].map (Scanner.fileBelow ["r"])).filter fun f =>
      (Scanner.make FrontEnd.java.extensions defaultExcluded true).accepts f.relPath) =
        twinFiles ∧
    (twinFiles.Pairwise fun f g => Text.bytesLe f.relPath g.relPath) ∧
    (ranOver twinFiles registered twins row false).2 = .ok ⟨1, .full, 2, 2, 0, 0, 0, none⟩ ∧
    twinsIndexed.store.codebase? twinsRow.id = some twinsRow ∧
    twinsIndexed.statuses.isIndexing twinsRow.id = false ∧
    (ranOver twinFiles twinsIndexed twins twinsRow false).2 =
      .ok ⟨1, .full, 2, 1, 1, 0, 0, none⟩ ∧
    (ranOver twinFiles twinsIndexed twins twinsRow false).1.store.fileHashes 1 ≠
      twinsIndexed.store.fileHashes 1 := by decide +kernel

theorem scan_twins : (Scanner.make FrontEnd.java.extensions defaultExcluded true).scan twins.tree []
    "/r" = .ok twinFiles := by
  obtain ⟨hfound, hsorted, _⟩ := runs_twins
  have hroot : twins.tree.resolve [] "/r" = .ok ["r"] := rfl
  exact Scanner.scan_of_walk hroot rfl hfound hsorted

theorem rerun_respelled :
    (registered.index respelled 1 false).2 = .ok ⟨1, .full, 1, 1, 0, 0, 0, some "c"⟩ ∧
    (respelledIndexed.index respelled 1 false).1.store.fileHashes 1 ≠
      respelledIndexed.store.fileHashes 1 := by decide +kernel

theorem index_twins {s : Service} {row : Row Codebase} (hs : s.registry = .default)
    (he : s.excluded = defaultExcluded) (hruns : s.runs = [])
    (hrow : s.store.codebase? row.id = some row) (hl : row.data.language = "java")
    (hr : row.data.rootPath = "/r") (hcommit : row.data.commit = none)
    (hidle : s.statuses.isIndexing row.id = false) :
    s.index twins row.id false = ranOver twinFiles s twins row false := by
  have hd : twins.begun.isDirAt [] "/r" = true := rfl
  have hcheck : IndexRun.check s.registry twins row.data = .ok .java := by
    simp [IndexRun.check, hs, hl, hr, forLanguage_java, hd]
  exact Service.index_of_scan hrow hidle hruns hcheck (by simp [OpenRun.base?, hcommit])
    (by rw [he, hr, scan_twins])

theorem index_twins_first :
    registered.index twins 1 false = ranOver twinFiles registered twins row false := by
  have hrow : registered.store.codebase? row.id = some row := rfl
  exact index_twins rfl rfl rfl hrow rfl rfl rfl rfl

theorem index_twins_again :
    twinsIndexed.index twins 1 false = ranOver twinFiles twinsIndexed twins twinsRow false := by
  obtain ⟨_, _, _, hrow, hidle, _⟩ := runs_twins
  exact index_twins rfl rfl rfl hrow rfl rfl rfl hidle

end Sample

open Sample in
/-- Of two files that are found under one path, one is indexed again by every run. A file that is
listed with another spelling of its path is indexed again, too. -/
theorem Service.rerun_indexes_again :
    (Reached {twins} .default defaultExcluded twinsIndexed ∧ twins.Proper ∧
      (Scanner.make FrontEnd.java.extensions defaultExcluded true).scan twins.tree [] "/r" =
        .ok twinFiles ∧
      (registered.index twins 1 false).2 = .ok ⟨1, .full, 2, 2, 0, 0, 0, none⟩ ∧
      (twinsIndexed.index twins 1 false).2 = .ok ⟨1, .full, 2, 1, 1, 0, 0, none⟩ ∧
      ¬ Store.SameContents 1 twinsIndexed.store (twinsIndexed.index twins 1 false).1.store) ∧
    Reached {respelled} .default defaultExcluded respelledIndexed ∧
      (Scanner.make FrontEnd.java.extensions defaultExcluded true).scan respelled.tree [] "/r" =
        .ok nestedFiles ∧
      (registered.index respelled 1 false).2 = .ok ⟨1, .full, 1, 1, 0, 0, 0, some "c"⟩ ∧
      (∀ f ∈ nestedFiles, Path.names f.relPath = Path.names "sub//B.java" ∧
        respelled.tree.resolve [] f.absPath =
          respelled.tree.resolve [] (Path.join "/r" "sub//B.java")) ∧
      (respelledIndexed.index respelled 1 false).2 =
        .ok ⟨1, .incremental, 1, 1, 0, 0, 0, some "c"⟩ ∧
      ¬ Store.SameContents 1 respelledIndexed.store
        (respelledIndexed.index respelled 1 false).1.store := by
  have hreached : Reached {twins} .default defaultExcluded (registered.index twins 1 false).1 :=
    reached_lone (w := twins) (register_root rfl rfl)
  rw [index_twins_first] at hreached ⊢
  rw [index_twins_again]
  obtain ⟨_, _, hfirst, _, _, hsecond, hfiles⟩ := runs_twins
  obtain ⟨hnested, hnames, hrerun, _⟩ := runs_respelled
  obtain ⟨hone, hchanged⟩ := rerun_respelled
  exact ⟨⟨hreached, proper_twins, scan_twins, hfirst, hsecond, fun h => hfiles h.fileHashes⟩,
    reached_lone (register_root rfl rfl), hnested, hone, hnames, hrerun,
    fun h => hchanged h.fileHashes⟩

end CodeAtlas
