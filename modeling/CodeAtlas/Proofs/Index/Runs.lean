import CodeAtlas.Index.Run
import CodeAtlas.Proofs.Files.Trees
import CodeAtlas.Proofs.Index.Plans
import CodeAtlas.Proofs.Index.Workers
import Mathlib.Data.Set.Function

/-! # Whole runs

A run changes the store by deleting and replacing files of its codebase and by marking the
codebase, and by nothing else. Where the stored hashes vouch for the stored rows, a run
without failures leaves every processed file as it is on disk, the deleted ones absent and
the others as they were.
-/

namespace CodeAtlas

/-- Every stored file of a codebase has the rows that its front end reads from some content
with the stored hash. -/
def Store.Vouched (s : Store) (contents : Set (List UInt8)) (frontEnd : FrontEnd) (c : Int) :
    Prop :=
  ∀ p x, s.storedAt? c p = some x →
    ∃ f : SourceFile, f.ReadBy frontEnd ∧ f.content ∈ contents ∧ x = f.stored frontEnd c

namespace IndexRun

/-! ## What a run writes -/

/-- What a run of a codebase may do to the store. -/
inductive Writes (frontEnd : FrontEnd) (t : FileTree) (c : Int) : Store → Store → Prop where
  | done (s : Store) : Writes frontEnd t c s s
  | delete {s s₁ s₂ : Store} {path : String} : Writes frontEnd t c s s₁ →
      s₁.deleteFile? c path = some s₂ → Writes frontEnd t c s s₂
  | replace {s s₁ s₂ : Store} {f : SourceFile} {id : Int} : Writes frontEnd t c s s₁ →
      f.ReadBy frontEnd → t.Holds f.content →
      s₁.replaceFile (f.entry frontEnd c) f.outline = (.ok id, s₂) → Writes frontEnd t c s s₂
  | mark {s s₁ : Store} (commit : Option String) (time : String) : Writes frontEnd t c s s₁ →
      Writes frontEnd t c s (s₁.markIndexed c commit time)

variable {frontEnd : FrontEnd} {t : FileTree} {c : Int} {s s' : Store}

theorem Writes.deleteAll (h : Writes frontEnd t c s s') (paths : List String) :
    Writes frontEnd t c s (deleteAll c s' paths).1 := by
  induction paths generalizing s' with
  | nil => exact h
  | cons path rest ih =>
    rw [deleteAll_cons]
    cases hd : s'.deleteFile? c path with
    | none => exact ih h
    | some s'' => exact ih (.delete h hd)

theorem Writes.step {j : Job} {p p' : Progress} {f : ScannedFile}
    (h : Writes j.frontEnd j.tree j.codebase s p.store) (hs : j.step p f = .ok p') :
    Writes j.frontEnd j.tree j.codebase s p'.store := by
  rcases Job.step_cases hs with ⟨_, rfl⟩ | rfl | ⟨_, x, s', id, hx, hr, rfl⟩
  · exact h
  · exact h
  · obtain ⟨_, hc, hread⟩ := FrontEnd.sourceFile?_eq_some_iff.mp hx
    exact .replace h hread (FileTree.holds_of_read hc) hr

theorem Writes.sound (h : Writes frontEnd t c s s') (hs : s.Sound) : s'.Sound := by
  induction h with
  | done => exact hs
  | delete _ hd ih => exact ih.deleteFile? hd
  | replace _ _ _ hr ih => exact ih.replaceFile hr
  | mark commit time _ ih => exact ih.markIndexed c commit time

theorem Writes.registrations (h : Writes frontEnd t c s s') (hs : s.Sound) :
    s'.registrations = s.registrations := by
  induction h with
  | done => rfl
  | delete _ hd ih => exact (Store.registrations_deleteFile? hd).trans ih
  | replace _ _ _ hr ih => exact (Store.registrations_replaceFile hr).trans ih
  | mark commit time hw ih => exact ((hw.sound hs).registrations_markIndexed c commit time).trans ih

theorem Writes.storedAt?_of_ne (h : Writes frontEnd t c s s') (hs : s.Sound) {c' : Int}
    (hc : c' ≠ c) (p : String) : s'.storedAt? c' p = s.storedAt? c' p := by
  induction h with
  | done => rfl
  | delete hw hd ih =>
    rw [(hw.sound hs).storedAt?_deleteFile? hd, if_neg fun h => hc h.1, ih]
  | replace hw _ _ hr ih =>
    rw [(hw.sound hs).storedAt?_replaceFile hr, if_neg fun h => hc h.1, ih]
  | mark commit time _ ih => rw [Store.storedAt?_markIndexed, ih]

theorem Writes.vouched {contents : Set (List UInt8)} (h : Writes frontEnd t c s s') (hs : s.Sound)
    (ht : ∀ content, t.Holds content → content ∈ contents) (hv : s.Vouched contents frontEnd c) :
    s'.Vouched contents frontEnd c := by
  induction h with
  | done => exact hv
  | delete hw hd ih =>
    intro p x hx
    rw [(hw.sound hs).storedAt?_deleteFile? hd] at hx
    split at hx
    · simp at hx
    · exact ih p x hx
  | @replace _ _ f _ hw hf hh hr ih =>
    intro p x hx
    rw [(hw.sound hs).storedAt?_replaceFile hr] at hx
    split at hx
    · exact ⟨f, hf, ht _ hh, (Option.some.inj hx).symm⟩
    · exact ih p x hx
  | mark commit time _ ih =>
    intro p x hx
    rw [Store.storedAt?_markIndexed] at hx
    exact ih p x hx

variable {registry : Registry} {excluded : List String} {r : OpenRun} {w : Surroundings}
  {status : IndexStatus} {plan : IndexPlan}

/-- The store once the deletions of a plan are done. -/
def cleared (r : OpenRun) (s : Store) (plan : IndexPlan) : Store :=
  (IndexRun.deleteAll r.codebase.id s plan.delete).1

def jobOf (r : OpenRun) (w : Surroundings) (frontEnd : FrontEnd) (s : Store) (plan : IndexPlan) :
    Job :=
  ⟨w.tree, frontEnd, r.codebase.id,
    if r.force then [] else (cleared r s plan).fileHashes r.codebase.id⟩

def outset (r : OpenRun) (s : Store) (plan : IndexPlan) : Progress := ⟨cleared r s plan, 0, 0, 0⟩

/-- The status that a run shows before its first file. -/
def planned (status : IndexStatus) (plan : IndexPlan) : IndexStatus :=
  status.planned plan.process.length s!"{plan.mode.text} index in progress"

/-- The workers of a run when all their turns are over. -/
def poolOf (r : OpenRun) (w : Surroundings) (frontEnd : FrontEnd) (s : Store)
    (status : IndexStatus) (plan : IndexPlan) : Pool :=
  (jobOf r w frontEnd s plan).all w.schedule plan.process (outset r s plan) (planned status plan)

theorem carryOut_eq (head : Option String) (plan : IndexPlan) :
    carryOut r w frontEnd s status head plan =
      let pool := poolOf r w frontEnd s status plan
      match pool.reason? with
      | some reason => .failure pool.progress.store pool.status (.panicked reason)
      | none =>
        let summary : IndexSummary :=
          ⟨r.codebase.id, plan.mode, plan.process.length, pool.progress.indexed,
            pool.progress.unchanged, (IndexRun.deleteAll r.codebase.id s plan.delete).2,
            pool.progress.failed, head⟩
        ⟨pool.progress.store.markIndexed r.codebase.id
            (if pool.progress.failed == 0 then head else r.codebase.data.commit) w.now,
          pool.status.succeed summary.message, .ok summary⟩ := rfl

theorem pool_writes :
    Writes frontEnd w.tree r.codebase.id s (poolOf r w frontEnd s status plan).progress.store :=
  Job.all_keeps (P := fun p => Writes frontEnd w.tree r.codebase.id s p.store)
    (fun _ _ _ hp hs => Writes.step hp hs) ((Writes.done s).deleteAll _) _ _ _

theorem carryOut_writes (head : Option String) (plan : IndexPlan) :
    Writes frontEnd w.tree r.codebase.id s (carryOut r w frontEnd s status head plan).store := by
  rw [carryOut_eq]
  simp only
  split
  · exact pool_writes
  · exact .mark _ _ pool_writes

theorem check_ok {c : Codebase} (h : check registry w c = .ok frontEnd) :
    registry.forLanguage c.language = some frontEnd ∧ w.begun.isDirAt [] c.rootPath = true := by
  unfold check at h
  split at h
  · simp at h
  · rename_i fe hfe
    split at h
    · rename_i hdir
      exact ⟨by rw [hfe, Except.ok.inj h], hdir⟩
    · simp at h

theorem run_writes (hf : check registry w r.codebase.data = .ok frontEnd) :
    Writes frontEnd w.tree r.codebase.id s (run registry excluded r w s status).store := by
  unfold run
  rw [hf]
  simp only
  split
  · exact .done s
  · exact carryOut_writes _ _

theorem run_store_of_error {e : Error} (hf : check registry w r.codebase.data = .error e) :
    (run registry excluded r w s status).store = s := by
  unfold run
  rw [hf]
  rfl

theorem run_registrations (h : s.Sound) :
    (run registry excluded r w s status).store.registrations = s.registrations := by
  cases hf : check registry w r.codebase.data with
  | error e => rw [run_store_of_error hf]
  | ok frontEnd => exact (run_writes hf).registrations h

/-- What a run has before it touches a file: its front end and its plan. -/
def prepare (registry : Registry) (excluded : List String) (r : OpenRun) (w : Surroundings)
    (s : Store) : Except Error (FrontEnd × IndexPlan) :=
  match check registry w r.codebase.data with
  | .error e => .error e
  | .ok frontEnd =>
    match IndexPlan.make s w.tree w.detector (.make frontEnd.extensions excluded true)
        r.codebase.id r.codebase.data.rootPath r.base? with
    | .error e => .error e
    | .ok plan => .ok (frontEnd, plan)

theorem prepare_ok (h : prepare registry excluded r w s = .ok (frontEnd, plan)) :
    check registry w r.codebase.data = .ok frontEnd ∧
      IndexPlan.make s w.tree w.detector (.make frontEnd.extensions excluded true) r.codebase.id
        r.codebase.data.rootPath r.base? = .ok plan := by
  unfold prepare at h
  cases hf : check registry w r.codebase.data with
  | error e => simp [hf] at h
  | ok fe =>
    simp only [hf] at h
    split at h
    · simp at h
    · rename_i hp
      obtain ⟨rfl, rfl⟩ := Prod.mk.inj (Except.ok.inj h)
      exact ⟨rfl, hp⟩

theorem run_eq : run registry excluded r w s status =
    match prepare registry excluded r w s with
    | .error e => .failure s status e
    | .ok (frontEnd, plan) =>
      carryOut r w frontEnd s status (w.detector.head? r.codebase.data.rootPath) plan := by
  unfold run prepare
  cases check registry w r.codebase.data with
  | error e => rfl
  | ok frontEnd =>
    simp only
    cases IndexPlan.make s w.tree w.detector (.make frontEnd.extensions excluded true)
        r.codebase.id r.codebase.data.rootPath r.base? with
    | error e => rfl
    | ok plan => rfl

/-- The ways in which a run can end. -/
inductive Ended (registry : Registry) (excluded : List String) (r : OpenRun) (w : Surroundings)
    (s : Store) (status : IndexStatus) : Report → Prop where
  | stopped {e : Error} : prepare registry excluded r w s = .error e →
      Ended registry excluded r w s status (.failure s status e)
  /-- A front end broke down. -/
  | broken {frontEnd : FrontEnd} {plan : IndexPlan} {pool : Pool} {reason : String} :
      prepare registry excluded r w s = .ok (frontEnd, plan) →
      pool = poolOf r w frontEnd s status plan → pool.reason? = some reason →
      Ended registry excluded r w s status
        (.failure pool.progress.store pool.status (.panicked reason))
  | whole {frontEnd : FrontEnd} {plan : IndexPlan} {pool : Pool} {summary : IndexSummary} :
      prepare registry excluded r w s = .ok (frontEnd, plan) →
      pool = poolOf r w frontEnd s status plan → pool.reason? = none →
      summary = ⟨r.codebase.id, plan.mode, plan.process.length, pool.progress.indexed,
        pool.progress.unchanged, (IndexRun.deleteAll r.codebase.id s plan.delete).2,
        pool.progress.failed, w.detector.head? r.codebase.data.rootPath⟩ →
      Ended registry excluded r w s status
        ⟨pool.progress.store.markIndexed r.codebase.id
            (if pool.progress.failed == 0 then w.detector.head? r.codebase.data.rootPath
              else r.codebase.data.commit) w.now,
          pool.status.succeed summary.message, .ok summary⟩

theorem run_ended (registry : Registry) (excluded : List String) (r : OpenRun) (w : Surroundings)
    (s : Store) (status : IndexStatus) :
    Ended registry excluded r w s status (run registry excluded r w s status) := by
  rw [run_eq]
  cases hp : prepare registry excluded r w s with
  | error e => exact .stopped hp
  | ok prepared =>
    obtain ⟨frontEnd, plan⟩ := prepared
    simp only [carryOut_eq]
    cases hreason : (poolOf r w frontEnd s status plan).reason? with
    | some reason => exact .broken hp rfl hreason
    | none => exact .whole hp rfl hreason rfl

/-- A run that ends well had a front end and a plan, and worked all files through in the order
of its schedule. -/
theorem run_ok {summary : IndexSummary}
    (h : (run registry excluded r w s status).outcome = .ok summary) :
    ∃ frontEnd plan p, check registry w r.codebase.data = .ok frontEnd ∧
      IndexPlan.make s w.tree w.detector (.make frontEnd.extensions excluded true) r.codebase.id
        r.codebase.data.rootPath r.base? = .ok plan ∧
      (jobOf r w frontEnd s plan).Works (outset r s plan) (w.schedule.arrange plan.process) p ∧
      summary.mode = plan.mode ∧ summary.failed = p.failed ∧
      (run registry excluded r w s status).store = p.store.markIndexed r.codebase.id
        (if p.failed == 0 then w.detector.head? r.codebase.data.rootPath
          else r.codebase.data.commit) w.now := by
  have he := run_ended registry excluded r w s status
  generalize run registry excluded r w s status = report at h he
  cases he with
  | stopped => simp [Report.failure] at h
  | broken => simp [Report.failure] at h
  | @whole frontEnd plan pool _ hp hpool hreason hs =>
    obtain rfl := Except.ok.inj h
    subst hpool hs
    obtain ⟨hf, hplan⟩ := prepare_ok hp
    exact ⟨frontEnd, plan, _, hf, hplan, Job.all_works hreason, rfl, rfl, rfl⟩

theorem prepare_of_scan {found : List ScannedFile}
    (hf : check registry w r.codebase.data = .ok frontEnd) (hb : r.base? = none)
    (hscan : (Scanner.make frontEnd.extensions excluded true).scan w.tree []
      r.codebase.data.rootPath = .ok found) :
    prepare registry excluded r w s = .ok (frontEnd, .ofScan s r.codebase.id found) := by
  simp only [prepare, hf, hb, IndexPlan.make, IndexPlan.full, hscan]
  rfl

theorem run_of_scan {found : List ScannedFile}
    (hf : check registry w r.codebase.data = .ok frontEnd) (hb : r.base? = none)
    (hscan : (Scanner.make frontEnd.extensions excluded true).scan w.tree []
      r.codebase.data.rootPath = .ok found) :
    run registry excluded r w s status = carryOut r w frontEnd s status
      (w.detector.head? r.codebase.data.rootPath) (.ofScan s r.codebase.id found) := by
  rw [run_eq, prepare_of_scan hf hb hscan]

/-! ## The mark of a run -/

theorem codebases_deleteAll (paths : List String) :
    (IndexRun.deleteAll c s paths).1.codebases = s.codebases := by
  induction paths generalizing s with
  | nil => rfl
  | cons path rest ih =>
    rw [deleteAll_cons]
    cases hd : s.deleteFile? c path with
    | none => exact ih
    | some s' => exact ih.trans (Store.codebases_deleteFile? hd)

theorem codebases_step {j : Job} {p p' : Progress} {f : ScannedFile} (hs : j.step p f = .ok p') :
    p'.store.codebases = p.store.codebases := by
  rcases Job.step_cases hs with ⟨_, rfl⟩ | rfl | ⟨_, x, s', id, _, hr, rfl⟩
  · rfl
  · rfl
  · exact Store.codebases_replaceFile hr

theorem codebases_pool :
    (poolOf r w frontEnd s status plan).progress.store.codebases = s.codebases :=
  Job.all_keeps (P := fun p => p.store.codebases = s.codebases)
    (fun _ _ _ hp hstep => (codebases_step hstep).trans hp) (codebases_deleteAll plan.delete) _ _ _

theorem run_marks (h : s.Sound) {row : Row Codebase}
    (hrow : s.codebase? r.codebase.id = some row) {summary : IndexSummary}
    (hrun : (run registry excluded r w s status).outcome = .ok summary) (hf : summary.failed = 0) :
    (run registry excluded r w s status).store.codebase? r.codebase.id =
      some ⟨r.codebase.id, { row.data with
        commit := w.detector.head? r.codebase.data.rootPath, indexedAt := some w.now }⟩ := by
  have he := run_ended registry excluded r w s status
  generalize run registry excluded r w s status = report at hrun he
  cases he with
  | stopped => simp [Report.failure] at hrun
  | broken => simp [Report.failure] at hrun
  | @whole frontEnd plan pool _ hp hpool hreason hs =>
    obtain rfl := Except.ok.inj hrun
    have hfail : pool.progress.failed = 0 := by rw [← hf, hs]
    simp only [hfail]
    subst hpool
    apply (pool_writes.sound h).codebase?_markIndexed
    rw [Store.codebase?, codebases_pool]
    exact hrow

/-! ## What a run without failures leaves -/

/-- A file is stored with the hash of its content on disk. -/
def Hashed (t : FileTree) (c : Int) (s : Store) (f : ScannedFile) : Prop :=
  ∃ content x, t.read [] f.absPath = .ok content ∧ s.storedAt? c f.relPath = some x ∧
    x.entry.hash = contentHash content

/-- One of the files that a plan processes at a path is stored with the hash of its content on
disk. -/
def HashedAt (t : FileTree) (c : Int) (plan : IndexPlan) (s : Store) (path : String) : Prop :=
  ∃ f ∈ plan.process, f.relPath = path ∧ Hashed t c s f

/-- What carrying out a plan leaves of a codebase. -/
structure CarriedOut (t : FileTree) (c : Int) (s : Store) (plan : IndexPlan) (s' : Store) :
    Prop where
  sound : s'.Sound
  processed : ∀ f ∈ plan.process, HashedAt t c plan s' f.relPath
  others : ∀ q, (∀ f ∈ plan.process, f.relPath ≠ q) →
    s'.storedAt? c q = if q ∈ plan.delete then none else s.storedAt? c q

theorem knows_iff (h : s.Sound) {j : Job} (hj : j.known = s.fileHashes j.codebase)
    {path hash : String} :
    j.knows path hash = true ↔
      ∃ x, s.storedAt? j.codebase path = some x ∧ x.entry.hash = hash := by
  rw [← h.mem_fileHashes_iff]
  simp only [Job.knows, hj, beq_iff_eq, Option.map_eq_some_iff,
    find?_key_eq_some_iff (h.fileHashes_nodup j.codebase)]
  constructor
  · rintro ⟨e, ⟨he, rfl⟩, rfl⟩
    exact he
  · intro he
    exact ⟨_, ⟨he, rfl⟩, rfl⟩

theorem hashed_of_skips (h : s.Sound) {f : ScannedFile}
    (hf : (jobOf r w frontEnd s plan).Skips f) :
    Hashed w.tree r.codebase.id (cleared r s plan) f := by
  obtain ⟨content, hc, hk⟩ := hf
  have hknown : (jobOf r w frontEnd s plan).known =
      (cleared r s plan).fileHashes r.codebase.id := by
    by_cases hforce : r.force = true
    · simp [Job.knows, jobOf, hforce] at hk
    · simp [jobOf, hforce]
  obtain ⟨x, hx, hh⟩ := (knows_iff (deleteAll_sound h _) hknown).mp hk
  exact ⟨content, x, hc, hx, hh⟩

theorem hashed_replaceFile (h : s.Sound) {x : SourceFile} {f : ScannedFile} {id : Int}
    (hx : frontEnd.sourceFile? t f = some x)
    (hr : s.replaceFile (x.entry frontEnd c) x.outline = (.ok id, s')) : Hashed t c s' f := by
  obtain ⟨hp, hread, _⟩ := FrontEnd.sourceFile?_eq_some_iff.mp hx
  refine ⟨x.content, x.stored frontEnd c, hread, ?_, rfl⟩
  rw [h.storedAt?_replaceFile hr, if_pos ⟨rfl, hp.symm⟩]
  rfl

/-- A file that is written does not change whether files at other paths are stored. -/
theorem HashedAt.replaceFile (h : s.Sound) {x : SourceFile} {f : ScannedFile} {id : Int}
    (hf : f ∈ plan.process) (hx : frontEnd.sourceFile? t f = some x)
    (hr : s.replaceFile (x.entry frontEnd c) x.outline = (.ok id, s')) {path : String}
    (hat : path ≠ f.relPath → HashedAt t c plan s path) : HashedAt t c plan s' path := by
  by_cases he : path = f.relPath
  · exact ⟨f, hf, he.symm, hashed_replaceFile h hx hr⟩
  · obtain ⟨g, hg, rfl, content, y, hcontent, hy, hh⟩ := hat he
    refine ⟨g, hg, rfl, content, y, hcontent, ?_, hh⟩
    rw [h.storedAt?_replaceFile hr, if_neg, hy]
    rintro ⟨_, hq⟩
    exact he (hq.trans (FrontEnd.sourceFile?_eq_some_iff.mp hx).1)

/-- A run part of the way: some files are done, and those that are to be skipped can be. -/
structure Underway (r : OpenRun) (w : Surroundings) (frontEnd : FrontEnd) (s : Store)
    (plan : IndexPlan) (done : List ScannedFile) (s' : Store) : Prop where
  sound : s'.Sound
  done : ∀ f ∈ done, HashedAt w.tree r.codebase.id plan s' f.relPath
  skipped : ∀ f ∈ plan.process, (jobOf r w frontEnd s plan).Skips f →
    HashedAt w.tree r.codebase.id plan s' f.relPath
  others : ∀ q, (∀ f ∈ plan.process, f.relPath ≠ q) →
    s'.storedAt? r.codebase.id q = (cleared r s plan).storedAt? r.codebase.id q

section Underway

variable {done : List ScannedFile} {f : ScannedFile}

theorem Underway.skip (h : Underway r w frontEnd s plan done s') (hf : f ∈ plan.process)
    (hs : (jobOf r w frontEnd s plan).Skips f) :
    Underway r w frontEnd s plan (done ++ [f]) s' := by
  refine { h with done := ?_ }
  simpa [or_imp, forall_and] using ⟨h.done, h.skipped f hf hs⟩

theorem Underway.store (h : Underway r w frontEnd s plan done s') (hf : f ∈ plan.process)
    {x : SourceFile} {id : Int} {s'' : Store} (hx : frontEnd.sourceFile? w.tree f = some x)
    (hr : s'.replaceFile (x.entry frontEnd r.codebase.id) x.outline = (.ok id, s'')) :
    Underway r w frontEnd s plan (done ++ [f]) s'' := by
  have hp : x.path = f.relPath := (FrontEnd.sourceFile?_eq_some_iff.mp hx).1
  refine ⟨h.sound.replaceFile hr, fun g hg => ?_,
    fun g hg hk => .replaceFile h.sound hf hx hr fun _ => h.skipped g hg hk, ?_⟩
  · refine .replaceFile h.sound hf hx hr fun hne => ?_
    rcases List.mem_append.mp hg with hg | hg
    · exact h.done g hg
    · exact absurd (congrArg ScannedFile.relPath (List.mem_singleton.mp hg)) hne
  · intro q hq
    rw [h.sound.storedAt?_replaceFile hr, if_neg, h.others q hq]
    rintro ⟨_, he⟩
    exact hq f hf (hp.symm.trans he.symm)

end Underway

theorem carriedOut_of_works (h : s.Sound) {p : Progress}
    (hrun : (jobOf r w frontEnd s plan).Works (outset r s plan)
      (w.schedule.arrange plan.process) p) (hf : p.failed = 0) :
    CarriedOut w.tree r.codebase.id s plan p.store := by
  have hmem : ∀ {f}, f ∈ w.schedule.arrange plan.process ↔ f ∈ plan.process :=
    (w.schedule.arrange_perm plan.process).mem_iff
  have hstart : Underway r w frontEnd s plan [] (outset r s plan).store :=
    { sound := deleteAll_sound h _
      done := by simp
      skipped := fun f hf hs => ⟨f, hf, rfl, hashed_of_skips h hs⟩
      others := fun _ _ => rfl }
  have hend : Underway r w frontEnd s plan (w.schedule.arrange plan.process) p.store :=
    hrun.induction_of_no_failure (P := Underway r w frontEnd s plan)
      (fun hpre hs hu => hu.skip (hmem.mp (hpre.subset (by simp))) hs)
      (fun hpre _ hx hr hu => hu.store (hmem.mp (hpre.subset (by simp))) hx hr) hf hstart
  refine ⟨hend.sound, fun f hf => hend.done f (hmem.mpr hf), fun q hq => ?_⟩
  rw [hend.others q hq, cleared, storedAt?_deleteAll h]
  simp

theorem readable_of_works {p : Progress}
    (hrun : (jobOf r w frontEnd s plan).Works (outset r s plan)
      (w.schedule.arrange plan.process) p) (hf : p.failed = 0) :
    ∀ f ∈ plan.process, (jobOf r w frontEnd s plan).Skips f ∨
      ∃ x, frontEnd.sourceFile? w.tree f = some x := by
  have hall := hrun.induction_of_no_failure (P := fun done _ => ∀ f ∈ done,
      (jobOf r w frontEnd s plan).Skips f ∨ ∃ x, frontEnd.sourceFile? w.tree f = some x)
    (fun _ hs hd => by simpa [or_imp, forall_and] using ⟨hd, .inl hs⟩)
    (fun _ _ hx _ hd => by simpa [or_imp, forall_and] using ⟨hd, .inr ⟨_, hx⟩⟩) hf (by simp)
  exact fun f hf => hall f ((w.schedule.arrange_perm plan.process).mem_iff.mpr hf)

theorem CarriedOut.markIndexed (h : CarriedOut t c s plan s') (commit : Option String)
    (time : String) : CarriedOut t c s plan (s'.markIndexed c commit time) where
  sound := h.sound.markIndexed c commit time
  processed := fun f hf => by
    obtain ⟨g, hg, hp, content, x, hr, hx, hh⟩ := h.processed f hf
    exact ⟨g, hg, hp, content, x, hr, by rw [Store.storedAt?_markIndexed, hx], hh⟩
  others := fun q hq => by rw [Store.storedAt?_markIndexed, h.others q hq]

theorem run_carriedOut (h : s.Sound) {summary : IndexSummary}
    (hrun : (run registry excluded r w s status).outcome = .ok summary) (hf : summary.failed = 0) :
    ∃ frontEnd plan, check registry w r.codebase.data = .ok frontEnd ∧
      IndexPlan.make s w.tree w.detector (.make frontEnd.extensions excluded true) r.codebase.id
        r.codebase.data.rootPath r.base? = .ok plan ∧
      summary.mode = plan.mode ∧
      (∀ f ∈ plan.process, (jobOf r w frontEnd s plan).Skips f ∨
        ∃ x, frontEnd.sourceFile? w.tree f = some x) ∧
      CarriedOut w.tree r.codebase.id s plan (run registry excluded r w s status).store := by
  obtain ⟨frontEnd, plan, p, hfe, hplan, hin, hm, hfail, hs⟩ := run_ok hrun
  have hnone : p.failed = 0 := hfail.symm.trans hf
  exact ⟨frontEnd, plan, hfe, hplan, hm, readable_of_works hin hnone,
    hs ▸ (carriedOut_of_works h hin hnone).markIndexed _ w.now⟩

/-! ## Where hashes tell contents apart -/

/-- A file has the rows that its content on disk yields. -/
def Current (frontEnd : FrontEnd) (t : FileTree) (c : Int) (s : Store) (f : ScannedFile) : Prop :=
  ∃ x, frontEnd.sourceFile? t f = some x ∧ s.storedAt? c f.relPath = some (x.stored frontEnd c)

/-- A known hash that is the hash of a file on disk vouches for the stored rows. -/
theorem current_of_vouched {contents : Set (List UInt8)} (hinj : Set.InjOn contentHash contents)
    (hv : s.Vouched contents frontEnd c) {f : ScannedFile} {content : List UInt8}
    (hr : t.read [] f.absPath = .ok content) (hc : content ∈ contents) {x : StoredFile}
    (hx : s.storedAt? c f.relPath = some x) (hp : x.entry.path = f.relPath)
    (hh : x.entry.hash = contentHash content) : Current frontEnd t c s f := by
  obtain ⟨y, hy, hyc, rfl⟩ := hv _ _ hx
  obtain rfl : y.content = content := hinj hyc hc hh
  exact ⟨y, FrontEnd.sourceFile?_eq_some_iff.mpr ⟨hp, hr, hy⟩, hx⟩

/-- What carrying out a plan leaves of a codebase, rows and all. -/
structure Settled (frontEnd : FrontEnd) (t : FileTree) (c : Int) (s : Store) (plan : IndexPlan)
    (s' : Store) : Prop where
  sound : s'.Sound
  readable : ∀ f ∈ plan.process, ∃ x, frontEnd.sourceFile? t f = some x
  processed : ∀ f ∈ plan.process, ∃ g ∈ plan.process, g.relPath = f.relPath ∧
    Current frontEnd t c s' g
  others : ∀ q, (∀ f ∈ plan.process, f.relPath ≠ q) →
    s'.storedAt? c q = if q ∈ plan.delete then none else s.storedAt? c q

theorem current_of_hashed {contents : Set (List UInt8)} (hinj : Set.InjOn contentHash contents)
    (ht : ∀ content, t.Holds content → content ∈ contents) (hs : s.Sound)
    (hv : s.Vouched contents frontEnd c) {f : ScannedFile} (h : Hashed t c s f) :
    Current frontEnd t c s f := by
  obtain ⟨content, x, hr, hx, hh⟩ := h
  exact current_of_vouched hinj hv hr (ht _ (FileTree.holds_of_read hr)) hx
    (hs.storedAt?_eq_some_iff.mp hx).2 hh

/-- A run without failures leaves the rows that the contents on disk yield. -/
theorem run_settled {contents : Set (List UInt8)} (hinj : Set.InjOn contentHash contents)
    (h : s.Sound)
    (hv : ∀ frontEnd, registry.forLanguage r.codebase.data.language = some frontEnd →
      s.Vouched contents frontEnd r.codebase.id)
    (hw : ∀ content, w.tree.Holds content → content ∈ contents) {summary : IndexSummary}
    (hrun : (run registry excluded r w s status).outcome = .ok summary) (hf : summary.failed = 0) :
    ∃ frontEnd plan, check registry w r.codebase.data = .ok frontEnd ∧
      IndexPlan.make s w.tree w.detector (.make frontEnd.extensions excluded true) r.codebase.id
        r.codebase.data.rootPath r.base? = .ok plan ∧
      summary.mode = plan.mode ∧
      Settled frontEnd w.tree r.codebase.id s plan
        (run registry excluded r w s status).store := by
  obtain ⟨frontEnd, plan, hfe, hplan, hm, hreadable, hdone⟩ := run_carriedOut h hrun hf
  have hlang := hv frontEnd (check_ok hfe).1
  have hv' : (run registry excluded r w s status).store.Vouched contents frontEnd r.codebase.id :=
    (run_writes hfe).vouched h hw hlang
  have hcleared : (cleared r s plan).Vouched contents frontEnd r.codebase.id :=
    Writes.vouched ((Writes.done s).deleteAll _ : Writes frontEnd w.tree _ _ _) h hw hlang
  refine ⟨frontEnd, plan, hfe, hplan, hm, hdone.sound, fun f hf => ?_, fun f hf => ?_,
    hdone.others⟩
  · rcases hreadable f hf with hs | hx
    · -- A file that is skipped is vouched for by what was stored before.
      obtain ⟨x, hx, _⟩ :=
        current_of_hashed hinj hw (deleteAll_sound h _) hcleared (hashed_of_skips h hs)
      exact ⟨x, hx⟩
    · exact hx
  · obtain ⟨g, hg, hp, hat⟩ := hdone.processed f hf
    exact ⟨g, hg, hp, current_of_hashed hinj hw hdone.sound hv' hat⟩

end IndexRun

end CodeAtlas
