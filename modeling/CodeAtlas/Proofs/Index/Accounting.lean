import CodeAtlas.Proofs.Index.Failure
import CodeAtlas.Proofs.Index.Shown
import CodeAtlas.Proofs.Store.Counts

/-! # The books of a run

A run keeps two accounts of its files: the counts of its summary, and the status that others
can look at while it goes on. However the workers take turns, the counts of a run that ends well
add up to the files of its plan, a plan that lists a file twice included, and the status never
has more files done than there are. The files done that the status has grow exactly when the
counts are shown in order, as a single worker shows them. Where another worker is in between,
a smaller count can be shown after a greater one, and a run that is done can have fewer files
done than there are.
-/

namespace CodeAtlas

namespace IndexStatus

/-- No more files are done than there are, and while a run goes on the progress shown is that
of the files done. -/
structure InStep (s : IndexStatus) : Prop where
  done_le : s.filesDone ≤ s.filesTotal
  progress_eq : s.state = .indexing →
    s.progress = .ofFraction false s.filesDone (max s.filesTotal 1)

variable {s : IndexStatus}

theorem inStep_starting : starting.InStep where
  done_le := Nat.le_refl _
  progress_eq _ := (Binary64.ofFraction_zero 1).symm

theorem inStep_withDone {done : Nat} (h : done ≤ s.filesTotal) : (s.withDone done).InStep where
  done_le := by rwa [filesTotal_withDone]
  progress_eq _ := by
    rw [filesTotal_withDone, filesDone_withDone]
    simp only [withDone]

theorem InStep.fail (h : s.InStep) (message : String) : (s.fail message).InStep where
  done_le := h.done_le
  progress_eq hs := by cases hs

theorem InStep.succeed (h : s.InStep) (message : String) : (s.succeed message).InStep where
  done_le := h.done_le
  progress_eq hs := by cases hs

/-- None of the statuses has fewer files done than one before. -/
def Rising (statuses : List IndexStatus) : Prop :=
  statuses.Pairwise fun s s' => s.filesDone ≤ s'.filesDone

instance (statuses : List IndexStatus) : Decidable (Rising statuses) :=
  inferInstanceAs (Decidable (List.Pairwise _ statuses))

theorem rising_concat {front : List IndexStatus} {last final : IndexStatus}
    (h : final.filesDone = last.filesDone) :
    Rising (front ++ [last] ++ [final]) ↔ Rising (front ++ [last]) := by
  constructor
  · exact fun hrising => (List.pairwise_append.mp hrising).1
  · intro hrising
    refine List.pairwise_append.mpr ⟨hrising, List.pairwise_singleton _ _, fun s hs s' hs' => ?_⟩
    rw [List.mem_singleton.mp hs', h]
    rcases List.mem_append.mp hs with hs | hs
    · exact (List.pairwise_append.mp hrising).2.2 s hs last (List.mem_singleton_self _)
    · rw [List.mem_singleton.mp hs]

end IndexStatus

namespace IndexRun

variable {j : Job} {p : Pool} {base : IndexStatus} {counts : List Nat}

theorem Pool.Books.inStep (h : p.Books base counts) (htotal : p.tasks.length = base.filesTotal) :
    p.status.InStep := by
  rw [h.status_eq]
  refine IndexStatus.inStep_withDone ?_
  rw [← htotal]
  refine Nat.le_trans ?_ h.done_le
  cases hl : counts.getLast? with
  | none => exact Nat.zero_le _
  | some number =>
    have hm := h.numbers.subset (List.mem_append_left _ (List.mem_of_getLast? hl))
    have := List.mem_range'_1.mp hm
    exact (show number ≤ p.done by omega)

/-- Counts that are shown once each grow exactly when they are shown in order. -/
theorem pairwise_counts_iff {n : Nat} (h : counts.Perm (List.range' 1 n)) :
    counts.Pairwise (· ≤ ·) ↔ counts = List.range' 1 counts.length := by
  have hn : counts.length = n := by rw [h.length_eq, List.length_range']
  rw [hn]
  constructor
  · exact fun hp => h.eq_of_pairwise' hp List.pairwise_le_range'
  · rintro rfl
    exact List.pairwise_le_range'

theorem exists_scanl {α β : Type} (f : β → α → β) (b : β) (as : List α) :
    ∃ front, as.scanl f b = front ++ [as.foldl f b] := by
  induction as generalizing b with
  | nil => exact ⟨[], List.scanl_nil⟩
  | cons a as ih =>
    obtain ⟨front, h⟩ := ih (f b a)
    exact ⟨b :: front, by rw [List.scanl_cons, h]; rfl⟩

/-- The statuses of some turns, with one before and one after that change no number of files,
rise exactly when the counts that are shown grow. -/
theorem Job.rising_iff (j : Job) (p : Pool) (ts : List Turn) {first final : IndexStatus}
    (hfirst : first.filesDone = 0) (hp : p.status.filesDone = 0)
    (hfinal : final.filesDone = (ts.foldl j.turn p).status.filesDone) :
    IndexStatus.Rising (first :: (ts.scanl j.turn p).map Pool.status ++ [final]) ↔
      (j.counts p ts).Pairwise (· ≤ ·) := by
  obtain ⟨front, hfront⟩ := exists_scanl j.turn p ts
  have hmiddle := j.pairwise_filesDone_iff p ts
  rw [hp, List.pairwise_cons, and_iff_right fun _ _ => Nat.zero_le _] at hmiddle
  rw [← hmiddle, hfront, List.map_append, List.map_singleton, ← List.cons_append,
    IndexStatus.rising_concat hfinal, IndexStatus.Rising, List.cons_append, List.pairwise_cons,
    ← List.map_singleton, ← List.map_append, List.pairwise_map]
  exact and_iff_right fun s _ => hfirst ▸ Nat.zero_le _

/-- A run is reported to have deleted as many files as the codebase lost by the deletions. -/
theorem deleteAll_counts {s : Store} {c : Int} (h : s.Sound) (paths : List String) :
    (deleteAll c s paths).2 + ((deleteAll c s paths).1.codebaseStats c).files =
      (s.codebaseStats c).files := by
  induction paths generalizing s with
  | nil => exact Nat.zero_add _
  | cons path rest ih =>
    cases hd : s.deleteFile? c path with
    | none =>
      simp only [deleteAll, hd]
      exact ih h
    | some s' =>
      have hrest := ih (h.deleteFile? hd)
      have hone := h.files_deleteFile? hd
      simp only [deleteAll, hd]
      omega

/-! ## Whole runs -/

variable {registry : Registry} {excluded : List String} {r : OpenRun} {w : Surroundings}
  {frontEnd : FrontEnd} {s : Store} {plan : IndexPlan}

/-- The statuses that carrying out a plan shows, from the one it finds to the one it leaves. -/
def shownBy (r : OpenRun) (w : Surroundings) (frontEnd : FrontEnd) (s : Store)
    (status : IndexStatus) (head : Option String) (plan : IndexPlan) : List IndexStatus :=
  let j := jobOf r w frontEnd s plan
  let start := Pool.start (outset r s plan) (planned status plan) plan.process
  status :: ((j.turns w.schedule plan.process).scanl j.turn start).map Pool.status
    ++ [(carryOut r w frontEnd s status head plan).status]

def countedBy (r : OpenRun) (w : Surroundings) (frontEnd : FrontEnd) (s : Store)
    (status : IndexStatus) (plan : IndexPlan) : List Nat :=
  (jobOf r w frontEnd s plan).allCounts w.schedule plan.process (outset r s plan)
    (planned status plan)

/-- The statuses that a run shows. -/
def shown (registry : Registry) (excluded : List String) (r : OpenRun) (w : Surroundings)
    (s : Store) (status : IndexStatus) : List IndexStatus :=
  match prepare registry excluded r w s with
  | .error e => [status, status.fail e.message]
  | .ok (frontEnd, plan) =>
    shownBy r w frontEnd s status (w.detector.head? r.codebase.data.rootPath) plan

def counted (registry : Registry) (excluded : List String) (r : OpenRun) (w : Surroundings)
    (s : Store) (status : IndexStatus) : List Nat :=
  match prepare registry excluded r w s with
  | .error _ => []
  | .ok (frontEnd, plan) => countedBy r w frontEnd s status plan

/-- What the statuses of a run show, given the counts in the order in which they are shown. -/
structure Accounted (schedule : Schedule) (counts : List Nat) (shown : List IndexStatus)
    (final : IndexStatus) : Prop where
  inStep : ∀ s ∈ shown, s.InStep
  ends : shown.getLast? = some final
  /-- Each count is shown once. -/
  counts_perm : counts.Perm (List.range' 1 counts.length)
  rising_iff : IndexStatus.Rising shown ↔ counts = List.range' 1 counts.length
  filesDone_eq : final.filesDone = counts.getLast?.getD 0
  oneWorker : schedule = .oneWorker → counts = List.range' 1 counts.length

/-- The books of a run that ends well: every file of the plan has one outcome and was counted,
the deleted files are those that the codebase lost before the first file was read, and the
status that is left says that all is done. -/
structure Balanced (r : OpenRun) (s : Store) (plan : IndexPlan) (summary : IndexSummary)
    (counts : List Nat) (status : IndexStatus) : Prop where
  total : summary.filesTotal = plan.process.length
  outcomes : summary.indexed + summary.unchanged + summary.failed = summary.filesTotal
  deleted : summary.deleted + ((cleared r s plan).codebaseStats r.codebase.id).files =
    (s.codebaseStats r.codebase.id).files
  counted : counts.length = summary.filesTotal
  state : status.state = .done
  filesTotal : status.filesTotal = summary.filesTotal
  progress : status.progress = .one

theorem Balanced.filesDone_eq {summary : IndexSummary} {counts : List Nat} {status : IndexStatus}
    {shown : List IndexStatus} (h : Balanced r s plan summary counts status)
    (ha : Accounted .oneWorker counts shown status) : status.filesDone = status.filesTotal := by
  rw [ha.filesDone_eq, ha.oneWorker rfl, h.counted, h.filesTotal, List.getLast?_range']
  split
  · rename_i hzero
    exact hzero.symm
  · rename_i hpos
    simp only [Option.getD_some]
    omega

/-- The statuses of a run by workers, and one status more that has as many files done. -/
theorem accounted_of_pool {pool : Pool} {final : IndexStatus}
    (hpool : pool = poolOf r w frontEnd s .starting plan) (hfinal : final.InStep)
    (hdone : final.filesDone = pool.status.filesDone) :
    Accounted w.schedule (countedBy r w frontEnd s .starting plan)
      (IndexStatus.starting :: (((jobOf r w frontEnd s plan).turns w.schedule plan.process).scanl
        (jobOf r w frontEnd s plan).turn (.start (outset r s plan) (planned .starting plan)
          plan.process)).map Pool.status ++ [final]) final := by
  subst hpool
  have hbase : (planned .starting plan).withDone 0 = planned .starting plan :=
    IndexStatus.withDone_planned _ _
  have hperm := (jobOf r w frontEnd s plan).allCounts_perm hbase w.schedule plan.process
    (outset r s plan)
  have hlength : (countedBy r w frontEnd s .starting plan).length =
      (poolOf r w frontEnd s .starting plan).done := by
    rw [countedBy, hperm.length_eq, List.length_range']
    rfl
  refine ⟨fun st hst => ?_, List.getLast?_concat, ?_, ?_, ?_, fun hs => ?_⟩
  · rw [List.mem_append, List.mem_cons, List.mem_singleton, List.mem_map] at hst
    rcases hst with (rfl | ⟨q, hq, rfl⟩) | rfl
    · exact IndexStatus.inStep_starting
    · obtain ⟨⟨counts, hbooks⟩, htasks⟩ := (Pool.books_start hbase).scanl _ _ q hq
      refine hbooks.inStep (htasks.trans ?_)
      simp only [Pool.start, List.length_map]
      rfl
    · exact hfinal
  · rw [hlength]
    exact hperm
  · exact (Job.rising_iff _ _ _ rfl rfl hdone).trans (pairwise_counts_iff hperm)
  · rw [hdone]
    exact Job.filesDone_foldl _ _ _
  · have hone := (jobOf r w frontEnd s plan).allCounts_oneWorker plan.process (outset r s plan)
      (planned .starting plan)
    rw [← hs] at hone
    rw [hlength]
    exact hone

/-- However a plan is carried out, its books are kept, whatever files it lists and however
often. -/
theorem carryOut_accounts (r : OpenRun) (w : Surroundings) (frontEnd : FrontEnd) (h : s.Sound)
    (head : Option String) (plan : IndexPlan) :
    Accounted w.schedule (countedBy r w frontEnd s .starting plan)
        (shownBy r w frontEnd s .starting head plan)
        (carryOut r w frontEnd s .starting head plan).status ∧
      ∀ summary, (carryOut r w frontEnd s .starting head plan).outcome = .ok summary →
        Balanced r s plan summary (countedBy r w frontEnd s .starting plan)
          (carryOut r w frontEnd s .starting head plan).status := by
  have hbase : (planned .starting plan).withDone 0 = planned .starting plan :=
    IndexStatus.withDone_planned _ _
  have hbooks := (jobOf r w frontEnd s plan).books_all hbase w.schedule plan.process
    (outset r s plan)
  have hstep : (poolOf r w frontEnd s .starting plan).status.InStep :=
    hbooks.inStep (Job.length_tasks_all _ _)
  rw [shownBy, carryOut_eq]
  cases hreason : (poolOf r w frontEnd s .starting plan).reason? with
  | some reason =>
    simp only [hreason]
    exact ⟨accounted_of_pool rfl (hstep.fail _) rfl, fun _ hok => by cases hok⟩
  | none =>
    simp only [hreason]
    refine ⟨accounted_of_pool rfl (hstep.succeed _) rfl, fun summary hok => ?_⟩
    obtain rfl := Except.ok.inj hok
    have htally := (Job.all_works hreason).tally_eq
    rw [(w.schedule.arrange_perm plan.process).length_eq] at htally
    exact
      { total := rfl
        outcomes := htally.trans (Nat.zero_add _)
        deleted := deleteAll_counts h plan.delete
        counted := Job.length_allCounts hbase hreason
        state := rfl
        filesTotal := by
          have htotal := congrArg IndexStatus.filesTotal hbooks.status_eq
          rw [IndexStatus.filesTotal_withDone] at htotal
          exact htotal
        progress := rfl }

/-- The books of a run are kept from the status that it finds to the one that it leaves. -/
theorem run_accounts (registry : Registry) (excluded : List String) (r : OpenRun)
    (w : Surroundings) (h : s.Sound) :
    Accounted w.schedule (counted registry excluded r w s .starting)
        (shown registry excluded r w s .starting)
        (run registry excluded r w s .starting).status ∧
      ∀ summary, (run registry excluded r w s .starting).outcome = .ok summary →
        ∃ frontEnd plan, prepare registry excluded r w s = .ok (frontEnd, plan) ∧
          Balanced r s plan summary (counted registry excluded r w s .starting)
            (run registry excluded r w s .starting).status := by
  rw [run_eq, shown, counted]
  cases hp : prepare registry excluded r w s with
  | error e =>
    refine ⟨⟨?_, rfl, .refl _, ?_, rfl, fun _ => rfl⟩, fun _ hok => by cases hok⟩
    · simpa using ⟨IndexStatus.inStep_starting, IndexStatus.inStep_starting.fail e.message⟩
    · exact iff_of_true (List.pairwise_pair.mpr (Nat.le_refl _)) rfl
  | ok prepared =>
    obtain ⟨frontEnd, plan⟩ := prepared
    obtain ⟨haccounted, hbalanced⟩ :=
      carryOut_accounts r w frontEnd h (w.detector.head? r.codebase.data.rootPath) plan
    exact ⟨haccounted, fun summary hok => ⟨frontEnd, plan, rfl, hbalanced summary hok⟩⟩

end IndexRun

namespace Service

variable {worlds : Set Surroundings} {registry : Registry} {excluded : List String} {s : Service}

theorem Reached.status_of_run (h : Reached worlds registry excluded s) :
    ∀ r ∈ s.runs, s.status r.codebase.id = .starting := by
  induction h with
  | start => simp
  | register _ _ hr ih =>
    obtain ⟨_, _, rfl | ⟨_, rfl⟩⟩ := register_ok hr
    · exact ih
    · exact ih
  | delete h hd ih =>
    obtain ⟨hi, _, _, rfl⟩ := delete_ok hd
    intro r hr
    have hne : r.codebase.id ≠ _ := fun he => by
      have hbusy := h.faithful.busy r hr
      rw [he, hi] at hbusy
      simp at hbusy
    exact (StatusTable.get_erase_of_ne hne).trans (ih r hr)
  | @claim s _ id force h hc ih =>
    obtain ⟨row, hrow, _, rfl⟩ := claim_ok hc
    have hid : row.id = id := (h.faithful.sound.codebase?_eq_some_iff.mp hrow).2
    intro r hr
    by_cases he : r.codebase.id = id
    · rw [he]
      exact StatusTable.get_set _
    · rcases List.mem_append.mp hr with hr | hr
      · exact (StatusTable.get_set_of_ne he _).trans (ih r hr)
      · rw [List.mem_singleton.mp hr] at he
        exact absurd hid he
  | finish _ _ _ ih =>
    intro o ho
    obtain ⟨ho, hne⟩ := List.mem_filter.mp ho
    exact (StatusTable.get_set_of_ne (by simpa using hne) _).trans (ih o ho)

/-- The books of every run are kept, from the status it was claimed with to the one it leaves,
however its workers take turns. This does not depend on the plan: any other one that it were
given would be carried out likewise. -/
theorem runs_are_accounted (h : Reached worlds registry excluded s) {r : OpenRun}
    (hr : r ∈ s.runs) (w : Surroundings) :
    IndexRun.Accounted w.schedule
      (IndexRun.counted registry excluded r w s.store (s.status r.codebase.id))
      (IndexRun.shown registry excluded r w s.store (s.status r.codebase.id))
      ((s.finish w r).1.status r.codebase.id) ∧
    (∀ summary, (s.finish w r).2 = .ok summary → ∃ frontEnd plan,
      IndexRun.prepare registry excluded r w s.store = .ok (frontEnd, plan) ∧
      IndexRun.Balanced r s.store plan summary
        (IndexRun.counted registry excluded r w s.store (s.status r.codebase.id))
        ((s.finish w r).1.status r.codebase.id)) ∧
    ∀ frontEnd head plan,
      let report := IndexRun.carryOut r w frontEnd s.store (s.status r.codebase.id) head plan
      let counts := IndexRun.countedBy r w frontEnd s.store (s.status r.codebase.id) plan
      IndexRun.Accounted w.schedule counts
        (IndexRun.shownBy r w frontEnd s.store (s.status r.codebase.id) head plan)
        report.status ∧
      ∀ summary, report.outcome = .ok summary →
        IndexRun.Balanced r s.store plan summary counts report.status := by
  have hstatus : s.status r.codebase.id = .starting := h.status_of_run r hr
  have hleft : (s.finish w r).1.status r.codebase.id =
      (IndexRun.run registry excluded r w s.store .starting).status := by
    rw [← hstatus, ← h.faithful.registry_eq, ← h.faithful.excluded_eq]
    exact StatusTable.get_set _
  have houtcome : (s.finish w r).2 =
      (IndexRun.run registry excluded r w s.store .starting).outcome := by
    rw [← hstatus, ← h.faithful.registry_eq, ← h.faithful.excluded_eq]
    rfl
  obtain ⟨haccounted, hbalanced⟩ :=
    IndexRun.run_accounts registry excluded r w h.faithful.sound
  rw [hstatus, hleft, houtcome]
  exact ⟨haccounted, hbalanced, fun frontEnd head plan =>
    IndexRun.carryOut_accounts r w frontEnd h.faithful.sound head plan⟩

end Service

namespace Sample

def doubled : IndexPlan := ⟨.full, files ++ files.take 1, ["A.java", "A.java"]⟩

theorem carryOut_doubled : (IndexRun.carryOut openRun (headed calling plain) flaky
    flakyClaimed.store .starting none doubled).outcome =
      .ok ⟨1, .full, 3, 2, 0, 0, 1, none⟩ := by
  decide +kernel

end Sample

/-- A run of which one file is refused, one that breaks down at its second file, and a plan
that lists a file twice. -/
theorem Service.runs_are_accounted_sample :
    (∃ frontEnd plan,
      IndexRun.prepare Sample.flakyRegistry defaultExcluded Sample.openRun
        (Sample.headed Sample.calling Sample.plain) Sample.flakyClaimed.store =
          .ok (frontEnd, plan) ∧
      IndexRun.Balanced Sample.openRun Sample.flakyClaimed.store plan
        ⟨1, .full, 2, 1, 0, 0, 1, some "c1"⟩
        (IndexRun.counted Sample.flakyRegistry defaultExcluded Sample.openRun
          (Sample.headed Sample.calling Sample.plain) Sample.flakyClaimed.store
          (Sample.flakyClaimed.status 1))
        ((Sample.flakyClaimed.finish (Sample.headed Sample.calling Sample.plain)
          Sample.openRun).1.status 1)) ∧
    IndexStatus.Rising (IndexRun.shown Sample.flakyRegistry defaultExcluded Sample.openRun
      (Sample.headed Sample.calling []) Sample.flakyClaimed.store
      (Sample.flakyClaimed.status 1)) ∧
    IndexRun.Balanced Sample.openRun Sample.flakyClaimed.store Sample.doubled
      ⟨1, .full, 3, 2, 0, 0, 1, none⟩
      (IndexRun.countedBy Sample.openRun (Sample.headed Sample.calling Sample.plain) Sample.flaky
        Sample.flakyClaimed.store (Sample.flakyClaimed.status 1) Sample.doubled)
      (IndexRun.carryOut Sample.openRun (Sample.headed Sample.calling Sample.plain) Sample.flaky
        Sample.flakyClaimed.store (Sample.flakyClaimed.status 1) none Sample.doubled).status := by
  obtain ⟨_, hrefusing, hplans⟩ := runs_are_accounted Sample.reached_flakyClaimed
    List.mem_cons_self (Sample.headed Sample.calling Sample.plain)
  obtain ⟨hcrashing, _, _⟩ := runs_are_accounted Sample.reached_flakyClaimed
    List.mem_cons_self (Sample.headed Sample.calling [])
  exact ⟨hrefusing _ Sample.finish_refusing, hcrashing.rising_iff.mpr (hcrashing.oneWorker rfl),
    (hplans Sample.flaky none Sample.doubled).2 _ Sample.carryOut_doubled⟩

namespace Sample

/-- Two workers: one counts the first file, the other works the second file through, counts it
and shows it, and then the first file is shown. -/
def overtaken : Surroundings :=
  { world calling plain with schedule := .picks [0, 0, 1, 1, 1, 0] }

theorem finish_overtaken : claimed.finish overtaken openRun =
    let report := IndexRun.carryOut openRun overtaken .java claimed.store .starting none
      (.ofScan claimed.store 1 files)
    ({ claimed with
        store := report.store
        statuses := claimed.statuses.set 1 report.status
        runs := [] }, report.outcome) := by
  have hrun : IndexRun.run .default defaultExcluded openRun overtaken claimed.store .starting =
      IndexRun.carryOut openRun overtaken .java claimed.store .starting none
        (.ofScan claimed.store 1 files) :=
    IndexRun.run_of_scan (check_world rfl rfl rfl rfl) rfl
      (scan_world (a := calling) (b := plain))
  exact congrArg (fun report : IndexRun.Report => ({ claimed with
    store := report.store
    statuses := claimed.statuses.set 1 report.status
    runs := [] }, report.outcome)) hrun

theorem run_overtaken :
    (claimed.finish overtaken openRun).2 = .ok ⟨1, .full, 2, 2, 0, 0, 0, none⟩ ∧
    ((claimed.finish overtaken openRun).1.status 1).state = .done ∧
    ((claimed.finish overtaken openRun).1.status 1).filesTotal = 2 ∧
    ((claimed.finish overtaken openRun).1.status 1).filesDone = 1 ∧
    (IndexRun.shownBy openRun overtaken .java claimed.store .starting none
      (.ofScan claimed.store 1 files)).map IndexStatus.filesDone =
        [0, 0, 0, 0, 0, 0, 2, 1, 1, 1, 1, 1, 1, 1, 1] := by
  rw [finish_overtaken]
  decide +kernel

end Sample

/-- A run by two workers is done and has fewer files done than there are, and fewer than it had
before. -/
theorem Service.overtaken_count_is_shown_last :
    Reached Set.univ .default defaultExcluded Sample.claimed ∧
    Sample.openRun ∈ Sample.claimed.runs ∧
    (Sample.claimed.finish Sample.overtaken Sample.openRun).2 =
      .ok ⟨1, .full, 2, 2, 0, 0, 0, none⟩ ∧
    ((Sample.claimed.finish Sample.overtaken Sample.openRun).1.status 1).state = .done ∧
    ((Sample.claimed.finish Sample.overtaken Sample.openRun).1.status 1).filesTotal = 2 ∧
    ((Sample.claimed.finish Sample.overtaken Sample.openRun).1.status 1).filesDone = 1 ∧
    ¬ IndexStatus.Rising (IndexRun.shown .default defaultExcluded Sample.openRun Sample.overtaken
      Sample.claimed.store (Sample.claimed.status 1)) := by
  have hprepare : IndexRun.prepare .default defaultExcluded Sample.openRun Sample.overtaken
      Sample.claimed.store = .ok (.java, .ofScan Sample.claimed.store 1 Sample.files) :=
    IndexRun.prepare_of_scan (Sample.check_world rfl rfl rfl rfl) rfl
      (Sample.scan_world (a := Sample.calling) (b := Sample.plain))
  refine ⟨Sample.reached_claimed (Set.mem_univ (Sample.world [] [])), List.mem_cons_self, ?_⟩
  obtain ⟨houtcome, hstate, htotal, hdone, hshows⟩ := Sample.run_overtaken
  refine ⟨houtcome, hstate, htotal, hdone, ?_⟩
  have hshown : IndexRun.shown .default defaultExcluded Sample.openRun Sample.overtaken
      Sample.claimed.store (Sample.claimed.status 1) = IndexRun.shownBy Sample.openRun
        Sample.overtaken .java Sample.claimed.store .starting none
        (.ofScan Sample.claimed.store 1 Sample.files) := by
    rw [IndexRun.shown, hprepare]
    rfl
  intro hrising
  have hcounts := List.pairwise_map.mpr (hshown ▸ hrising)
  rw [hshows] at hcounts
  exact absurd hcounts (by decide)

end CodeAtlas
