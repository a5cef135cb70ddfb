import CodeAtlas.Proofs.Index.Synchronised
import CodeAtlas.Proofs.Store.Histories

/-! # One run at a time

Registrations, claims, ends of runs, deletions and reads of a status come in any order and on
any codebases. The status table and the runs in flight always agree, although different
operations write them: a codebase is being indexed exactly while its one run is open. Until
that run ends, well or not, the codebase can neither be claimed nor deleted, and no operation
shows in the status of a codebase that it is not about.
-/

namespace CodeAtlas

def IndexState.ofOutcome : Except Error IndexSummary → IndexState
  | .ok _ => .done
  | .error _ => .error

theorem IndexState.ofOutcome_ne_indexing (outcome : Except Error IndexSummary) :
    ofOutcome outcome ≠ .indexing := by
  cases outcome with
  | ok summary => simp [ofOutcome]
  | error e => simp [ofOutcome]

namespace StatusTable

variable {t : StatusTable} {id : Int}

theorem get_erase : (t.erase id).get id = {} := by
  have hnone : ((t.erase id).entries.find? fun e => e.1 == id) = none := by
    simp [erase]
  rw [get, hnone]
  rfl

end StatusTable

theorem Store.Sound.exists_codebase?_iff {s : Store} (h : s.Sound) {id : Int} :
    (∃ row, s.codebase? id = some row) ↔ ∃ c ∈ s.registrations, c.id = id := by
  simp only [h.codebase?_eq_some_iff, Store.registrations, List.mem_map]
  constructor
  · rintro ⟨row, hm, hid⟩
    exact ⟨_, ⟨row, hm, rfl⟩, hid⟩
  · rintro ⟨_, ⟨row, hm, rfl⟩, hid⟩
    exact ⟨row, hm, hid⟩

namespace IndexRun

variable {frontEnd : FrontEnd} {t : FileTree} {c : Int} {s s' : Store}
  {registry : Registry} {excluded : List String} {r : OpenRun} {w : Surroundings}
  {status : IndexStatus}

theorem run_state : (run registry excluded r w s status).status.state =
    .ofOutcome (run registry excluded r w s status).outcome := by
  have he := run_ended registry excluded r w s status
  generalize run registry excluded r w s status = report at he
  cases he with
  | stopped => rfl
  | broken => rfl
  | whole => rfl

theorem Writes.continues (h : Writes frontEnd t c s s') (hs : s.Sound) : s.Continues s' := by
  induction h with
  | done => exact .refl s
  | delete _ hd ih => exact ih.trans (Store.continues_deleteFile? hd)
  | replace hw _ _ hr ih => exact ih.trans ((hw.sound hs).continues_replaceFile hr)
  | mark commit time hw ih => exact ih.trans ((hw.sound hs).continues_markIndexed c commit time)

theorem run_continues (hs : s.Sound) : s.Continues (run registry excluded r w s status).store := by
  cases hf : check registry w r.codebase.data with
  | error e =>
    rw [run_store_of_error hf]
    exact .refl s
  | ok frontEnd => exact (run_writes hf).continues hs

end IndexRun

namespace Service

/-! ## Operations -/

/-- What is asked of a service. An operation that looks at files comes with the world that it
sees. -/
inductive Operation where
  | register (w : Surroundings) (rootPath language : String) (name : Option String)
  /-- Begin a run. -/
  | claim (id : Int) (force : Bool)
  /-- Take the open run of a codebase to its end. -/
  | finish (w : Surroundings) (id : Int)
  | delete (id : Int)
  | status (id : Int)

inductive Reply where
  | codebase (row : Row Codebase)
  | claimed
  | ended (outcome : Except Error IndexSummary)
  /-- There is no run to be ended. -/
  | noRun
  | deleted
  | status (status : IndexStatus)
  | failed (error : Error)

/-- The service after an operation, and what the operation answers. -/
def perform (s : Service) : Operation → Service × Reply
  | .register w rootPath language name =>
    match s.register w rootPath language name with
    | .ok (s, row) => (s, .codebase row)
    | .error e => (s, .failed e)
  | .claim id force =>
    match s.claim id force with
    | .ok s => (s, .claimed)
    | .error e => (s, .failed e)
  | .finish w id =>
    match s.openRun? id with
    | some r => ((s.finish w r).1, .ended (s.finish w r).2)
    | none => (s, .noRun)
  | .delete id =>
    match s.delete id with
    | .ok s => (s, .deleted)
    | .error e => (s, .failed e)
  | .status id => (s, .status (s.status id))

/-- The codebase that an operation is about. A registration is about none that is there. -/
def Operation.target? : Operation → Option Int
  | .register _ _ _ _ => none
  | .claim id _ => some id
  | .finish _ id => some id
  | .delete id => some id
  | .status id => some id

def Operation.world? : Operation → Option Surroundings
  | .register w _ _ _ => some w
  | .claim _ _ => none
  | .finish w _ => some w
  | .delete _ => none
  | .status _ => none

/-- The service after operations, the first operation first. -/
def after (registry : Registry) (excluded : List String) (ops : List Operation) : Service :=
  ops.foldl (fun s op => (s.perform op).1) { registry, excluded }

variable {s s' : Service} {w : Surroundings} {id id' : Int} {force : Bool} {registry : Registry}
  {excluded : List String} {worlds : Set Surroundings}

/-- What an operation can do: it leaves the service as it is, or does what it is named for. -/
inductive Performed (s : Service) : Operation → Service × Reply → Prop where
  | unchanged {op : Operation} (reply : Reply) : Performed s op (s, reply)
  | registered {w : Surroundings} {rootPath language : String} {name : Option String}
      {s' : Service} {row : Row Codebase} : s.register w rootPath language name = .ok (s', row) →
      Performed s (.register w rootPath language name) (s', .codebase row)
  | claimed {id : Int} {force : Bool} {s' : Service} :
      s.claim id force = .ok s' → Performed s (.claim id force) (s', .claimed)
  | ended {w : Surroundings} {r : OpenRun} : r ∈ s.runs →
      Performed s (.finish w r.codebase.id) ((s.finish w r).1, .ended (s.finish w r).2)
  | deleted {id : Int} {s' : Service} : s.delete id = .ok s' →
      Performed s (.delete id) (s', .deleted)

theorem openRun?_eq_some {r : OpenRun} (h : s.openRun? id = some r) :
    r ∈ s.runs ∧ r.codebase.id = id :=
  ⟨List.mem_of_find?_eq_some h, by simpa using List.find?_some h⟩

theorem performed (s : Service) (op : Operation) : Performed s op (s.perform op) := by
  cases op with
  | register w rootPath language name =>
    rw [perform]
    cases hr : s.register w rootPath language name with
    | ok result => exact .registered hr
    | error e => exact .unchanged _
  | claim id force =>
    rw [perform]
    cases hc : s.claim id force with
    | ok s' => exact .claimed hc
    | error e => exact .unchanged _
  | finish w id =>
    rw [perform]
    cases ho : s.openRun? id with
    | some r =>
      obtain ⟨hr, rfl⟩ := openRun?_eq_some ho
      exact .ended hr
    | none => exact .unchanged _
  | delete id =>
    rw [perform]
    cases hd : s.delete id with
    | ok s' => exact .deleted hd
    | error e => exact .unchanged _
  | status id => exact .unchanged _

theorem Reached.perform (h : Reached worlds registry excluded s) (op : Operation)
    (hop : ∀ w, op.world? = some w → w ∈ worlds) :
    Reached worlds registry excluded (s.perform op).1 := by
  have hp := performed s op
  generalize s.perform op = result at hp
  cases hp with
  | unchanged reply => exact h
  | registered hr => exact .register h (hop _ rfl) hr
  | claimed hc => exact .claim h hc
  | ended hr => exact .finish h (hop _ rfl) hr
  | deleted hd => exact .delete h hd

theorem Reached.performAll (h : Reached Set.univ registry excluded s) (ops : List Operation) :
    Reached Set.univ registry excluded (ops.foldl (fun s op => (s.perform op).1) s) := by
  induction ops generalizing s with
  | nil => exact h
  | cons op ops ih => exact ih (h.perform op fun w _ => Set.mem_univ w)

theorem after_reached (registry : Registry) (excluded : List String) (ops : List Operation) :
    Reached Set.univ registry excluded (after registry excluded ops) :=
  Reached.performAll .start ops

/-! ## Statuses and open runs -/

/-- The codebases of the open runs, one for each run. -/
def inFlight (s : Service) : List Int := s.runs.map fun r => r.codebase.id

/-- The statuses tell which runs are open, and no codebase has two. -/
structure Orderly (s : Service) : Prop where
  indexing_iff : ∀ id, s.statuses.isIndexing id = true ↔ id ∈ s.inFlight
  nodup : s.inFlight.Nodup

theorem Orderly.not_mem (h : s.Orderly) (hi : s.statuses.isIndexing id = false) :
    id ∉ s.inFlight := by
  rw [← h.indexing_iff, hi]
  simp

theorem Orderly.start : Orderly { registry, excluded } where
  indexing_iff id := by simp [StatusTable.isIndexing, StatusTable.get, inFlight]
  nodup := by simp [inFlight]

theorem Orderly.register (h : s.Orderly) {rootPath language : String} {name : Option String}
    {row : Row Codebase} (hr : s.register w rootPath language name = .ok (s', row)) :
    s'.Orderly := by
  obtain ⟨_, _, rfl | ⟨_, rfl⟩⟩ := register_ok hr
  · exact h
  · exact ⟨h.indexing_iff, h.nodup⟩

theorem Orderly.delete (h : s.Orderly) (hd : s.delete id = .ok s') : s'.Orderly := by
  obtain ⟨hi, store, _, rfl⟩ := delete_ok hd
  constructor
  · intro id'
    by_cases he : id' = id
    · subst he
      rw [StatusTable.isIndexing, StatusTable.get_erase]
      exact iff_of_false (by simp) (h.not_mem hi)
    · rw [StatusTable.isIndexing_erase_of_ne he]
      exact h.indexing_iff id'
  · exact h.nodup

theorem Orderly.claim (h : s.Orderly) (hs : s.store.Sound) (hc : s.claim id force = .ok s') :
    s'.Orderly := by
  obtain ⟨row, hrow, hi, rfl⟩ := claim_ok hc
  obtain rfl : row.id = id := (hs.codebase?_eq_some_iff.mp hrow).2
  have hruns : ({ s with
      statuses := s.statuses.set row.id .starting
      runs := s.runs ++ [⟨row, force⟩] } : Service).inFlight =
        s.inFlight ++ [row.id] := by
    simp [inFlight]
  constructor
  · intro id'
    rw [hruns, List.mem_append, List.mem_singleton]
    by_cases he : id' = row.id
    · simp [he, StatusTable.isIndexing, StatusTable.get_set, IndexStatus.starting]
    · rw [StatusTable.isIndexing_set_of_ne he, h.indexing_iff]
      simp [he]
  · rw [hruns, List.nodup_append]
    refine ⟨h.nodup, List.nodup_singleton _, ?_⟩
    rintro a ha b hb rfl
    obtain rfl := List.mem_singleton.mp hb
    exact h.not_mem hi ha

theorem inFlight_finish (r : OpenRun) :
    (s.finish w r).1.inFlight = s.inFlight.filter fun i => i != r.codebase.id := by
  simp only [inFlight, finish, List.filter_map]
  rfl

theorem state_finish (r : OpenRun) : ((s.finish w r).1.status r.codebase.id).state =
    .ofOutcome (s.finish w r).2 := by
  simp only [Service.finish, status, StatusTable.get_set]
  exact IndexRun.run_state

theorem Orderly.finish (h : s.Orderly) (r : OpenRun) : (s.finish w r).1.Orderly := by
  constructor
  · intro id
    rw [inFlight_finish, List.mem_filter]
    by_cases he : id = r.codebase.id
    · subst he
      have hstate : ((s.finish w r).1.statuses.get r.codebase.id).state ≠ .indexing := by
        have hend := state_finish (s := s) (w := w) r
        rw [status] at hend
        rw [hend]
        exact IndexState.ofOutcome_ne_indexing _
      simpa [StatusTable.isIndexing] using hstate
    · have hother : (s.finish w r).1.statuses.isIndexing id = s.statuses.isIndexing id :=
        StatusTable.isIndexing_set_of_ne he _
      rw [hother, h.indexing_iff]
      simp [he]
  · rw [inFlight_finish]
    exact h.nodup.filter _

theorem Reached.orderly (h : Reached worlds registry excluded s) : s.Orderly := by
  induction h with
  | start => exact .start
  | register _ _ hr ih => exact ih.register hr
  | delete _ hd ih => exact ih.delete hd
  | claim h hc ih => exact ih.claim h.faithful.sound hc
  | finish _ _ _ ih => exact ih.finish _

/-! ## Operations on a codebase -/

theorem claim_of_codebase?_none (h : s.store.codebase? id = none) :
    s.claim id force = .error (.codebaseNotFound id) := by
  rw [claim, h]

theorem claim_of_isIndexing {row : Row Codebase} (hrow : s.store.codebase? id = some row)
    (hi : s.statuses.isIndexing id = true) :
    s.claim id force = .error (.alreadyIndexing id) := by
  simp only [claim, hrow, hi, if_true]

theorem exists_claim {row : Row Codebase} (hrow : s.store.codebase? id = some row)
    (hi : s.statuses.isIndexing id = false) (force : Bool) :
    ∃ s', s.claim id force = .ok s' := by
  simp only [claim, hrow, hi]
  exact ⟨_, rfl⟩

theorem delete_of_isIndexing (hi : s.statuses.isIndexing id = true) :
    s.delete id = .error (.alreadyIndexing id) := by
  simp only [delete, hi, if_true]

theorem Faithful.exists_row_of_inFlight (h : Faithful worlds registry excluded s)
    (hid : id ∈ s.inFlight) : ∃ row, s.store.codebase? id = some row := by
  obtain ⟨r, hr, rfl⟩ := List.mem_map.mp hid
  exact h.sound.exists_codebase?_iff.mpr ⟨_, h.registered r hr, rfl⟩

theorem Orderly.claim_opens (h : s.Orderly) {row : Row Codebase}
    (hrow : s.store.codebase? id = some row) (hid : id ∉ s.inFlight)
    (force : Bool) :
    ∃ s', s.perform (.claim id force) = (s', .claimed) ∧ id ∈ s'.inFlight := by
  have hi : s.statuses.isIndexing id = false := by
    rw [← Bool.not_eq_true, h.indexing_iff]
    exact hid
  obtain ⟨s', hc⟩ := exists_claim hrow hi force
  refine ⟨s', by rw [perform, hc], ?_⟩
  obtain ⟨row', hrow', _, rfl⟩ := claim_ok hc
  obtain rfl := Option.some.inj (hrow.symm.trans hrow')
  have hrowid : row.id = id := by simpa using List.find?_some hrow
  simp [inFlight, hrowid]

theorem exists_openRun (hid : id ∈ s.inFlight) :
    ∃ r ∈ s.runs, r.codebase.id = id ∧ s.openRun? id = some r := by
  cases ho : s.openRun? id with
  | some r =>
    obtain ⟨hr, hri⟩ := openRun?_eq_some ho
    exact ⟨r, hr, hri, rfl⟩
  | none =>
    obtain ⟨r, hr, rfl⟩ := List.mem_map.mp hid
    have hno := List.find?_eq_none.mp ho r hr
    simp at hno

theorem Reached.finish_frees (h : Reached worlds registry excluded s) (hid : id ∈ s.inFlight)
    (hw : w ∈ worlds) :
    ∃ s' outcome, s.perform (.finish w id) = (s', .ended outcome) ∧ id ∉ s'.inFlight ∧
      (s'.status id).state = .ofOutcome outcome ∧
      ∀ force, (s'.perform (.claim id force)).2 = .claimed := by
  obtain ⟨r, hr, rfl, ho⟩ := exists_openRun hid
  have hfree : r.codebase.id ∉ (s.finish w r).1.inFlight := by
    simp [inFlight_finish]
  refine ⟨(s.finish w r).1, (s.finish w r).2, by rw [Service.perform, ho], hfree,
    state_finish r, ?_⟩
  intro force
  -- The run does not take its codebase away.
  obtain ⟨hsound, hreg, _⟩ := h.faithful.finish_store hw hr
  obtain ⟨row, hrow⟩ : ∃ row, (s.finish w r).1.store.codebase? r.codebase.id = some row :=
    hsound.exists_codebase?_iff.mpr ⟨_, hreg ▸ h.faithful.registered r hr, rfl⟩
  obtain ⟨s', hc, _⟩ := (h.orderly.finish r).claim_opens hrow hfree force
  rw [hc]

theorem status_perform {op : Operation} (hop : op.target? ≠ some id) :
    (s.perform op).1.status id = s.status id := by
  have hp := performed s op
  generalize s.perform op = result at hp
  cases hp with
  | unchanged reply => rfl
  | registered hr =>
    obtain ⟨_, _, rfl | ⟨_, rfl⟩⟩ := register_ok hr
    · rfl
    · rfl
  | claimed hc =>
    obtain ⟨_, _, _, rfl⟩ := claim_ok hc
    exact StatusTable.get_set_of_ne (fun he => hop (congrArg some he.symm)) _
  | ended hr => exact StatusTable.get_set_of_ne (fun he => hop (congrArg some he.symm)) _
  | deleted hd =>
    obtain ⟨_, _, _, rfl⟩ := delete_ok hd
    exact StatusTable.get_erase_of_ne fun he => hop (congrArg some he.symm)

/-! ## Deleted codebases -/

theorem Reached.continues_perform (h : Reached Set.univ registry excluded s) (op : Operation) :
    s.store.Continues (s.perform op).1.store := by
  have hp := performed s op
  generalize s.perform op = result at hp
  cases hp with
  | unchanged reply => exact .refl _
  | registered hr =>
    obtain ⟨_, _, rfl | ⟨_, rfl⟩⟩ := register_ok hr
    · exact .refl _
    · exact Store.continues_upsertCodebase _ _ _
  | claimed hc =>
    obtain ⟨_, _, _, rfl⟩ := claim_ok hc
    exact .refl _
  | ended hr => exact IndexRun.run_continues h.faithful.sound
  | deleted hd =>
    obtain ⟨_, _, hs, rfl⟩ := delete_ok hd
    exact Store.continues_deleteCodebase? hs

theorem Reached.continues_performAll (h : Reached Set.univ registry excluded s)
    (ops : List Operation) :
    s.store.Continues (ops.foldl (fun s op => (s.perform op).1) s).store := by
  induction ops generalizing s with
  | nil => exact .refl _
  | cons op ops ih =>
    exact (h.continues_perform op).trans (ih (h.perform op fun w _ => Set.mem_univ w))

theorem Reached.codebase?_of_deleted (h : Reached Set.univ registry excluded s)
    (hd : (s.perform (.delete id)).2 = .deleted) (later : List Operation) :
    ((later.foldl (fun s op => (s.perform op).1) (s.perform (.delete id)).1).store.codebase? id) =
      none := by
  have hlater := (h.perform (.delete id) fun w _ => Set.mem_univ w).continues_performAll later
  obtain ⟨s', hs'⟩ : ∃ s', s.delete id = .ok s' := by
    rw [Service.perform] at hd
    cases hs : s.delete id with
    | ok s' => exact ⟨s', rfl⟩
    | error e => simp [hs] at hd
  obtain ⟨_, store, hstore, rfl⟩ := delete_ok hs'
  obtain ⟨⟨row, hrow, hid⟩, rfl⟩ := Store.deleteCodebase?_eq hstore
  rw [Service.perform, hs'] at hlater ⊢
  apply Store.codebase?_eq_none_iff.mpr
  rintro ⟨row', hrow', hid'⟩
  have hle : row'.id ≤ s.store.codebases.lastId := by
    rw [hid', ← hid]
    exact h.faithful.sound.codebases.le_last row hrow
  obtain ⟨old, hold, he, _⟩ := hlater.codebases.old row' hrow' hle
  have hgone := (Table.mem_erase.mp hold).2
  rw [he, hid'] at hgone
  simp at hgone

/-! ## Histories -/

/-- What the operations on one codebase do, and what they do to it. -/
structure RunsAlone (s : Service) (id : Int) : Prop where
  /-- The status says so exactly when there is an open run. -/
  indexing_iff : (s.status id).state = .indexing ↔ id ∈ s.inFlight
  at_most_one : s.inFlight.count id ≤ 1
  claim_refused : id ∈ s.inFlight → ∀ force,
    s.perform (.claim id force) = (s, .failed (.alreadyIndexing id))
  delete_refused : id ∈ s.inFlight →
    s.perform (.delete id) = (s, .failed (.alreadyIndexing id))
  /-- However a run ends, the codebase can be claimed again. -/
  finish_frees : id ∈ s.inFlight → ∀ w, ∃ s' outcome,
    s.perform (.finish w id) = (s', .ended outcome) ∧ id ∉ s'.inFlight ∧
      (s'.status id).state = .ofOutcome outcome ∧
      ∀ force, (s'.perform (.claim id force)).2 = .claimed
  claim_opens : s.store.HasCodebase id → id ∉ s.inFlight → ∀ force, ∃ s',
    s.perform (.claim id force) = (s', .claimed) ∧ id ∈ s'.inFlight
  claim_unknown : ¬ s.store.HasCodebase id → ∀ force,
    s.perform (.claim id force) = (s, .failed (.codebaseNotFound id))
  others : ∀ op : Operation, op.target? ≠ some id → (s.perform op).1.status id = s.status id

theorem Reached.runsAlone (h : Reached Set.univ registry excluded s) (id : Int) :
    s.RunsAlone id := by
  have ho := h.orderly
  constructor
  · rw [← ho.indexing_iff, StatusTable.isIndexing, beq_iff_eq, status]
  · exact List.nodup_iff_count_le_one.mp ho.nodup id
  · intro hid force
    obtain ⟨row, hrow⟩ := h.faithful.exists_row_of_inFlight hid
    rw [Service.perform, claim_of_isIndexing hrow ((ho.indexing_iff id).mpr hid)]
  · intro hid
    rw [Service.perform, delete_of_isIndexing ((ho.indexing_iff id).mpr hid)]
  · intro hid w
    exact h.finish_frees hid (Set.mem_univ w)
  · rintro ⟨row, hrow, rfl⟩ hid force
    exact ho.claim_opens (h.faithful.sound.codebase?_eq_some_iff.mpr ⟨hrow, rfl⟩) hid force
  · intro hnone force
    rw [Service.perform, claim_of_codebase?_none (Store.codebase?_eq_none_iff.mpr hnone)]
  · intro op hop
    exact status_perform hop

/-- After every history each codebase has at most one open run, its status tells of it, and
operations on it are refused until it ends. A codebase that was deleted is never found
again. -/
theorem one_run_per_codebase (registry : Registry) (excluded : List String)
    (ops : List Operation) (id : Int) :
    (after registry excluded ops).RunsAlone id ∧
    (((after registry excluded ops).perform (.delete id)).2 = .deleted → ∀ later force,
      (after registry excluded (ops ++ .delete id :: later)).perform (.claim id force) =
        (after registry excluded (ops ++ .delete id :: later),
          .failed (.codebaseNotFound id))) := by
  have hreached := after_reached registry excluded ops
  refine ⟨hreached.runsAlone id, ?_⟩
  intro hd later force
  have hgone := hreached.codebase?_of_deleted hd later
  have hafter : after registry excluded (ops ++ .delete id :: later) =
      later.foldl (fun s op => (s.perform op).1)
        ((after registry excluded ops).perform (.delete id)).1 := by
    rw [after, List.foldl_append, List.foldl_cons]
    rfl
  rw [← hafter] at hgone
  exact ((after_reached _ _ _).runsAlone id).claim_unknown
    (Store.codebase?_eq_none_iff.mp hgone) force

end Service

namespace Sample

def registration : Service.Operation := .register (world calling plain) "/r" "java" none

theorem after_registration :
    Service.after .default defaultExcluded [registration] = registered := by
  have hr : ({ registry := .default, excluded := defaultExcluded } : Service).register
      (world calling plain) "/r" "java" none = .ok (registered, row) := register_world
  simp only [Service.after, List.foldl_cons, List.foldl_nil, Service.perform, registration, hr]

theorem after_claim : Service.after .default defaultExcluded
    [registration, .claim 1 false] = claimed := by
  have hfirst : Service.after .default defaultExcluded
      [registration, .claim 1 false] =
        (registered.perform (.claim 1 false)).1 := by
    rw [← after_registration]
    rfl
  rw [hfirst, Service.perform, claim_registered]

end Sample

/-- While a run of the sample is open, it can neither be claimed nor deleted; when the run has
ended, it can be claimed. After a deletion the directory can be registered once more, but the
codebase is gone. -/
theorem Service.one_run_per_codebase_sample :
    1 ∈ Sample.claimed.inFlight ∧
    Sample.claimed.perform (.claim 1 true) =
      (Sample.claimed, .failed (.alreadyIndexing 1)) ∧
    Sample.claimed.perform (.delete 1) = (Sample.claimed, .failed (.alreadyIndexing 1)) ∧
    (∃ s' outcome,
      Sample.claimed.perform (.finish (Sample.world Sample.plain Sample.calling) 1) =
        (s', .ended outcome) ∧
      1 ∉ s'.inFlight ∧ (s'.status 1).state = .ofOutcome outcome ∧
      ∀ force, (s'.perform (.claim 1 force)).2 = .claimed) ∧
    ((after .default defaultExcluded [Sample.registration, .delete 1, Sample.registration]).perform
      (.claim 1 false)).2 =
        .failed (.codebaseNotFound 1) := by
  have hin : 1 ∈ Sample.claimed.inFlight := by decide
  have halone := (one_run_per_codebase .default defaultExcluded
    [Sample.registration, .claim 1 false] 1).1
  rw [Sample.after_claim] at halone
  refine ⟨hin, halone.claim_refused hin _, halone.delete_refused hin,
    halone.finish_frees hin _, ?_⟩
  have hdeleted : ((after .default defaultExcluded [Sample.registration]).perform
      (.delete 1)).2 = .deleted := by
    rw [Sample.after_registration]
    rfl
  have hgone := (one_run_per_codebase .default defaultExcluded [Sample.registration] 1).2
    hdeleted [Sample.registration] false
  exact congrArg Prod.snd hgone

end CodeAtlas
