import CodeAtlas.Proofs.Index.Runs
import CodeAtlas.Service

/-! # Histories of a service

A service is reached from an empty one by registering, deleting, claiming and finishing, in
any order and however the world changes in between. In every service that is reached, what a
codebase stores is vouched for by contents that occurred, and an open run is of a registered
codebase.
-/

namespace CodeAtlas

def contentsIn (worlds : Set Surroundings) : Set (List UInt8) :=
  {content | ∃ w ∈ worlds, w.tree.Holds content}

/-- A world as a file system shows it. -/
structure Surroundings.Proper (w : Surroundings) : Prop where
  tree : w.tree.Proper
  cwd : ∀ n ∈ w.cwd, n.IsProper

namespace StatusTable

variable {t : StatusTable} {id id' : Int}

theorem get_erase_of_ne (h : id' ≠ id) : (t.erase id).get id' = t.get id' := by
  unfold get erase
  rw [List.find?_filter]
  congr 3
  funext e
  by_cases he : e.1 = id'
  · simp [he, h]
  · simp [he]

theorem get_set (s : IndexStatus) : (t.set id s).get id = s := by
  simp [get, set]

theorem get_set_of_ne (h : id' ≠ id) (s : IndexStatus) : (t.set id s).get id' = t.get id' := by
  have he : (t.set id s).get id' = (t.erase id).get id' := by simp [get, set, h.symm]
  rw [he, get_erase_of_ne h]

theorem isIndexing_erase_of_ne (h : id' ≠ id) :
    (t.erase id).isIndexing id' = t.isIndexing id' := by
  simp only [isIndexing, get_erase_of_ne h]

theorem isIndexing_set_of_ne (h : id' ≠ id) (s : IndexStatus) :
    (t.set id s).isIndexing id' = t.isIndexing id' := by
  simp only [isIndexing, get_set_of_ne h]

end StatusTable

namespace Service

variable {s s' : Service} {w : Surroundings} {id : Int} {force : Bool}

/-! ## What each operation does -/

theorem register_ok {rootPath language : String} {name : Option String} {row : Row Codebase}
    (h : s.register w rootPath language name = .ok (s', row)) :
    ∃ names, w.tree.resolve w.cwd rootPath = .ok names ∧
      (s' = s ∨ s.store.codebaseAt? (Path.absolute (names.map FileName.shown)) = none ∧
        s' = { s with
          store := (s.store.upsertCodebase (Path.absolute (names.map FileName.shown)) language
            (codebaseName name (Path.absolute (names.map FileName.shown)))).1 }) := by
  unfold register at h
  cases hn : w.tree.resolve w.cwd rootPath with
  | error e => simp [hn] at h
  | ok names =>
    simp only [hn] at h
    split at h
    · simp at h
    · refine ⟨names, rfl, ?_⟩
      split at h
      · exact .inl (Prod.mk.inj (Except.ok.inj h)).1.symm
      · rename_i hc
        exact .inr ⟨hc, (Prod.mk.inj (Except.ok.inj h)).1.symm⟩

theorem delete_ok (h : s.delete id = .ok s') :
    s.statuses.isIndexing id = false ∧ ∃ store, s.store.deleteCodebase? id = some store ∧
      s' = { s with store := store, statuses := s.statuses.erase id } := by
  unfold delete at h
  split at h
  · simp at h
  · rename_i hi
    split at h
    · simp at h
    · rename_i store hd
      exact ⟨by simpa using hi, store, hd, (Except.ok.inj h).symm⟩

theorem claim_ok (h : s.claim id force = .ok s') :
    ∃ row, s.store.codebase? id = some row ∧ s.statuses.isIndexing id = false ∧
      s' = { s with
        statuses := s.statuses.set id .starting
        runs := s.runs ++ [⟨row, force⟩] } := by
  unfold claim at h
  split at h
  · simp at h
  · rename_i row hr
    split at h
    · simp at h
    · rename_i hi
      exact ⟨row, hr, by simpa using hi, (Except.ok.inj h).symm⟩

/-! ## Reachable services -/

/-- The services that a history leads to. Each step sees one of some worlds. -/
inductive Reached (worlds : Set Surroundings) (registry : Registry) (excluded : List String) :
    Service → Prop where
  | start : Reached worlds registry excluded { registry := registry, excluded := excluded }
  | register {s s' : Service} {w : Surroundings} {rootPath language : String}
      {name : Option String} {row : Row Codebase} : Reached worlds registry excluded s →
      w ∈ worlds → s.register w rootPath language name = .ok (s', row) →
      Reached worlds registry excluded s'
  | delete {s s' : Service} {id : Int} : Reached worlds registry excluded s →
      s.delete id = .ok s' → Reached worlds registry excluded s'
  | claim {s s' : Service} {id : Int} {force : Bool} : Reached worlds registry excluded s →
      s.claim id force = .ok s' → Reached worlds registry excluded s'
  | finish {s : Service} {w : Surroundings} {r : OpenRun} : Reached worlds registry excluded s →
      w ∈ worlds → r ∈ s.runs → Reached worlds registry excluded (s.finish w r).1

/-- What holds of every service that is reached. -/
structure Faithful (worlds : Set Surroundings) (registry : Registry) (excluded : List String)
    (s : Service) : Prop where
  registry_eq : s.registry = registry
  excluded_eq : s.excluded = excluded
  sound : s.store.Sound
  vouched : ∀ c ∈ s.store.registrations, ∀ frontEnd,
    registry.forLanguage c.language = some frontEnd →
      s.store.Vouched (contentsIn worlds) frontEnd c.id
  registered : ∀ r ∈ s.runs, Store.registrationOf r.codebase ∈ s.store.registrations
  busy : ∀ r ∈ s.runs, s.statuses.isIndexing r.codebase.id = true

section Faithful

variable {worlds : Set Surroundings} {registry : Registry} {excluded : List String}

theorem Faithful.start : Faithful worlds registry excluded { registry, excluded } where
  registry_eq := rfl
  excluded_eq := rfl
  sound := Store.sound_empty
  vouched := by simp [Store.registrations]
  registered := by simp
  busy := by simp

theorem Faithful.register (h : Faithful worlds registry excluded s) {rootPath language : String}
    {name : Option String} {row : Row Codebase}
    (hr : s.register w rootPath language name = .ok (s', row)) :
    Faithful worlds registry excluded s' := by
  obtain ⟨names, _, rfl | ⟨hn, rfl⟩⟩ := register_ok hr
  · exact h
  · refine { h with
      sound := h.sound.upsertCodebase _ _ _
      vouched := ?_
      registered := fun r hr =>
        (Store.mem_registrations_upsertCodebase hn).mpr (.inl (h.registered r hr)) }
    intro c hc frontEnd hf p x hx
    rw [Store.storedAt?_upsertCodebase] at hx
    rcases (Store.mem_registrations_upsertCodebase hn).mp hc with hc | rfl
    · exact h.vouched c hc frontEnd hf p x hx
    · rw [h.sound.storedAt?_next] at hx
      cases hx

theorem Faithful.delete (h : Faithful worlds registry excluded s) (hd : s.delete id = .ok s') :
    Faithful worlds registry excluded s' := by
  obtain ⟨hi, store, hs, rfl⟩ := delete_ok hd
  have hne : ∀ r ∈ s.runs, r.codebase.id ≠ id := by
    intro r hr he
    have := h.busy r hr
    rw [he, hi] at this
    simp at this
  refine { h with
    sound := h.sound.deleteCodebase? hs
    vouched := ?_
    registered := fun r hr =>
      (Store.mem_registrations_deleteCodebase? hs).mpr ⟨h.registered r hr, hne r hr⟩
    busy := fun r hr => by
      rw [StatusTable.isIndexing_erase_of_ne (hne r hr)]
      exact h.busy r hr }
  intro c hc frontEnd hf p x hx
  obtain ⟨hc, hci⟩ := (Store.mem_registrations_deleteCodebase? hs).mp hc
  rw [h.sound.storedAt?_deleteCodebase? hs, if_neg hci] at hx
  exact h.vouched c hc frontEnd hf p x hx

theorem Faithful.claim (h : Faithful worlds registry excluded s)
    (hc : s.claim id force = .ok s') : Faithful worlds registry excluded s' := by
  obtain ⟨row, hrow, hi, rfl⟩ := claim_ok hc
  have hid : row.id = id := (h.sound.codebase?_eq_some_iff.mp hrow).2
  refine { h with registered := ?_, busy := ?_ }
  · intro r hr
    rcases List.mem_append.mp hr with hr | hr
    · exact h.registered r hr
    · obtain rfl := List.mem_singleton.mp hr
      exact h.sound.registration_of_codebase? hrow
  · intro r hr
    rcases List.mem_append.mp hr with hr | hr
    · by_cases he : r.codebase.id = id
      · simp [he, StatusTable.isIndexing, StatusTable.get_set, IndexStatus.starting]
      · rw [StatusTable.isIndexing_set_of_ne he]
        exact h.busy r hr
    · obtain rfl := List.mem_singleton.mp hr
      simp [hid, StatusTable.isIndexing, StatusTable.get_set, IndexStatus.starting]

theorem Faithful.finish_store (h : Faithful worlds registry excluded s) (hw : w ∈ worlds)
    {r : OpenRun} (hr : r ∈ s.runs) :
    (s.finish w r).1.store.Sound ∧
      (s.finish w r).1.store.registrations = s.store.registrations ∧
      ∀ c ∈ s.store.registrations, ∀ frontEnd, registry.forLanguage c.language = some frontEnd →
        (s.finish w r).1.store.Vouched (contentsIn worlds) frontEnd c.id := by
  have he : (s.finish w r).1.store =
      (IndexRun.run registry s.excluded r w s.store (s.statuses.get r.codebase.id)).store := by
    rw [← h.registry_eq]
    rfl
  rw [he]
  cases hf : IndexRun.check registry w r.codebase.data with
  | error e =>
    rw [IndexRun.run_store_of_error hf]
    exact ⟨h.sound, rfl, h.vouched⟩
  | ok fe =>
    have hrun : IndexRun.Writes fe w.tree r.codebase.id s.store
        (IndexRun.run registry s.excluded r w s.store (s.statuses.get r.codebase.id)).store :=
      IndexRun.run_writes hf
    refine ⟨hrun.sound h.sound, hrun.registrations h.sound, ?_⟩
    intro c hc frontEnd hl
    by_cases hid : c.id = r.codebase.id
    · obtain rfl : c = Store.registrationOf r.codebase :=
        h.sound.registration_ext hc (h.registered r hr) hid
      obtain rfl : fe = frontEnd := Option.some.inj ((IndexRun.check_ok hf).1.symm.trans hl)
      exact hrun.vouched h.sound (fun content hc => ⟨w, hw, hc⟩) (h.vouched _ hc fe hl)
    · intro p x hx
      rw [hrun.storedAt?_of_ne h.sound hid] at hx
      exact h.vouched c hc frontEnd hl p x hx

theorem Faithful.finish (h : Faithful worlds registry excluded s) (hw : w ∈ worlds) {r : OpenRun}
    (hr : r ∈ s.runs) : Faithful worlds registry excluded (s.finish w r).1 := by
  obtain ⟨hsound, hreg, hvouched⟩ := h.finish_store hw hr
  have hmem : ∀ o ∈ (s.finish w r).1.runs, o ∈ s.runs ∧ o.codebase.id ≠ r.codebase.id := by
    intro o ho
    simpa [Service.finish] using ho
  exact
    { registry_eq := h.registry_eq
      excluded_eq := h.excluded_eq
      sound := hsound
      vouched := fun c hc => hvouched c (hreg ▸ hc)
      registered := fun o ho => hreg ▸ h.registered o (hmem o ho).1
      busy := fun o ho => by
        have := h.busy o (hmem o ho).1
        rwa [← StatusTable.isIndexing_set_of_ne (hmem o ho).2] at this }

theorem Reached.faithful (h : Reached worlds registry excluded s) :
    Faithful worlds registry excluded s := by
  induction h with
  | start => exact .start
  | register _ _ hr ih => exact ih.register hr
  | delete _ hd ih => exact ih.delete hd
  | claim _ hc ih => exact ih.claim hc
  | finish _ hw hr ih => exact ih.finish hw hr

/-! ## Whole runs -/

theorem Reached.index (h : Reached worlds registry excluded s) (hw : w ∈ worlds) :
    Reached worlds registry excluded (s.index w id force).1 := by
  unfold Service.index
  cases hc : s.claim id force with
  | error e => exact h
  | ok s' =>
    simp only
    split
    · rename_i r hr
      exact .finish (.claim h hc) hw (List.mem_of_find?_eq_some hr)
    · exact .claim h hc

theorem index_of_scan {row : Row Codebase} (hrow : s.store.codebase? row.id = some row)
    (hidle : s.statuses.isIndexing row.id = false) (hruns : s.runs = []) {frontEnd : FrontEnd}
    (hf : IndexRun.check s.registry w row.data = .ok frontEnd)
    (hb : (⟨row, force⟩ : OpenRun).base? = none) {found : List ScannedFile}
    (hscan : (Scanner.make frontEnd.extensions s.excluded true).scan w.tree [] row.data.rootPath =
      .ok found) :
    s.index w row.id force =
      let report := IndexRun.carryOut ⟨row, force⟩ w frontEnd s.store .starting
        (w.detector.head? row.data.rootPath) (.ofScan s.store row.id found)
      ({ s with
          store := report.store
          statuses := (s.statuses.set row.id .starting).set row.id report.status
          runs := [] }, report.outcome) := by
  have hrun : IndexRun.run s.registry s.excluded ⟨row, force⟩ w s.store .starting =
      IndexRun.carryOut ⟨row, force⟩ w frontEnd s.store .starting
        (w.detector.head? row.data.rootPath) (.ofScan s.store row.id found) :=
    IndexRun.run_of_scan hf hb hscan
  simp [Service.index, claim, openRun?, finish, hrow, hidle, hruns, StatusTable.get_set, hrun]

/-- A whole run that ends well is a run of the codebase from the store as it is. -/
theorem Faithful.index_ok (h : Faithful worlds registry excluded s) {summary : IndexSummary}
    (hok : (s.index w id force).2 = .ok summary) :
    ∃ row status, s.store.codebase? id = some row ∧
      (s.index w id force).1.store =
        (IndexRun.run registry excluded ⟨row, force⟩ w s.store status).store ∧
      (IndexRun.run registry excluded ⟨row, force⟩ w s.store status).outcome = .ok summary := by
  unfold Service.index at hok ⊢
  cases hc : s.claim id force with
  | error e => simp [hc] at hok
  | ok s' =>
    obtain ⟨row, hrow, hi, rfl⟩ := claim_ok hc
    have hid : row.id = id := (h.sound.codebase?_eq_some_iff.mp hrow).2
    -- No other run of the codebase is open, so the run found is the one claimed.
    have hnone : (s.runs.find? fun r => r.codebase.id == id) = none := by
      refine List.find?_eq_none.mpr fun r hr he => ?_
      have hb := h.busy r hr
      rw [beq_iff_eq.mp he, hi] at hb
      simp at hb
    have hopen : openRun? { s with
        statuses := s.statuses.set id .starting
        runs := s.runs ++ [⟨row, force⟩] } id = some ⟨row, force⟩ := by
      simp [openRun?, hnone, hid]
    simp only [hc, hopen] at hok ⊢
    rw [← h.registry_eq, ← h.excluded_eq]
    exact ⟨row, _, hrow, rfl, hok⟩

theorem Faithful.vouched_codebase (h : Faithful worlds registry excluded s) {row : Row Codebase}
    (hrow : s.store.codebase? id = some row) {frontEnd : FrontEnd}
    (hf : registry.forLanguage row.data.language = some frontEnd) :
    s.store.Vouched (contentsIn worlds) frontEnd row.id :=
  h.vouched _ (h.sound.registration_of_codebase? hrow) frontEnd hf

theorem Reached.canonical (h : Reached worlds registry excluded s)
    (hproper : ∀ w ∈ worlds, w.Proper) :
    ∀ c ∈ s.store.registrations,
      ∃ names, (∀ n ∈ names, IsName n) ∧ c.root = Path.absolute names := by
  induction h with
  | start => simp [Store.registrations]
  | register _ hw hr ih =>
    obtain ⟨names, hn, rfl | ⟨hnone, rfl⟩⟩ := register_ok hr
    · exact ih
    · intro c hc
      rcases (Store.mem_registrations_upsertCodebase hnone).mp hc with hc | rfl
      · exact ih c hc
      · exact ⟨_, Scanner.isName_map_shown (FileTree.isProper_of_resolve (hproper _ hw).cwd hn),
          rfl⟩
  | delete _ hd ih =>
    obtain ⟨_, store, hs, rfl⟩ := delete_ok hd
    exact fun c hc => ih c ((Store.mem_registrations_deleteCodebase? hs).mp hc).1
  | claim _ hc ih =>
    obtain ⟨_, _, _, rfl⟩ := claim_ok hc
    exact ih
  | finish h hw hr ih =>
    intro c hc
    rw [(h.faithful.finish_store hw hr).2.1] at hc
    exact ih c hc

end Faithful

end Service

end CodeAtlas
