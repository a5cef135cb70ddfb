import CodeAtlas.Proofs.Store.Transactions

/-! # Integrity of the store

Ids, roots and paths are unique, and no row refers to one that is not there. Every
operation of the store keeps this, whatever it is given.
-/

namespace CodeAtlas

namespace Store

variable {s s' : Store}

def HasCodebase (s : Store) (id : Int) : Prop := ∃ c ∈ s.codebases.rows, c.id = id

def HasFile (s : Store) (id : Int) : Prop := ∃ f ∈ s.files.rows, f.id = id

/-- The integrity of a store. -/
structure Sound (s : Store) : Prop where
  codebases : s.codebases.Numbered
  files : s.files.Numbered
  symbols : s.symbols.Numbered
  calls : s.calls.Numbered
  annotations : s.annotations.Numbered
  imports : s.imports.Numbered
  roots : (s.codebases.rows.map fun r => r.data.rootPath).Nodup
  keys : (s.files.rows.map fun r => (r.data.codebase, r.data.path)).Nodup
  file_owner : ∀ r ∈ s.files.rows, s.HasCodebase r.data.codebase
  symbol_owner : ∀ r ∈ s.symbols.rows, s.HasFile r.data.owner
  call_owner : ∀ r ∈ s.calls.rows, s.HasCodebase r.data.owner
  annotation_owner : ∀ r ∈ s.annotations.rows, s.HasCodebase r.data.owner
  import_owner : ∀ r ∈ s.imports.rows, s.HasFile r.data.owner

theorem sound_empty : ({} : Store).Sound := by
  constructor <;> first | exact Table.numbered_empty | simp

theorem Sound.codebase?_eq_some_iff (h : s.Sound) {id : Int} {r : Row Codebase} :
    s.codebase? id = some r ↔ r ∈ s.codebases.rows ∧ r.id = id :=
  h.codebases.get?_eq_some_iff

theorem hasCodebase_of_codebase? {id : Int} {r : Row Codebase} (h : s.codebase? id = some r) :
    s.HasCodebase id :=
  ⟨r, List.mem_of_find?_eq_some h, by simpa using List.find?_some h⟩

theorem codebaseAt?_eq_none_iff {root : String} :
    s.codebaseAt? root = none ↔ ∀ r ∈ s.codebases.rows, r.data.rootPath ≠ root := by
  simp [codebaseAt?, Table.find?]

theorem Sound.file?_eq_some_iff (h : s.Sound) {c : Int} {p : String} {r : Row FileEntry} :
    s.file? c p = some r ↔ r ∈ s.files.rows ∧ r.data.codebase = c ∧ r.data.path = p := by
  have he : s.file? c p =
      s.files.rows.find? fun r => (r.data.codebase, r.data.path) == (c, p) := rfl
  rw [he, find?_key_eq_some_iff h.keys, Prod.mk.injEq]

theorem file?_eq_none_iff {c : Int} {p : String} :
    s.file? c p = none ↔ ∀ r ∈ s.files.rows, r.data.codebase = c → r.data.path ≠ p := by
  simp [file?, Table.find?]

/-! ## Codebases -/

theorem Sound.withCodebases (h : s.Sound) {t : Table Codebase} (ht : t.Numbered)
    (hr : (t.rows.map fun r => r.data.rootPath).Nodup)
    (hk : ∀ id, s.HasCodebase id → ∃ c ∈ t.rows, c.id = id) : { s with codebases := t }.Sound :=
  { h with
    codebases := ht
    roots := hr
    file_owner := fun r hr => hk _ (h.file_owner r hr)
    call_owner := fun r hr => hk _ (h.call_owner r hr)
    annotation_owner := fun r hr => hk _ (h.annotation_owner r hr) }

theorem Sound.upsertCodebase (h : s.Sound) (root language name : String) :
    (s.upsertCodebase root language name).1.Sound := by
  unfold Store.upsertCodebase
  split
  · exact h.withCodebases h.codebases.skipId h.roots fun _ hid => hid
  · rename_i hn
    refine h.withCodebases (h.codebases.insertAll _) ?_ ?_
    · exact Table.nodup_key_insert Codebase.rootPath h.roots (codebaseAt?_eq_none_iff.mp hn)
    · rintro id ⟨c, hc, hi⟩
      exact ⟨c, List.mem_append_left _ hc, hi⟩

theorem upsertCodebase_eq (root language name : String) :
    (s.upsertCodebase root language name).1 =
      { s with codebases := (s.upsertCodebase root language name).1.codebases } := by
  unfold upsertCodebase; split <;> rfl

/-- What a codebase keeps from its registration on. -/
structure Registration where
  id : Int
  root : String
  language : String
  deriving Repr, DecidableEq, Inhabited

def registrationOf (row : Row Codebase) : Registration :=
  ⟨row.id, row.data.rootPath, row.data.language⟩

def registrations (s : Store) : List Registration := s.codebases.rows.map registrationOf

theorem Sound.registration_of_codebase? (h : s.Sound) {id : Int} {row : Row Codebase}
    (hr : s.codebase? id = some row) : registrationOf row ∈ s.registrations :=
  List.mem_map_of_mem (h.codebase?_eq_some_iff.mp hr).1

theorem Sound.registration_ext (h : s.Sound) {a b : Registration} (ha : a ∈ s.registrations)
    (hb : b ∈ s.registrations) (hi : a.id = b.id) : a = b := by
  obtain ⟨x, hx, rfl⟩ := List.mem_map.mp ha
  obtain ⟨y, hy, rfl⟩ := List.mem_map.mp hb
  rw [h.codebases.ext hx hy hi]

theorem mem_registrations_upsertCodebase {root language name : String}
    (hn : s.codebaseAt? root = none) {r : Registration} :
    r ∈ (s.upsertCodebase root language name).1.registrations ↔
      r ∈ s.registrations ∨ r = ⟨s.codebases.lastId + 1, root, Text.asciiLower language⟩ := by
  simp [upsertCodebase, hn, registrations, Table.insert, Table.insertAll, Table.number,
    registrationOf]

theorem deleteCodebase?_eq {id : Int} (hd : s.deleteCodebase? id = some s') :
    s.HasCodebase id ∧ s' =
      { codebases := s.codebases.erase fun r => r.id == id
        files := s.files.erase fun r => r.data.codebase == id
        symbols := s.symbols.erase fun r => (s.fileIds id).contains r.data.owner
        calls := s.calls.erase fun r => r.data.owner == id
        annotations := s.annotations.erase fun r => r.data.owner == id
        imports := s.imports.erase fun r => (s.fileIds id).contains r.data.owner } := by
  unfold deleteCodebase? at hd
  split at hd
  · simp at hd
  · rename_i row hrow
    exact ⟨hasCodebase_of_codebase? hrow, (Option.some.inj hd).symm⟩

theorem mem_registrations_deleteCodebase? {id : Int} (hd : s.deleteCodebase? id = some s')
    {r : Registration} : r ∈ s'.registrations ↔ r ∈ s.registrations ∧ r.id ≠ id := by
  obtain ⟨_, rfl⟩ := deleteCodebase?_eq hd
  simp only [registrations, List.mem_map, Table.mem_erase, beq_eq_false_iff_ne]
  constructor
  · rintro ⟨row, ⟨hm, hi⟩, rfl⟩
    exact ⟨⟨row, hm, rfl⟩, hi⟩
  · rintro ⟨⟨row, hm, rfl⟩, hi⟩
    exact ⟨row, ⟨hm, hi⟩, rfl⟩

theorem Sound.registrations_markIndexed (h : s.Sound) (id : Int) (commit : Option String)
    (time : String) : (s.markIndexed id commit time).registrations = s.registrations := by
  unfold Store.markIndexed
  split
  · rename_i row hrow
    obtain ⟨hm, rfl⟩ := h.codebase?_eq_some_iff.mp hrow
    simp only [registrations, Table.set, List.map_map]
    refine List.map_congr_left fun x hx => ?_
    by_cases hi : x.id = row.id
    · obtain rfl := h.codebases.ext hx hm hi
      simp [registrationOf]
    · simp [hi]
  · rfl

theorem markIndexed_eq (id : Int) (commit : Option String) (time : String) :
    s.markIndexed id commit time =
      { s with codebases := (s.markIndexed id commit time).codebases } := by
  unfold markIndexed; split <;> rfl

theorem Sound.markIndexed (h : s.Sound) (id : Int) (commit : Option String) (time : String) :
    (s.markIndexed id commit time).Sound := by
  unfold Store.markIndexed
  split
  · rename_i row hrow
    obtain ⟨hm, rfl⟩ := h.codebase?_eq_some_iff.mp hrow
    refine h.withCodebases (h.codebases.set _ _) ?_ ?_
    · rw [Table.map_key_set Codebase.rootPath h.codebases hm (by rfl)]
      exact h.roots
    · rintro id ⟨c, hc, rfl⟩
      refine List.mem_map.mp ?_
      rw [Table.map_id_set]
      exact List.mem_map_of_mem hc
  · exact h

/-- A codebase that is marked has the commit and the time it is marked with. -/
theorem Sound.codebase?_markIndexed (h : s.Sound) {id : Int} {row : Row Codebase}
    (hrow : s.codebase? id = some row) (commit : Option String) (time : String) :
    (s.markIndexed id commit time).codebase? id =
      some ⟨id, { row.data with commit := commit, indexedAt := some time }⟩ := by
  obtain ⟨hm, hid⟩ := h.codebase?_eq_some_iff.mp hrow
  apply (h.markIndexed id commit time).codebase?_eq_some_iff.mpr
  rw [Store.markIndexed, hrow]
  exact ⟨(Table.mem_set ⟨row, hm, hid⟩).mpr (.inl rfl), rfl⟩

theorem mem_fileIds {id i : Int} :
    i ∈ s.fileIds id ↔ ∃ f ∈ s.files.rows, f.data.codebase = id ∧ f.id = i := by
  simp [fileIds, and_assoc]

theorem Sound.deleteCodebase? (h : s.Sound) {id : Int} (hd : s.deleteCodebase? id = some s') :
    s'.Sound := by
  obtain ⟨_, rfl⟩ := deleteCodebase?_eq hd
  -- What belongs to another codebase still finds its owner.
  have keepCodebase : ∀ i, s.HasCodebase i → i ≠ id →
      ∃ c ∈ (s.codebases.erase fun r => r.id == id).rows, c.id = i := by
    rintro i ⟨c, hc, rfl⟩ hne
    exact ⟨c, Table.mem_erase.mpr ⟨hc, by simpa using hne⟩, rfl⟩
  have keepFile : ∀ i, s.HasFile i → (s.fileIds id).contains i = false →
      ∃ f ∈ (s.files.erase fun r => r.data.codebase == id).rows, f.id = i := by
    rintro i ⟨f, hf, rfl⟩ hne
    refine ⟨f, Table.mem_erase.mpr ⟨hf, ?_⟩, rfl⟩
    have hni : f.id ∉ s.fileIds id := by simpa using hne
    simpa using fun hc => hni (mem_fileIds.mpr ⟨f, hf, hc, rfl⟩)
  exact
    { codebases := h.codebases.erase _
      files := h.files.erase _
      symbols := h.symbols.erase _
      calls := h.calls.erase _
      annotations := h.annotations.erase _
      imports := h.imports.erase _
      roots := h.roots.sublist (List.filter_sublist.map _)
      keys := h.keys.sublist (List.filter_sublist.map _)
      file_owner := fun r hr => by
        obtain ⟨hm, hp⟩ := Table.mem_erase.mp hr
        exact keepCodebase _ (h.file_owner r hm) (by simpa using hp)
      symbol_owner := fun r hr => by
        obtain ⟨hm, hp⟩ := Table.mem_erase.mp hr
        exact keepFile _ (h.symbol_owner r hm) hp
      call_owner := fun r hr => by
        obtain ⟨hm, hp⟩ := Table.mem_erase.mp hr
        exact keepCodebase _ (h.call_owner r hm) (by simpa using hp)
      annotation_owner := fun r hr => by
        obtain ⟨hm, hp⟩ := Table.mem_erase.mp hr
        exact keepCodebase _ (h.annotation_owner r hm) (by simpa using hp)
      import_owner := fun r hr => by
        obtain ⟨hm, hp⟩ := Table.mem_erase.mp hr
        exact keepFile _ (h.import_owner r hm) hp }

/-! ## Files -/

theorem Sound.purge (h : s.Sound) (c f : Int) : (s.purge c f).Sound :=
  { h with
    symbols := h.symbols.erase _
    calls := h.calls.erase _
    annotations := h.annotations.erase _
    imports := h.imports.erase _
    symbol_owner := fun r hr => h.symbol_owner r (Table.mem_erase.mp hr).1
    call_owner := fun r hr => h.call_owner r (Table.mem_erase.mp hr).1
    annotation_owner := fun r hr => h.annotation_owner r (Table.mem_erase.mp hr).1
    import_owner := fun r hr => h.import_owner r (Table.mem_erase.mp hr).1 }

theorem Sound.record (h : s.Sound) {c f : Int} (hc : s.HasCodebase c) (hf : s.HasFile f)
    (outline : Outline) : (s.record c f outline).Sound :=
  { h with
    symbols := h.symbols.insertAll _
    calls := h.calls.insertAll _
    annotations := h.annotations.insertAll _
    imports := h.imports.insertAll _
    symbol_owner := fun r hr => by
      rcases Table.owner_of_mem_insertAll hr with hm | rfl
      · exact h.symbol_owner r hm
      · exact hf
    call_owner := fun r hr => by
      rcases Table.owner_of_mem_insertAll hr with hm | rfl
      · exact h.call_owner r hm
      · exact hc
    annotation_owner := fun r hr => by
      rcases Table.owner_of_mem_insertAll hr with hm | rfl
      · exact h.annotation_owner r hm
      · exact hc
    import_owner := fun r hr => by
      rcases Table.owner_of_mem_insertAll hr with hm | rfl
      · exact h.import_owner r hm
      · exact hf }

theorem upsertFile_eq (entry : FileEntry) :
    (s.upsertFile entry).1 = { s with files := (s.upsertFile entry).1.files } := by
  unfold upsertFile; split <;> rfl

theorem Sound.mem_upsertFile (h : s.Sound) {entry : FileEntry} {r : Row FileEntry} :
    r ∈ (s.upsertFile entry).1.files.rows ↔
      r = ⟨(s.upsertFile entry).2, entry⟩ ∨
        (r ∈ s.files.rows ∧ r.id ≠ (s.upsertFile entry).2) := by
  unfold Store.upsertFile
  split
  · rename_i row hrow
    obtain ⟨hm, _⟩ := h.file?_eq_some_iff.mp hrow
    exact Table.mem_set ⟨row, hm, rfl⟩
  · have hle : ∀ r ∈ s.files.rows, r.id ≠ s.files.lastId + 1 := fun r hr => by
      have := h.files.le_last r hr
      omega
    rw [Table.mem_insert]
    constructor
    · rintro (hr | rfl)
      · exact .inr ⟨hr, hle r hr⟩
      · exact .inl rfl
    · rintro (rfl | ⟨hr, _⟩)
      · exact .inr rfl
      · exact .inl hr

theorem Sound.id_eq_upsertFile_iff (h : s.Sound) {entry : FileEntry} {r : Row FileEntry}
    (hr : r ∈ s.files.rows) :
    r.id = (s.upsertFile entry).2 ↔
      r.data.codebase = entry.codebase ∧ r.data.path = entry.path := by
  unfold Store.upsertFile
  split
  · rename_i row hrow
    obtain ⟨hm, hc, hp⟩ := h.file?_eq_some_iff.mp hrow
    constructor
    · intro hi
      rw [h.files.ext hr hm hi]
      exact ⟨hc, hp⟩
    · rintro ⟨hc', hp'⟩
      have hf := h.file?_eq_some_iff.mpr ⟨hr, hc', hp'⟩
      rw [Option.some.inj (hf.symm.trans hrow)]
  · rename_i hn
    have := h.files.le_last r hr
    constructor
    · intro hi
      simp only at hi
      omega
    · rintro ⟨hc, hp⟩
      exact absurd hp (file?_eq_none_iff.mp hn r hr hc)

theorem Sound.upsertFile (h : s.Sound) {entry : FileEntry} (hc : s.HasCodebase entry.codebase) :
    (s.upsertFile entry).1.Sound := by
  have owners : ∀ r ∈ (s.upsertFile entry).1.files.rows, s.HasCodebase r.data.codebase := by
    intro r hr
    rcases h.mem_upsertFile.mp hr with rfl | ⟨hm, _⟩
    · exact hc
    · exact h.file_owner r hm
  have kept : ∀ i, s.HasFile i → ∃ f ∈ (s.upsertFile entry).1.files.rows, f.id = i := by
    rintro i ⟨f, hf, rfl⟩
    by_cases hi : f.id = (s.upsertFile entry).2
    · exact ⟨⟨_, entry⟩, h.mem_upsertFile.mpr (.inl rfl), hi.symm⟩
    · exact ⟨f, h.mem_upsertFile.mpr (.inr ⟨hf, hi⟩), rfl⟩
  have unique : (s.upsertFile entry).1.files.Numbered ∧
      ((s.upsertFile entry).1.files.rows.map
        fun r => (r.data.codebase, r.data.path)).Nodup := by
    unfold Store.upsertFile
    split
    · rename_i row hrow
      obtain ⟨hm, hc, hp⟩ := h.file?_eq_some_iff.mp hrow
      refine ⟨(h.files.set _ _).skipId, ?_⟩
      simp only [Table.skipId]
      rw [Table.map_key_set (fun e : FileEntry => (e.codebase, e.path)) h.files hm (by rw [hc, hp])]
      exact h.keys
    · rename_i hn
      refine ⟨h.files.insertAll _,
        Table.nodup_key_insert (fun e : FileEntry => (e.codebase, e.path)) h.keys ?_⟩
      intro r hr he
      obtain ⟨hc, hp⟩ := Prod.mk.inj he
      exact file?_eq_none_iff.mp hn r hr hc hp
  rw [upsertFile_eq]
  exact
    { h with
      files := unique.1
      keys := unique.2
      file_owner := owners
      symbol_owner := fun r hr => kept _ (h.symbol_owner r hr)
      import_owner := fun r hr => kept _ (h.import_owner r hr) }

theorem hasFile_upsertFile (h : s.Sound) (entry : FileEntry) :
    (s.upsertFile entry).1.HasFile (s.upsertFile entry).2 :=
  ⟨⟨_, entry⟩, h.mem_upsertFile.mpr (.inl rfl), rfl⟩

theorem codebases_upsertFile (entry : FileEntry) :
    (s.upsertFile entry).1.codebases = s.codebases := by
  rw [upsertFile_eq]

/-- A replacement that is not refused finds its codebase and can store its outline, and has
the effect of its whole body. -/
theorem replaceFile_eq {entry : FileEntry} {outline : Outline} {id : Int}
    (hr : s.replaceFile entry outline = (.ok id, s')) :
    (s.HasCodebase entry.codebase ∧ outline.Storable) ∧ id = (s.upsertFile entry).2 ∧
      s' = ((s.upsertFile entry).1.purge entry.codebase id).record entry.codebase id outline := by
  cases hrow : s.codebase? entry.codebase with
  | none =>
    rw [replaceFile_of_no_codebase hrow] at hr
    simp at hr
  | some row =>
    by_cases hstorable : outline.Storable
    · rw [replaceFile_of_storable hrow hstorable] at hr
      obtain ⟨hid, rfl⟩ := Prod.mk.inj hr
      obtain rfl := Except.ok.inj hid
      exact ⟨⟨hasCodebase_of_codebase? hrow, hstorable⟩, rfl, rfl⟩
    · rw [replaceFile_of_not_storable hrow hstorable] at hr
      simp at hr

/-- A replacement that is refused has no effect, and its codebase or a value is missing. -/
theorem replaceFile_of_error {entry : FileEntry} {outline : Outline} {e : Error}
    (hr : s.replaceFile entry outline = (.error e, s')) :
    ¬ (s.HasCodebase entry.codebase ∧ outline.Storable) ∧ s' = s := by
  cases hrow : s.codebase? entry.codebase with
  | none =>
    rw [replaceFile_of_no_codebase hrow] at hr
    refine ⟨fun h => ?_, (Prod.mk.inj hr).2.symm⟩
    obtain ⟨r, hm, hi⟩ := h.1
    simpa [hi] using List.find?_eq_none.mp hrow r hm
  | some row =>
    by_cases hstorable : outline.Storable
    · rw [replaceFile_of_storable hrow hstorable] at hr
      simp at hr
    · rw [replaceFile_of_not_storable hrow hstorable] at hr
      exact ⟨fun h => hstorable h.2, (Prod.mk.inj hr).2.symm⟩

theorem codebases_replaceFile {entry : FileEntry} {outline : Outline} {id : Int}
    (hr : s.replaceFile entry outline = (.ok id, s')) : s'.codebases = s.codebases := by
  obtain ⟨_, rfl, rfl⟩ := replaceFile_eq hr
  exact codebases_upsertFile entry

theorem registrations_replaceFile {entry : FileEntry} {outline : Outline} {id : Int}
    (hr : s.replaceFile entry outline = (.ok id, s')) : s'.registrations = s.registrations := by
  rw [registrations, codebases_replaceFile hr, registrations]

theorem Sound.replaceFile (h : s.Sound) {entry : FileEntry} {outline : Outline} {id : Int}
    (hr : s.replaceFile entry outline = (.ok id, s')) : s'.Sound := by
  obtain ⟨⟨hc, _⟩, rfl, rfl⟩ := replaceFile_eq hr
  refine ((h.upsertFile hc).purge _ _).record ?_ (hasFile_upsertFile h entry) outline
  rw [upsertFile_eq]
  exact hc

theorem deleteFile?_eq_match (c : Int) (p : String) :
    s.deleteFile? c p =
      match s.file? c p with
      | none => none
      | some row =>
        some { s.purge c row.id with files := s.files.erase fun r => r.id == row.id } := by
  rw [deleteFile?, submit_deleteFile]
  cases s.file? c p <;> rfl

theorem deleteFile?_eq {c : Int} {p : String} (hd : s.deleteFile? c p = some s') :
    ∃ row, s.file? c p = some row ∧
      s' = { s.purge c row.id with files := s.files.erase fun r => r.id == row.id } := by
  rw [deleteFile?_eq_match] at hd
  split at hd
  · simp at hd
  · rename_i row hrow
    exact ⟨row, hrow, (Option.some.inj hd).symm⟩

theorem codebases_deleteFile? {c : Int} {p : String} (hd : s.deleteFile? c p = some s') :
    s'.codebases = s.codebases := by
  obtain ⟨row, _, rfl⟩ := deleteFile?_eq hd
  rfl

theorem registrations_deleteFile? {c : Int} {p : String} (hd : s.deleteFile? c p = some s') :
    s'.registrations = s.registrations := by
  rw [registrations, codebases_deleteFile? hd, registrations]

theorem Sound.deleteFile? (h : s.Sound) {c : Int} {p : String}
    (hd : s.deleteFile? c p = some s') : s'.Sound := by
  obtain ⟨row, hrow, rfl⟩ := deleteFile?_eq hd
  have kept : ∀ i, s.HasFile i → i ≠ row.id →
      ∃ f ∈ (s.files.erase fun r => r.id == row.id).rows, f.id = i := by
    rintro i ⟨f, hf, rfl⟩ hne
    exact ⟨f, Table.mem_erase.mpr ⟨hf, by simpa using hne⟩, rfl⟩
  exact
    { h.purge c row.id with
      files := h.files.erase _
      keys := h.keys.sublist (List.filter_sublist.map _)
      file_owner := fun r hr => h.file_owner r (Table.mem_erase.mp hr).1
      symbol_owner := fun r hr => by
        obtain ⟨hm, hp⟩ := Table.mem_erase.mp hr
        exact kept _ (h.symbol_owner r hm) (by simpa using hp)
      import_owner := fun r hr => by
        obtain ⟨hm, hp⟩ := Table.mem_erase.mp hr
        exact kept _ (h.import_owner r hm) (by simpa using hp) }

end Store

end CodeAtlas
