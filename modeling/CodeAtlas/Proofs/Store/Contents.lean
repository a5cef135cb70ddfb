import CodeAtlas.Proofs.Store.Integrity

/-! # What a store holds

A codebase holds a file entry for each of its paths, with the symbols and imports that the
file yields. Writing or deleting a file changes what is held at its path and nothing at
another one.
-/

namespace CodeAtlas

/-- What is stored for a file, ids left out. -/
structure StoredFile where
  entry : FileEntry
  symbols : List Symbol
  imports : List Import
  deriving Repr, DecidableEq, Inhabited

def StoredFile.names (f : StoredFile) : List String := f.symbols.map Symbol.fqn

namespace Store

variable {s s' : Store}

def storedFile (s : Store) (r : Row FileEntry) : StoredFile :=
  ⟨r.data, s.symbols.ownedBy r.id, s.imports.ownedBy r.id⟩

def storedFiles (s : Store) (codebase : Int) : List StoredFile :=
  (s.files.rows.filter fun r => r.data.codebase == codebase).map s.storedFile

def storedAt? (s : Store) (codebase : Int) (path : String) : Option StoredFile :=
  (s.file? codebase path).map s.storedFile

/-- The names that the file at a path declares; none when there is no such file. -/
def namesAt (s : Store) (codebase : Int) (path : String) : List String :=
  ((s.storedAt? codebase path).map StoredFile.names).getD []

def HasPath (s : Store) (codebase : Int) (path : String) : Prop :=
  ∃ x, s.storedAt? codebase path = some x

theorem fileHashes_eq (c : Int) :
    s.fileHashes c = (s.storedFiles c).map fun f => (f.entry.path, f.entry.hash) := by
  simp [fileHashes, storedFiles, storedFile]

theorem namesIn_eq (id : Int) : s.namesIn id = (s.symbols.ownedBy id).map Symbol.fqn := by
  simp [namesIn, Table.ownedBy]

theorem Sound.storedAt?_eq_some_iff (h : s.Sound) {c : Int} {p : String} {x : StoredFile} :
    s.storedAt? c p = some x ↔ x ∈ s.storedFiles c ∧ x.entry.path = p := by
  simp only [storedAt?, storedFiles, Option.map_eq_some_iff, h.file?_eq_some_iff, List.mem_map,
    List.mem_filter, beq_iff_eq]
  constructor
  · rintro ⟨r, ⟨hr, hc, hp⟩, rfl⟩
    exact ⟨⟨r, ⟨hr, hc⟩, rfl⟩, hp⟩
  · rintro ⟨⟨r, ⟨hr, hc⟩, rfl⟩, hp⟩
    exact ⟨r, ⟨hr, hc, hp⟩, rfl⟩

theorem Sound.mem_storedFiles_iff (h : s.Sound) {c : Int} {x : StoredFile} :
    x ∈ s.storedFiles c ↔ s.storedAt? c x.entry.path = some x := by
  rw [h.storedAt?_eq_some_iff]
  simp

theorem Sound.mem_fileHashes_iff (h : s.Sound) {c : Int} {p hash : String} :
    (p, hash) ∈ s.fileHashes c ↔ ∃ x, s.storedAt? c p = some x ∧ x.entry.hash = hash := by
  simp only [fileHashes_eq, List.mem_map, h.storedAt?_eq_some_iff, Prod.mk.injEq]
  constructor
  · rintro ⟨x, hx, hp, hh⟩
    exact ⟨x, ⟨hx, hp⟩, hh⟩
  · rintro ⟨x, ⟨hx, hp⟩, hh⟩
    exact ⟨x, hx, hp, hh⟩

theorem Sound.storedFiles_nodup (h : s.Sound) (c : Int) :
    ((s.storedFiles c).map fun f => f.entry.path).Nodup := by
  have he : (s.storedFiles c).map (fun f => f.entry.path) =
      ((s.files.rows.filter fun r => r.data.codebase == c).map
        fun r => (r.data.codebase, r.data.path)).map Prod.snd := by
    simp [storedFiles, storedFile]
  rw [he]
  refine (h.keys.sublist (List.filter_sublist.map _)).map_on ?_
  intro x hx y hy hxy
  simp only [List.mem_map, List.mem_filter, beq_iff_eq] at hx hy
  obtain ⟨r, ⟨_, hc⟩, rfl⟩ := hx
  obtain ⟨r', ⟨_, hc'⟩, rfl⟩ := hy
  exact Prod.ext (hc.trans hc'.symm) hxy

theorem Sound.fileHashes_nodup (h : s.Sound) (c : Int) :
    ((s.fileHashes c).map fun e => e.1).Nodup := by
  rw [fileHashes_eq, List.map_map]
  exact h.storedFiles_nodup c

/-! ## Dropping and recording what a file yields -/

section Purge

variable {c f : Int} {outline : Outline}

@[simp] theorem symbols_purge (o : Int) :
    (s.purge c f).symbols.ownedBy o = if o = f then [] else s.symbols.ownedBy o := by
  simpa [purge] using s.symbols.ownedBy_erase_owners (fun o => o == f) o

@[simp] theorem imports_purge (o : Int) :
    (s.purge c f).imports.ownedBy o = if o = f then [] else s.imports.ownedBy o := by
  simpa [purge] using s.imports.ownedBy_erase_owners (fun o => o == f) o

@[simp] theorem symbols_record (o : Int) :
    (s.record c f outline).symbols.ownedBy o =
      s.symbols.ownedBy o ++ if f = o then outline.symbols else [] :=
  s.symbols.ownedBy_insertAll f outline.symbols o

@[simp] theorem imports_record (o : Int) :
    (s.record c f outline).imports.ownedBy o =
      s.imports.ownedBy o ++ if f = o then outline.imports else [] :=
  s.imports.ownedBy_insertAll f outline.imports o

end Purge

/-! ## Writing a file -/

section Replace

variable {entry : FileEntry} {outline : Outline} {id : Int}

theorem Sound.file?_upsertFile_of_ne (h : s.Sound) (hc : s.HasCodebase entry.codebase) {c : Int}
    {p : String} (hne : ¬ (c = entry.codebase ∧ p = entry.path)) :
    (s.upsertFile entry).1.file? c p = s.file? c p := by
  ext r
  rw [(h.upsertFile hc).file?_eq_some_iff, h.mem_upsertFile, h.file?_eq_some_iff]
  constructor
  · rintro ⟨rfl | ⟨hr, _⟩, rfl, rfl⟩
    · exact absurd ⟨rfl, rfl⟩ hne
    · exact ⟨hr, rfl, rfl⟩
  · rintro ⟨hr, rfl, rfl⟩
    exact ⟨.inr ⟨hr, fun hi => hne ((h.id_eq_upsertFile_iff hr).mp hi)⟩, rfl, rfl⟩

@[simp] theorem symbols_upsertFile : (s.upsertFile entry).1.symbols = s.symbols := by
  rw [upsertFile_eq]

@[simp] theorem imports_upsertFile : (s.upsertFile entry).1.imports = s.imports := by
  rw [upsertFile_eq]

theorem Sound.namesIn_upsertFile (h : s.Sound) :
    (s.upsertFile entry).1.namesIn (s.upsertFile entry).2 =
      s.namesAt entry.codebase entry.path := by
  rw [namesIn_eq, symbols_upsertFile]
  unfold namesAt storedAt?
  cases hf : s.file? entry.codebase entry.path with
  | some row =>
    have hi : (s.upsertFile entry).2 = row.id := by simp [Store.upsertFile, hf]
    simp [hi, storedFile, StoredFile.names]
  | none =>
    -- A new file has an id that no symbol refers to.
    have hi : (s.upsertFile entry).2 = s.files.lastId + 1 := by simp [Store.upsertFile, hf]
    rw [hi, Table.ownedBy_eq_nil]
    · simp
    · intro r hr he
      obtain ⟨f, hf, hfi⟩ := h.symbol_owner r hr
      have := h.files.le_last f hf
      omega

theorem Sound.storedAt?_replaceFile (h : s.Sound) (hr : s.replaceFile entry outline = (.ok id, s'))
    (c : Int) (p : String) :
    s'.storedAt? c p =
      if c = entry.codebase ∧ p = entry.path then some ⟨entry, outline.symbols, outline.imports⟩
      else s.storedAt? c p := by
  obtain ⟨⟨hc, _⟩, rfl, rfl⟩ := replaceFile_eq hr
  have hfile : ∀ c p, (((s.upsertFile entry).1.purge entry.codebase (s.upsertFile entry).2).record
      entry.codebase (s.upsertFile entry).2 outline).file? c p =
        (s.upsertFile entry).1.file? c p := fun _ _ => rfl
  have hview : ∀ r : Row FileEntry,
      (((s.upsertFile entry).1.purge entry.codebase (s.upsertFile entry).2).record
        entry.codebase (s.upsertFile entry).2 outline).storedFile r =
      if r.id = (s.upsertFile entry).2 then ⟨r.data, outline.symbols, outline.imports⟩
      else s.storedFile r := by
    intro r
    by_cases hi : r.id = (s.upsertFile entry).2
    · simp [storedFile, hi]
    · simp [storedFile, hi, Ne.symm hi]
  unfold storedAt?
  rw [hfile]
  by_cases hk : c = entry.codebase ∧ p = entry.path
  · rw [if_pos hk, hk.1, hk.2, file?_upsertFile]
    simp [hview]
  · rw [if_neg hk, h.file?_upsertFile_of_ne hc hk]
    refine Option.map_congr fun r hf => ?_
    obtain ⟨hm, hrc, hrp⟩ := h.file?_eq_some_iff.mp hf
    have hi : r.id ≠ (s.upsertFile entry).2 := fun hi => by
      obtain ⟨h₁, h₂⟩ := (h.id_eq_upsertFile_iff hm).mp hi
      exact hk ⟨hrc ▸ h₁, hrp ▸ h₂⟩
    rw [hview, if_neg hi]

theorem Sound.namesAt_replaceFile (h : s.Sound) (hr : s.replaceFile entry outline = (.ok id, s'))
    (c : Int) (p : String) :
    s'.namesAt c p =
      if c = entry.codebase ∧ p = entry.path then outline.symbols.map Symbol.fqn
      else s.namesAt c p := by
  simp only [namesAt, h.storedAt?_replaceFile hr]
  split <;> rfl

end Replace

/-! ## Deleting a file -/

section Delete

variable {c : Int} {p : String}

theorem deleteFile?_eq_none_iff : s.deleteFile? c p = none ↔ s.storedAt? c p = none := by
  rw [deleteFile?_eq_match, storedAt?]
  cases s.file? c p <;> simp

theorem Sound.storedAt?_deleteFile? (h : s.Sound) (hd : s.deleteFile? c p = some s') (c' : Int)
    (p' : String) :
    s'.storedAt? c' p' = if c' = c ∧ p' = p then none else s.storedAt? c' p' := by
  have hs' := h.deleteFile? hd
  obtain ⟨row, hrow, rfl⟩ := deleteFile?_eq hd
  obtain ⟨hm, hrc, hrp⟩ := h.file?_eq_some_iff.mp hrow
  by_cases hk : c' = c ∧ p' = p
  · rw [if_pos hk, hk.1, hk.2, storedAt?, Option.map_eq_none_iff, file?_eq_none_iff]
    intro r hr hc hp
    obtain ⟨hr, hi⟩ := Table.mem_erase.mp hr
    have hf := h.file?_eq_some_iff.mpr ⟨hr, hc, hp⟩
    rw [Option.some.inj (hf.symm.trans hrow)] at hi
    simp at hi
  · rw [if_neg hk]
    ext x
    simp only [storedAt?, Option.map_eq_some_iff, hs'.file?_eq_some_iff, h.file?_eq_some_iff,
      Table.mem_erase, beq_eq_false_iff_ne]
    have hview : ∀ r : Row FileEntry, r.id ≠ row.id →
        ({ s.purge c row.id with files := s.files.erase fun r => r.id == row.id } :
          Store).storedFile r = s.storedFile r := by
      intro r hi
      simp [storedFile, hi]
    constructor
    · rintro ⟨r, ⟨⟨hr, hi⟩, hc, hp⟩, rfl⟩
      exact ⟨r, ⟨hr, hc, hp⟩, (hview r hi).symm⟩
    · rintro ⟨r, ⟨hr, rfl, rfl⟩, rfl⟩
      have hi : r.id ≠ row.id := fun hi => by
        obtain rfl := h.files.ext hr hm hi
        exact hk ⟨hrc, hrp⟩
      exact ⟨r, ⟨⟨hr, hi⟩, rfl, rfl⟩, hview r hi⟩

theorem namesIn_of_file? {row : Row FileEntry} (hrow : s.file? c p = some row) :
    s.namesIn row.id = s.namesAt c p := by
  simp [namesIn_eq, namesAt, storedAt?, hrow, storedFile, StoredFile.names]

theorem Sound.namesAt_deleteFile? (h : s.Sound) (hd : s.deleteFile? c p = some s') (c' : Int)
    (p' : String) : s'.namesAt c' p' = if c' = c ∧ p' = p then [] else s.namesAt c' p' := by
  simp only [namesAt, h.storedAt?_deleteFile? hd]
  split <;> rfl

theorem namesAt_eq_nil (hd : s.deleteFile? c p = none) : s.namesAt c p = [] := by
  simp [namesAt, deleteFile?_eq_none_iff.mp hd]

end Delete

/-! ## Codebases -/

@[simp] theorem storedAt?_markIndexed (id : Int) (commit : Option String) (time : String) (c : Int)
    (p : String) : (s.markIndexed id commit time).storedAt? c p = s.storedAt? c p := by
  rw [markIndexed_eq]
  rfl

theorem storedAt?_upsertCodebase (root language name : String) (c : Int) (p : String) :
    (s.upsertCodebase root language name).1.storedAt? c p = s.storedAt? c p := by
  rw [upsertCodebase_eq]
  rfl

theorem Sound.hasCodebase_of_storedAt? (h : s.Sound) {c : Int} {p : String} {x : StoredFile}
    (hx : s.storedAt? c p = some x) : s.HasCodebase c := by
  obtain ⟨r, hr, _⟩ := Option.map_eq_some_iff.mp hx
  obtain ⟨hm, rfl, _⟩ := h.file?_eq_some_iff.mp hr
  exact h.file_owner r hm

theorem Sound.storedAt?_next (h : s.Sound) (p : String) :
    s.storedAt? (s.codebases.lastId + 1) p = none := by
  refine Option.eq_none_iff_forall_ne_some.mpr fun x hx => ?_
  obtain ⟨row, hm, hi⟩ := h.hasCodebase_of_storedAt? hx
  have := h.codebases.le_last row hm
  omega

theorem Sound.storedAt?_deleteCodebase? (h : s.Sound) {id : Int}
    (hd : s.deleteCodebase? id = some s') (c : Int) (p : String) :
    s'.storedAt? c p = if c = id then none else s.storedAt? c p := by
  have hs' := h.deleteCodebase? hd
  obtain ⟨_, rfl⟩ := deleteCodebase?_eq hd
  by_cases hc : c = id
  · rw [if_pos hc, storedAt?, Option.map_eq_none_iff, file?_eq_none_iff]
    intro r hr hrc
    have hp := (Table.mem_erase.mp hr).2
    simp [hrc, hc] at hp
  · rw [if_neg hc]
    ext x
    simp only [storedAt?, Option.map_eq_some_iff, hs'.file?_eq_some_iff, h.file?_eq_some_iff,
      Table.mem_erase, beq_eq_false_iff_ne]
    -- The ids of other files are not among those that are erased.
    have hview : ∀ r ∈ s.files.rows, r.data.codebase ≠ id →
        (⟨r.data, (s.symbols.erase fun r => (s.fileIds id).contains r.data.owner).ownedBy r.id,
          (s.imports.erase fun r => (s.fileIds id).contains r.data.owner).ownedBy r.id⟩ :
            StoredFile) = s.storedFile r := by
      intro r hr hrc
      have hi : r.id ∉ s.fileIds id := fun hi => by
        obtain ⟨f, hf, hfc, hfi⟩ := mem_fileIds.mp hi
        exact hrc (h.files.ext hf hr hfi ▸ hfc)
      rw [Table.ownedBy_erase_owners _ (fun o => (s.fileIds id).contains o),
        Table.ownedBy_erase_owners _ (fun o => (s.fileIds id).contains o)]
      simp [storedFile, hi]
    constructor
    · rintro ⟨r, ⟨⟨hr, hne⟩, hrc, hrp⟩, rfl⟩
      exact ⟨r, ⟨hr, hrc, hrp⟩, (hview r hr hne).symm⟩
    · rintro ⟨r, ⟨hr, hrc, hrp⟩, rfl⟩
      have hne : r.data.codebase ≠ id := hrc ▸ hc
      exact ⟨r, ⟨⟨hr, hne⟩, hrc, hrp⟩, hview r hr hne⟩

end Store

end CodeAtlas
