import CodeAtlas.Proofs.Index.History

/-! # What stored files were indexed from

A store keeps of a content its hash and what the front end reads from it. Every file that a
reached service stores was indexed from a content that occurred; as long as hashes tell the
contents that occur apart, the stored hash tells which.
-/

namespace CodeAtlas

/-- All that is stored for a file is what some content yields. -/
def Store.IndexedFrom (s : Store) (frontEnd : FrontEnd) (file : Row FileEntry)
    (content : List UInt8) : Prop :=
  ∃ f : SourceFile, f.ReadBy frontEnd ∧ f.content = content ∧
    s.storedFile file = f.stored frontEnd file.data.codebase

namespace Store.IndexedFrom

variable {s : Store} {frontEnd : FrontEnd} {file : Row FileEntry} {content : List UInt8}

theorem hash (h : s.IndexedFrom frontEnd file content) : file.data.hash = contentHash content := by
  obtain ⟨f, _, rfl, hstored⟩ := h
  exact congrArg (fun x : StoredFile => x.entry.hash) hstored

/-- The symbols of a file are read from the content that it was indexed from. -/
theorem exists_outline (h : s.IndexedFrom frontEnd file content) :
    ∃ outline, frontEnd.read file.data.path content (packageOfPath file.data.path) = .ok outline ∧
      s.symbols.ownedBy file.id = outline.symbols := by
  obtain ⟨f, hread, rfl, hstored⟩ := h
  have hpath : file.data.path = f.path := congrArg (fun x : StoredFile => x.entry.path) hstored
  exact ⟨f.outline, hpath ▸ hread, congrArg StoredFile.symbols hstored⟩

end Store.IndexedFrom

namespace Service

variable {worlds : Set Surroundings} {registry : Registry} {excluded : List String} {s : Service}

theorem Reached.exists_forLanguage (h : Reached worlds registry excluded s) :
    ∀ c ∈ s.store.registrations, ∀ p x, s.store.storedAt? c.id p = some x →
      ∃ frontEnd, registry.forLanguage c.language = some frontEnd := by
  induction h with
  | start => simp [Store.registrations]
  | register h _ hr ih =>
    obtain ⟨names, _, rfl | ⟨hnone, rfl⟩⟩ := register_ok hr
    · exact ih
    · intro c hc p x hx
      rw [Store.storedAt?_upsertCodebase] at hx
      rcases (Store.mem_registrations_upsertCodebase hnone).mp hc with hc | rfl
      · exact ih c hc p x hx
      · rw [h.faithful.sound.storedAt?_next] at hx
        cases hx
  | delete h hd ih =>
    obtain ⟨_, store, hs, rfl⟩ := delete_ok hd
    intro c hc p x hx
    obtain ⟨hc, hne⟩ := (Store.mem_registrations_deleteCodebase? hs).mp hc
    rw [h.faithful.sound.storedAt?_deleteCodebase? hs, if_neg hne] at hx
    exact ih c hc p x hx
  | claim _ hc ih =>
    obtain ⟨_, _, _, rfl⟩ := claim_ok hc
    exact ih
  | @finish s w r h hw hr ih =>
    intro c hc p x hx
    rw [(h.faithful.finish_store hw hr).2.1] at hc
    have he : (s.finish w r).1.store =
        (IndexRun.run registry s.excluded r w s.store (s.statuses.get r.codebase.id)).store := by
      rw [← h.faithful.registry_eq]
      rfl
    rw [he] at hx
    cases hf : IndexRun.check registry w r.codebase.data with
    | error e =>
      rw [IndexRun.run_store_of_error hf] at hx
      exact ih c hc p x hx
    | ok frontEnd =>
      by_cases hid : c.id = r.codebase.id
      · obtain rfl : c = Store.registrationOf r.codebase :=
          h.faithful.sound.registration_ext hc (h.faithful.registered r hr) hid
        exact ⟨frontEnd, (IndexRun.check_ok hf).1⟩
      · rw [(IndexRun.run_writes hf).storedAt?_of_ne h.faithful.sound hid] at hx
        exact ih c hc p x hx

theorem Reached.exists_indexedFrom (h : Reached worlds registry excluded s) {file : Row FileEntry}
    (hfile : file ∈ s.store.files.rows) :
    ∃ c ∈ s.store.registrations, ∃ frontEnd, c.id = file.data.codebase ∧
      registry.forLanguage c.language = some frontEnd ∧
      ∃ content ∈ contentsIn worlds, s.store.IndexedFrom frontEnd file content := by
  have hs := h.faithful
  obtain ⟨row, hrow, hid⟩ := hs.sound.file_owner file hfile
  have hc : Store.registrationOf row ∈ s.store.registrations := List.mem_map_of_mem hrow
  have hat : s.store.storedAt? row.id file.data.path = some (s.store.storedFile file) := by
    rw [Store.storedAt?, hs.sound.file?_eq_some_iff.mpr ⟨hfile, hid.symm, rfl⟩, Option.map_some]
  obtain ⟨frontEnd, hlang⟩ := h.exists_forLanguage _ hc _ _ hat
  obtain ⟨f, hread, hcontent, hstored⟩ := hs.vouched _ hc frontEnd hlang _ _ hat
  exact ⟨_, hc, frontEnd, hid, hlang, f.content, hcontent, f, hread, rfl, hid ▸ hstored⟩

end Service

end CodeAtlas
