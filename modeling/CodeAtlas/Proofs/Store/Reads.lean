import CodeAtlas.Proofs.Store.Catalog
import CodeAtlas.Proofs.Store.Lookup

/-! # Reading a catalog

The reads of a store give what the catalog of its history lists: the file at a path with its
symbols, the hashes of a codebase, and its call edges and annotations by name. Each sorts what
it finds.
-/

namespace CodeAtlas

open scoped List

namespace Store

section

variable {s : Store} {c : Int}

theorem Sound.symbolsIn_perm (h : s.Sound) {r : Row FileEntry} (hr : r ∈ s.files.rows) :
    (s.symbolsIn r.id).map PlacedSymbol.symbol ~ s.symbols.ownedBy r.id := by
  have hplaced : (s.placedSymbols.filter fun p => p.file.id == r.id).map PlacedSymbol.symbol =
      s.symbols.ownedBy r.id := by
    rw [placedSymbols, Table.ownedBy]
    induction s.symbols.rows with
    | nil => rfl
    | cons row rows ih =>
      rw [List.filterMap_cons, List.filter_cons]
      cases hplace : s.place? row with
      | none =>
        have howner : (row.data.owner == r.id) = false := by
          rw [beq_eq_false_iff_ne]
          intro howner
          have hget := h.files.get?_eq_some_iff.mpr ⟨hr, howner.symm⟩
          simp [place?, hget] at hplace
        simpa [howner] using ih
      | some p =>
        obtain ⟨file, hget, rfl⟩ := Option.map_eq_some_iff.mp hplace
        have hid : file.id = row.data.owner := (h.files.get?_eq_some_iff.mp hget).2
        by_cases howner : row.data.owner = r.id
        · simpa [hid, howner] using ih
        · simpa [hid, howner] using ih
  rw [← hplaced]
  exact (sortBy_perm _ _).map _

/-- The rows of a table that a codebase owns and that pass a test are found in any order. -/
theorem map_item_sortBy_perm {α : Type} (order : Row (Owned α) → Row (Owned α) → Ordering)
    (t : Table (Owned α)) (test : α → Bool) :
    (sortBy order (t.rows.filter fun r => test r.data.item && isOpenOr (some c) r.data.owner)).map
      (fun r => r.data.item) ~ (t.ownedBy c).filter test := by
  have hfilter : (t.rows.filter fun r => test r.data.item && isOpenOr (some c) r.data.owner).map
      (fun r => r.data.item) = (t.ownedBy c).filter test := by
    rw [Table.ownedBy, List.filter_map, List.filter_filter]
    rfl
  rw [← hfilter]
  exact (sortBy_perm _ _).map _

end

theorem reads_match_catalog {ops : List Operation} (hops : Fitting ({}, {}) ops) (c : Int) :
    (∀ p r, (after ops).file? c p = some r → ∃ w ∈ (catalog ops).filesOf c,
      w.entry = r.data ∧ w.entry.path = p ∧
        ((after ops).symbolsIn r.id).map PlacedSymbol.symbol ~ w.outline.symbols) ∧
    (∀ w ∈ (catalog ops).filesOf c, ∃ r,
      (after ops).file? c w.entry.path = some r ∧ r.data = w.entry) ∧
    (after ops).fileHashes c ~
      ((catalog ops).filesOf c).map (fun w => (w.entry.path, w.entry.hash)) ∧
    (∀ fqn, ((after ops).callsFrom fqn (some c)).map (fun r => r.data.item) ~
      (((catalog ops).filesOf c).flatMap fun w => w.outline.calls).filter
        fun e => e.caller == fqn) ∧
    (∀ fqn, ((after ops).callsTo fqn (some c)).map (fun r => r.data.item) ~
      (((catalog ops).filesOf c).flatMap fun w => w.outline.calls).filter
        fun e => e.callee == fqn) ∧
    ∀ name scope, ((after ops).annotationsNamed name scope (some c)).map (fun r => r.data.item) ~
      (((catalog ops).filesOf c).flatMap fun w => w.outline.annotations).filter
        fun a => goesBy a.name name && isOpenOr scope a.scope := by
  have h := after_follows hops
  refine ⟨?_, ?_, ?_, ?_, ?_, ?_⟩
  · intro p r hr
    obtain ⟨hmem, _, _⟩ := h.sound.file?_eq_some_iff.mp hr
    have hat : (after ops).storedAt? c p = some ((after ops).storedFile r) := by
      rw [storedAt?, hr, Option.map_some]
    obtain ⟨w, hw, hkey, hstored⟩ := (h.represents.stored _ _ _).mp hat
    obtain ⟨hc, hp⟩ := Prod.mk.inj hkey
    have hsymbols : w.outline.symbols = (after ops).symbols.ownedBy r.id :=
      congrArg StoredFile.symbols hstored
    refine ⟨w, Catalog.mem_filesOf.mpr ⟨hw, hc⟩, congrArg StoredFile.entry hstored, hp, ?_⟩
    rw [hsymbols]
    exact h.sound.symbolsIn_perm hmem
  · intro w hw
    obtain ⟨hmem, rfl⟩ := Catalog.mem_filesOf.mp hw
    have hat := (h.represents.stored _ _ _).mpr ⟨w, hmem, rfl, rfl⟩
    obtain ⟨r, hr, hstored⟩ := Option.map_eq_some_iff.mp hat
    exact ⟨r, hr, congrArg StoredFile.entry hstored⟩
  · have hfiles := (h.represents.storedFiles_perm h.sound h.tidy c).map
      fun f => (f.entry.path, f.entry.hash)
    rw [List.map_map] at hfiles
    rw [fileHashes_eq]
    exact hfiles
  · intro fqn
    exact (map_item_sortBy_perm _ (after ops).calls fun e => e.caller == fqn).trans
      ((h.calls c).filter _)
  · intro fqn
    exact (map_item_sortBy_perm _ (after ops).calls fun e => e.callee == fqn).trans
      ((h.calls c).filter _)
  · intro name scope
    exact (map_item_sortBy_perm _ (after ops).annotations fun a =>
      goesBy a.name name && isOpenOr scope a.scope).trans ((h.annotations c).filter _)

end Store

end CodeAtlas
