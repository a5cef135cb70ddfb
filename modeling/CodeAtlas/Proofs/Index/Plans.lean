import CodeAtlas.Index.Plan
import CodeAtlas.Proofs.Store.Contents

/-! # Plans of runs

What a plan processes and deletes, path by path. A path that a change set lists and the
scanner accepts is processed or deleted; of the other stored paths, those that are gone or
not accepted are deleted and those whose content differs are processed.
-/

namespace CodeAtlas

namespace IndexPlan

variable {s : Store} {t : FileTree} {scanner : Scanner} {c : Int} {root : String}
  {detector : ChangeDetector} {base : Option String} {plan : IndexPlan} {changes : ChangeSet}
  {p : String} {f : ScannedFile}

/-- The plan of a full run, given what the scan finds. -/
def ofScan (s : Store) (c : Int) (found : List ScannedFile) : IndexPlan :=
  ⟨.full, found, ((s.fileHashes c).map fun e => e.1).filter fun p =>
    !(found.map fun f => f.relPath).contains p⟩

theorem full_ok (h : full s t scanner c root = .ok plan) :
    ∃ found, scanner.scan t [] root = .ok found ∧ plan = ofScan s c found := by
  unfold full at h
  split at h
  · simp at h
  · rename_i found hf
    exact ⟨found, hf, (Except.ok.inj h).symm⟩

theorem mem_delete_ofScan (hs : s.Sound) {found : List ScannedFile} :
    p ∈ (ofScan s c found).delete ↔ s.HasPath c p ∧ ∀ f ∈ found, f.relPath ≠ p := by
  simp only [ofScan, List.mem_filter, List.mem_map, Prod.exists, exists_and_right,
    exists_eq_right, hs.mem_fileHashes_iff]
  constructor
  · rintro ⟨⟨_, x, hx, _⟩, hp⟩
    exact ⟨⟨x, hx⟩, by simpa using hp⟩
  · rintro ⟨⟨x, hx⟩, hp⟩
    exact ⟨⟨_, x, hx, rfl⟩, by simpa using hp⟩

/-! ## Incremental plans -/

theorem mem_paths_ofChanges :
    p ∈ (ofChanges t scanner root changes).paths ↔
      scanner.accepts p = true ∧ (p ∈ changes.changed ∨ p ∈ changes.deleted) := by
  simp only [paths, ofChanges, List.map_map, Function.comp_def, fileAt, List.map_id',
    List.mem_append, List.mem_filter]
  cases isOnDisk t root p <;> simp <;> tauto

theorem mem_process_ofChanges :
    f ∈ (ofChanges t scanner root changes).process ↔
      f = fileAt root f.relPath ∧ scanner.accepts f.relPath = true ∧
      isOnDisk t root f.relPath = true ∧ f.relPath ∈ changes.changed := by
  simp only [ofChanges, List.mem_map, List.mem_filter]
  constructor
  · rintro ⟨p, ⟨⟨hc, ha⟩, hd⟩, rfl⟩
    exact ⟨rfl, ha, hd, hc⟩
  · rintro ⟨hf, ha, hd, hc⟩
    exact ⟨f.relPath, ⟨⟨hc, ha⟩, hd⟩, hf.symm⟩

theorem mem_process_incremental :
    f ∈ (incremental s t scanner c root changes).process ↔
      f = fileAt root f.relPath ∧ scanner.accepts f.relPath = true ∧
      isOnDisk t root f.relPath = true ∧
      (f.relPath ∈ changes.changed ∨ f.relPath ∉ changes.deleted ∧
        ∃ hash, (f.relPath, hash) ∈ s.fileHashes c ∧
          isCurrent t root f.relPath hash = false) := by
  simp only [incremental, reconcile, List.partition_eq_filter_filter, List.mem_append,
    mem_process_ofChanges, List.mem_map, List.mem_filter, List.contains_eq_mem, mem_paths_ofChanges,
    Bool.not_eq_true', decide_eq_false_iff_not, Bool.and_eq_true]
  constructor
  · rintro (⟨hf, ha, hd, hc⟩ | ⟨⟨p, hash⟩, ⟨⟨⟨hs, hp⟩, hd, ha⟩, hcur⟩, rfl⟩)
    · exact ⟨hf, ha, hd, .inl hc⟩
    · have hp : p ∉ changes.changed ∧ p ∉ changes.deleted := by simpa [ha] using hp
      exact ⟨rfl, ha, hd, .inr ⟨hp.2, hash, hs, hcur⟩⟩
  · rintro ⟨hf, ha, hd, h⟩
    by_cases hc : f.relPath ∈ changes.changed
    · exact .inl ⟨hf, ha, hd, hc⟩
    · obtain ⟨hdel, hash, hs, hcur⟩ := h.resolve_left hc
      exact .inr ⟨(f.relPath, hash), ⟨⟨⟨hs, by simp [hc, hdel]⟩, hd, ha⟩, hcur⟩, hf.symm⟩

theorem mem_delete_ofChanges :
    p ∈ (ofChanges t scanner root changes).delete ↔
      scanner.accepts p = true ∧
        (p ∈ changes.deleted ∨ p ∈ changes.changed ∧ isOnDisk t root p = false) := by
  simp only [ofChanges, List.mem_append, List.mem_filter, Bool.not_eq_true']
  tauto

theorem mem_delete_incremental :
    p ∈ (incremental s t scanner c root changes).delete ↔
      (scanner.accepts p = true ∧
        (p ∈ changes.deleted ∨ p ∈ changes.changed ∧ isOnDisk t root p = false)) ∨
      (∃ hash, (p, hash) ∈ s.fileHashes c) ∧
        ¬ (scanner.accepts p = true ∧ (p ∈ changes.changed ∨ p ∈ changes.deleted)) ∧
        (isOnDisk t root p && scanner.accepts p) = false := by
  simp only [incremental, reconcile, List.partition_eq_filter_filter, List.mem_append,
    mem_delete_ofChanges, List.mem_map, List.mem_filter, List.contains_eq_mem, mem_paths_ofChanges,
    Bool.not_eq_true', decide_eq_false_iff_not]
  refine or_congr_right ?_
  constructor
  · rintro ⟨⟨p, hash⟩, ⟨⟨hs, hp⟩, hg⟩, rfl⟩
    exact ⟨⟨hash, hs⟩, hp, by simpa only [Function.comp_apply, Bool.not_eq_true'] using hg⟩
  · rintro ⟨⟨hash, hs⟩, hp, hg⟩
    refine ⟨(p, hash), ⟨⟨hs, hp⟩, ?_⟩, rfl⟩
    simpa only [Function.comp_apply, Bool.not_eq_true'] using hg

/-! ## The plan of a run -/

theorem make_cases (h : make s t detector scanner c root base = .ok plan) :
    (plan.mode = .full ∧ full s t scanner c root = .ok plan) ∨
    (plan.mode = .incremental ∧ ∃ commit changes, base = some commit ∧
      detector.changesSince root commit = .ok changes ∧
      plan = incremental s t scanner c root changes) := by
  unfold make at h
  have hfull : full s t scanner c root = .ok plan → plan.mode = .full := by
    intro h
    obtain ⟨_, _, rfl⟩ := full_ok h
    rfl
  split at h
  · exact .inl ⟨hfull h, h⟩
  · rename_i commit
    split at h
    · rename_i changes hc
      obtain rfl := Except.ok.inj h
      exact .inr ⟨rfl, commit, changes, rfl, hc, rfl⟩
    · exact .inl ⟨hfull h, h⟩

theorem full_of_make (h : make s t detector scanner c root base = .ok plan)
    (hm : plan.mode = .full) : full s t scanner c root = .ok plan := by
  rcases make_cases h with ⟨_, hf⟩ | ⟨hi, _⟩
  · exact hf
  · rw [hi] at hm
    simp at hm

theorem incremental_of_make (h : make s t detector scanner c root base = .ok plan)
    (hm : plan.mode = .incremental) :
    ∃ commit changes, base = some commit ∧ detector.changesSince root commit = .ok changes ∧
      plan = incremental s t scanner c root changes := by
  rcases make_cases h with ⟨hf, _⟩ | ⟨_, hi⟩
  · rw [hf] at hm
    simp at hm
  · exact hi

end IndexPlan

end CodeAtlas
