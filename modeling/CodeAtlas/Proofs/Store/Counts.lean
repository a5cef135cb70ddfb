import CodeAtlas.Proofs.Store.Histories
import CodeAtlas.Store.Stats
import Mathlib.Algebra.BigOperators.Group.List.Basic
import Mathlib.Algebra.GroupWithZero.Nat
import Mathlib.Data.List.Perm.Basic

/-! # Counts of rows

The counts of the whole store read whole tables, those of a codebase select rows by their
codebase or by their file. They add up because every row has exactly one registered codebase
that it belongs to, which holds after every history.
-/

namespace CodeAtlas

theorem sum_map_ite_eq_countP {α : Type} (p : α → Bool) (xs : List α) :
    (xs.map fun x => if p x = true then 1 else 0).sum = xs.countP p := by
  induction xs with
  | nil => rfl
  | cons x xs ih => rw [List.map_cons, List.sum_cons, ih, List.countP_cons, Nat.add_comm]

/-- Elements that are each selected for exactly one of some keys, counted key by key. -/
theorem sum_map_countP_eq_length {α β : Type} [DecidableEq β] {keys : List β} (hn : keys.Nodup)
    {selects : β → α → Bool} {xs : List α}
    (h : ∀ x ∈ xs, ∃ key ∈ keys, ∀ k, selects k x = true ↔ k = key) :
    (keys.map fun k => xs.countP (selects k)).sum = xs.length := by
  induction xs with
  | nil => simp
  | cons x xs ih =>
    have hrest := ih fun y hy => h y (List.mem_cons_of_mem _ hy)
    have hone : (keys.map fun k => if selects k x = true then 1 else 0).sum = 1 := by
      obtain ⟨key, hkey, hiff⟩ := h x List.mem_cons_self
      have hcount : keys.countP (fun k => selects k x) = keys.count key := by
        refine List.countP_congr fun k _ => ?_
        rw [hiff k, beq_iff_eq]
      rw [sum_map_ite_eq_countP, hcount, List.count_eq_one_of_mem hn hkey]
    calc (keys.map fun k => (x :: xs).countP (selects k)).sum
        = (keys.map fun k => xs.countP (selects k) + if selects k x = true then 1 else 0).sum := by
          simp only [List.countP_cons]
      _ = (keys.map fun k => xs.countP (selects k)).sum +
            (keys.map fun k => if selects k x = true then 1 else 0).sum := List.sum_map_add
      _ = (x :: xs).length := by rw [hrest, hone, List.length_cons]

namespace Table

variable {α : Type} {t : Table α}

def Ascending (t : Table α) : Prop := t.rows.Pairwise fun r r' => r.id < r'.id

theorem ascending_empty : ({} : Table α).Ascending := List.Pairwise.nil

theorem Ascending.insert (h : t.Ascending) (hn : t.Numbered) (a : α) : (t.insert a).Ascending := by
  refine List.pairwise_append.mpr ⟨h, by simp [number], fun r hr r' hr' => ?_⟩
  have hle := hn.le_last r hr
  have hlt := (number_id_bounds hr').1
  omega

theorem Ascending.erase (h : t.Ascending) (p : Row α → Bool) : (t.erase p).Ascending := h.filter _

theorem Ascending.set (h : t.Ascending) (id : Int) (a : α) : (t.set id a).Ascending := by
  have hid : ∀ r : Row α, (if r.id == id then ⟨id, a⟩ else r : Row α).id = r.id := by
    intro r
    split
    · rename_i he
      exact (beq_iff_eq.mp he).symm
    · rfl
  refine List.pairwise_map.mpr (h.imp fun {r r'} hlt => ?_)
  rw [hid, hid]
  exact hlt

theorem Numbered.countWhere_erase [DecidableEq α] (h : t.Numbered) {p : Row α → Bool}
    {row : Row α} (hr : row ∈ t.rows) (hp : p row = true) :
    (t.erase fun r => r.id == row.id).countWhere p + 1 = t.countWhere p := by
  have hone : (t.rows.filter fun r => r.id == row.id).countP p = 1 := by
    rw [List.countP_filter, ← List.count_eq_one_of_mem h.nodup.of_map hr]
    refine List.countP_congr fun r hmem => ?_
    rw [Bool.and_eq_true, beq_iff_eq, beq_iff_eq]
    constructor
    · exact fun he => h.ext hmem hr he.2
    · rintro rfl
      exact ⟨hp, rfl⟩
  unfold countWhere Table.erase
  rw [List.countP_eq_countP_filter_add t.rows p fun r => r.id == row.id, hone, Nat.add_comm]

end Table

def StoreStats.sum (counts : List StoreStats) : StoreStats where
  codebases := (counts.map StoreStats.codebases).sum
  files := (counts.map StoreStats.files).sum
  symbols := (counts.map StoreStats.symbols).sum
  calls := (counts.map StoreStats.calls).sum
  annotations := (counts.map StoreStats.annotations).sum
  imports := (counts.map StoreStats.imports).sum

namespace Store

variable {s : Store}

/-! ## Each row belongs to one codebase -/

def codebaseIds (s : Store) : List Int := s.codebases.rows.map Row.id

theorem mem_codebaseIds {id : Int} : id ∈ s.codebaseIds ↔ s.HasCodebase id := List.mem_map

theorem Sound.sum_countWhere_owner (h : s.Sound) {α : Type} {t : Table α} {owner : Row α → Int}
    (howner : ∀ r ∈ t.rows, s.HasCodebase (owner r)) :
    (s.codebaseIds.map fun id => t.countWhere fun r => owner r == id).sum = t.size := by
  refine sum_map_countP_eq_length h.codebases.nodup fun r hr => ?_
  refine ⟨owner r, mem_codebaseIds.mpr (howner r hr), fun id => ?_⟩
  rw [beq_iff_eq, eq_comm]

theorem Sound.sum_countWhere_file (h : s.Sound) {α : Type} {t : Table (Owned α)}
    (hfile : ∀ r ∈ t.rows, s.HasFile r.data.owner) :
    (s.codebaseIds.map fun id =>
      t.countWhere fun r => (s.fileIds id).contains r.data.owner).sum = t.size := by
  refine sum_map_countP_eq_length h.codebases.nodup fun r hr => ?_
  obtain ⟨f, hf, hid⟩ := hfile r hr
  refine ⟨f.data.codebase, mem_codebaseIds.mpr (h.file_owner f hf), fun id => ?_⟩
  rw [List.contains_iff_mem, mem_fileIds]
  constructor
  · rintro ⟨f', hf', rfl, hid'⟩
    rw [h.files.ext hf' hf (hid'.trans hid.symm)]
  · rintro rfl
    exact ⟨f, hf, rfl, hid⟩

theorem Sound.stats_eq_sum (h : s.Sound) :
    s.stats = .sum (s.codebaseIds.map s.codebaseStats) := by
  simp only [stats, StoreStats.sum, List.map_map, Function.comp_def, codebaseStats,
    StoreStats.mk.injEq]
  refine ⟨?_, ?_, ?_, ?_, ?_, ?_⟩
  · exact (h.sum_countWhere_owner fun r hr => ⟨r, hr, rfl⟩).symm
  · exact (h.sum_countWhere_owner h.file_owner).symm
  · exact (h.sum_countWhere_file h.symbol_owner).symm
  · exact (h.sum_countWhere_owner h.call_owner).symm
  · exact (h.sum_countWhere_owner h.annotation_owner).symm
  · exact (h.sum_countWhere_file h.import_owner).symm

theorem Sound.files_deleteFile? (h : s.Sound) {c : Int} {p : String} {s' : Store}
    (hd : s.deleteFile? c p = some s') :
    (s'.codebaseStats c).files + 1 = (s.codebaseStats c).files := by
  obtain ⟨row, hrow, rfl⟩ := deleteFile?_eq hd
  obtain ⟨hmem, hc, _⟩ := h.file?_eq_some_iff.mp hrow
  exact h.files.countWhere_erase hmem (beq_iff_eq.mpr hc)

/-! ## The order of codebases -/

theorem Sound.ascending_perform (h : s.Sound) (ha : s.codebases.Ascending) (op : Operation) :
    (s.perform op).1.codebases.Ascending := by
  have hp := performed s op
  generalize s.perform op = result at hp
  cases hp with
  | refused reply _ => exact ha
  | upserted rootPath language name =>
    unfold Store.upsertCodebase
    split
    · exact ha
    · exact ha.insert h.codebases _
  | replaced hr =>
    rw [codebases_replaceFile hr]
    exact ha
  | fileDeleted hd =>
    rw [codebases_deleteFile? hd]
    exact ha
  | codebaseDeleted hd =>
    obtain ⟨_, rfl⟩ := deleteCodebase?_eq hd
    exact ha.erase _
  | marked id commit time =>
    unfold Store.markIndexed
    split
    · exact ha.set _ _
    · exact ha

theorem after_ascending (ops : List Operation) : (after ops).codebases.Ascending := by
  have hboth : (after ops).Sound ∧ (after ops).codebases.Ascending :=
    after_induction (P := fun s => s.Sound ∧ s.codebases.Ascending)
      ⟨sound_empty, Table.ascending_empty⟩
      fun s op _ hs => ⟨hs.1.perform op, hs.1.ascending_perform hs.2 op⟩
  exact hboth.2

/-- A symbol stands in one file, so a join with the files of a codebase has each of its symbols
once. -/
theorem Sound.length_join (h : s.Sound) (id : Int) :
    (s.symbols.rows.flatMap fun r =>
      s.files.rows.filter fun f => r.data.owner == f.id && f.data.codebase == id).length =
      s.symbols.countWhere fun r => (s.fileIds id).contains r.data.owner := by
  have hone : ∀ r : Row (Owned Symbol),
      (s.files.rows.filter fun f => r.data.owner == f.id && f.data.codebase == id).length =
        if (s.fileIds id).contains r.data.owner then 1 else 0 := by
    intro r
    split
    · rename_i hr
      obtain ⟨f, hf, hfc, hfi⟩ := mem_fileIds.mp (List.contains_iff_mem.mp hr)
      have hmem : f ∈ s.files.rows.filter fun f =>
          r.data.owner == f.id && f.data.codebase == id := by simp [hf, hfc, hfi]
      have hall : ∀ g ∈ s.files.rows.filter fun f =>
          r.data.owner == f.id && f.data.codebase == id, g ∈ [f] := by
        intro g hg
        simp only [List.mem_filter, Bool.and_eq_true, beq_iff_eq] at hg
        exact List.mem_singleton.mpr (h.files.ext hg.1 hf (hg.2.1.symm.trans hfi.symm))
      have hle := (List.subperm_of_subset (h.files.nodup.of_map.filter _) hall).length_le
      exact Nat.le_antisymm hle (List.length_pos_of_mem hmem)
    · rename_i hr
      rw [List.length_eq_zero_iff, List.filter_eq_nil_iff]
      intro f hf hq
      simp only [Bool.and_eq_true, beq_iff_eq] at hq
      exact hr (List.contains_iff_mem.mpr (mem_fileIds.mpr ⟨f, hf, hq.2, hq.1.symm⟩))
  simp only [Table.countWhere, List.length_flatMap, hone]
  exact sum_map_ite_eq_countP _ _

theorem sortBy_id_of_ascending {α : Type} {t : Table α} (h : t.Ascending) :
    sortBy (byKey Row.id) t.rows = t.rows := by
  refine List.mergeSort_of_pairwise (h.imp fun {a b} hab => ?_)
  have hlt : compare a.id b.id = .lt := Std.compare_eq_lt.mpr hab
  simp [byKey, hlt]

/-- After every history the counts of the whole store are the sums of the counts of its
codebases, and the list of codebases has each of them once, by increasing id and with its own
counts. -/
theorem counts_add_up (ops : List Operation) :
    (after ops).stats = .sum ((after ops).codebaseIds.map (after ops).codebaseStats) ∧
    (after ops).summaries.map CodebaseSummary.codebase = (after ops).codebases.rows ∧
    ((after ops).summaries.map fun c => c.codebase.id).Pairwise (· < ·) ∧
    ∀ c ∈ (after ops).summaries,
      c.files = ((after ops).codebaseStats c.codebase.id).files ∧
      c.symbols = ((after ops).codebaseStats c.codebase.id).symbols := by
  have hsorted := sortBy_id_of_ascending (after_ascending ops)
  refine ⟨(after_sound ops).stats_eq_sum, ?_, ?_, ?_⟩
  · simp [summaries, hsorted, Function.comp_def]
  · rw [summaries, hsorted, List.map_map]
    exact List.pairwise_map.mpr (after_ascending ops)
  · intro c hc
    obtain ⟨row, _, rfl⟩ := List.mem_map.mp hc
    exact ⟨rfl, (after_sound ops).length_join row.id⟩

end Store

end CodeAtlas
