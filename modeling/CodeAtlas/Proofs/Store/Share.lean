import CodeAtlas.Proofs.Store.Histories

/-! # The share of a codebase

The rows of a store that belong to one codebase, ids included. An operation on another
codebase leaves them as they are, also where both codebases have the same paths and the same
names: every row that is written, changed or erased belongs to the codebase of the operation.
-/

namespace CodeAtlas

namespace Table

variable {α : Type} {t : Table α} {p q : Row α → Bool}

theorem filter_erase (h : ∀ r ∈ t.rows, q r = true → p r = false) :
    (t.erase p).rows.filter q = t.rows.filter q := by
  rw [Table.erase, List.filter_filter]
  refine List.filter_congr fun r hr => ?_
  cases hq : q r with
  | false => rfl
  | true => simp [h r hr hq]

theorem filter_insertAll {as : List α} (h : ∀ r ∈ number t.lastId as, q r = false) :
    (t.insertAll as).rows.filter q = t.rows.filter q := by
  have hnew : (number t.lastId as).filter q = [] := by simpa using h
  rw [Table.insertAll, List.filter_append, hnew, List.append_nil]

theorem filter_set {id : Int} {a : α} (hold : ∀ r ∈ t.rows, r.id = id → q r = false)
    (hnew : q ⟨id, a⟩ = false) : (t.set id a).rows.filter q = t.rows.filter q := by
  rw [Table.set]
  generalize t.rows = rows at hold
  induction rows with
  | nil => rfl
  | cons r rows ih =>
    have ih := ih fun x hx => hold x (List.mem_cons_of_mem _ hx)
    rw [List.map_cons, List.filter_cons, List.filter_cons, ih]
    by_cases hi : r.id = id
    · simp [hi, hnew, hold r List.mem_cons_self hi]
    · simp [hi]

end Table

/-- The rows of one codebase. -/
structure Share where
  codebase : List (Row Codebase)
  files : List (Row FileEntry)
  symbols : List (Row (Owned Symbol))
  calls : List (Row (Owned CallEdge))
  annotations : List (Row (Owned Annotation))
  imports : List (Row (Owned Import))
  deriving Repr, DecidableEq, Inhabited

namespace Store

variable {s s' : Store} {a b : Int}

def share (s : Store) (c : Int) : Share where
  codebase := s.codebases.rows.filter fun r => r.id == c
  files := s.files.rows.filter fun r => r.data.codebase == c
  symbols := s.symbols.rows.filter fun r => (s.fileIds c).contains r.data.owner
  calls := s.calls.rows.filter fun r => r.data.owner == c
  annotations := s.annotations.rows.filter fun r => r.data.owner == c
  imports := s.imports.rows.filter fun r => (s.fileIds c).contains r.data.owner

theorem fileIds_eq (c : Int) : s.fileIds c = (s.share c).files.map Row.id := rfl

theorem fileHashes_eq_share (c : Int) :
    s.fileHashes c = (s.share c).files.map fun r => (r.data.path, r.data.hash) := rfl

/-! ## Parts of an operation -/

theorem share_codebases {t : Table Codebase}
    (h : (t.rows.filter fun r => r.id == b) = s.codebases.rows.filter fun r => r.id == b) :
    ({ s with codebases := t } : Store).share b = s.share b := by
  simp only [share, h]
  rfl

theorem share_files {t : Table FileEntry}
    (h : (t.rows.filter fun r => r.data.codebase == b) =
      s.files.rows.filter fun r => r.data.codebase == b) :
    ({ s with files := t } : Store).share b = s.share b := by
  have hids : ({ s with files := t } : Store).fileIds b = s.fileIds b := by
    simp only [fileIds, h]
  simp only [share, hids, h]

theorem share_purge {f : Int} (hab : a ≠ b) (hf : f ∉ s.fileIds b) :
    (s.purge a f).share b = s.share b := by
  have hids : (s.purge a f).fileIds b = s.fileIds b := rfl
  -- The symbols and imports of `f`, and records of `a`: none of them is of `b`.
  have howner : ∀ o : Int, (s.fileIds b).contains o = true → (o == f) = false := by
    intro o ho
    rw [beq_eq_false_iff_ne]
    rintro rfl
    exact hf (by simpa using ho)
  have hrecord : ∀ (o : Int) (q : Bool), (o == b) = true → (o == a && q) = false := by
    intro o q ho
    rw [beq_iff_eq.mp ho]
    simp [hab.symm]
  simp only [share, hids]
  congr 1
  · exact Table.filter_erase fun r _ hr => howner _ hr
  · exact Table.filter_erase fun r _ hr => hrecord _ _ hr
  · exact Table.filter_erase fun r _ hr => hrecord _ _ hr
  · exact Table.filter_erase fun r _ hr => howner _ hr

theorem share_record {f : Int} (hab : a ≠ b) (hf : f ∉ s.fileIds b) (outline : Outline) :
    (s.record a f outline).share b = s.share b := by
  have hids : (s.record a f outline).fileIds b = s.fileIds b := rfl
  have hfile : (s.fileIds b).contains f = false := by simpa using hf
  have hcode : (a == b) = false := by simpa using hab
  simp only [share, hids]
  congr 1
  · exact Table.filter_insertAll fun r hr => by rw [Table.owner_of_mem_number hr, hfile]
  · exact Table.filter_insertAll fun r hr => by rw [Table.owner_of_mem_number hr, hcode]
  · exact Table.filter_insertAll fun r hr => by rw [Table.owner_of_mem_number hr, hcode]
  · exact Table.filter_insertAll fun r hr => by rw [Table.owner_of_mem_number hr, hfile]

/-! ## Operations on another codebase -/

theorem Sound.share_upsertFile (h : s.Sound) {entry : FileEntry} (hb : entry.codebase ≠ b) :
    (s.upsertFile entry).1.share b = s.share b := by
  have hne : (entry.codebase == b) = false := by simpa using hb
  rw [upsertFile_eq]
  apply share_files
  unfold Store.upsertFile
  split
  · rename_i row hrow
    obtain ⟨hm, hc, _⟩ := h.file?_eq_some_iff.mp hrow
    refine Table.filter_set ?_ hne
    intro r hr hi
    rw [h.files.ext hr hm hi, hc]
    exact hne
  · refine Table.filter_insertAll ?_
    intro r hr
    obtain rfl := List.mem_singleton.mp hr
    exact hne

theorem Sound.upsertFile_not_mem (h : s.Sound) {entry : FileEntry} (hb : entry.codebase ≠ b) :
    (s.upsertFile entry).2 ∉ (s.upsertFile entry).1.fileIds b := by
  rw [mem_fileIds]
  rintro ⟨f, hf, hc, hi⟩
  rcases h.mem_upsertFile.mp hf with rfl | ⟨_, hne⟩
  · exact hb hc
  · exact hne hi

theorem Sound.share_replaceFile (h : s.Sound) {entry : FileEntry} {outline : Outline} {id : Int}
    (hr : s.replaceFile entry outline = (.ok id, s')) (hb : entry.codebase ≠ b) :
    s'.share b = s.share b := by
  obtain ⟨_, rfl, rfl⟩ := replaceFile_eq hr
  have hf := h.upsertFile_not_mem hb
  calc (((s.upsertFile entry).1.purge entry.codebase (s.upsertFile entry).2).record
        entry.codebase (s.upsertFile entry).2 outline).share b
      = ((s.upsertFile entry).1.purge entry.codebase (s.upsertFile entry).2).share b :=
        share_record (s := (s.upsertFile entry).1.purge _ _) hb hf outline
    _ = (s.upsertFile entry).1.share b := share_purge hb hf
    _ = s.share b := h.share_upsertFile hb

theorem Sound.share_deleteFile? (h : s.Sound) {p : String} (hd : s.deleteFile? a p = some s')
    (hab : a ≠ b) : s'.share b = s.share b := by
  obtain ⟨row, hrow, rfl⟩ := deleteFile?_eq hd
  obtain ⟨hm, hc, _⟩ := h.file?_eq_some_iff.mp hrow
  have hother : ∀ r ∈ s.files.rows, r.data.codebase = b → r.id ≠ row.id := by
    intro r hr hrb hi
    rw [h.files.ext hr hm hi, hc] at hrb
    exact hab hrb
  have hf : row.id ∉ s.fileIds b := by
    rw [mem_fileIds]
    rintro ⟨f, hfm, hfb, hi⟩
    exact hother f hfm hfb hi
  rw [share_files (s := s.purge a row.id), share_purge hab hf]
  refine Table.filter_erase fun r hr hrb => ?_
  simpa using hother r hr (by simpa using hrb)

theorem Sound.share_deleteCodebase? (h : s.Sound) (hd : s.deleteCodebase? a = some s')
    (hab : a ≠ b) : s'.share b = s.share b := by
  obtain ⟨_, rfl⟩ := deleteCodebase?_eq hd
  have hother : ∀ i : Int, (i == b) = true → (i == a) = false := by
    intro i hi
    rw [beq_iff_eq.mp hi]
    simpa using hab.symm
  have hfiles : ((s.files.erase fun r => r.data.codebase == a).rows.filter
      fun r => r.data.codebase == b) = s.files.rows.filter fun r => r.data.codebase == b :=
    Table.filter_erase fun r _ hr => hother _ hr
  -- No file has both codebases, so no owner is among the files of both.
  have howner : ∀ o : Int, (s.fileIds b).contains o = true → (s.fileIds a).contains o = false := by
    intro o ho
    rw [List.contains_eq_mem, decide_eq_true_iff, mem_fileIds] at ho
    rw [List.contains_eq_mem, decide_eq_false_iff_not, mem_fileIds]
    rintro ⟨g, hg, hga, hgi⟩
    obtain ⟨f, hf, hfb, hfi⟩ := ho
    rw [h.files.ext hg hf (hgi.trans hfi.symm), hfb] at hga
    exact hab hga.symm
  simp only [share, fileIds, hfiles]
  congr 1
  · exact Table.filter_erase fun r _ hr => hother _ hr
  · exact Table.filter_erase fun r _ hr => howner _ hr
  · exact Table.filter_erase fun r _ hr => hother _ hr
  · exact Table.filter_erase fun r _ hr => hother _ hr
  · exact Table.filter_erase fun r _ hr => howner _ hr

theorem share_markIndexed (commit : Option String) (time : String) (hab : a ≠ b) :
    (s.markIndexed a commit time).share b = s.share b := by
  have hne : (a == b) = false := by simpa using hab
  unfold markIndexed
  split
  · apply share_codebases
    refine Table.filter_set ?_ hne
    intro r _ hi
    rw [hi, hne]
  · rfl

/-- The codebase that an operation writes to. A registration writes to none. -/
def Operation.target? : Operation → Option Int
  | .upsertCodebase _ _ _ => none
  | .replaceFile entry _ => some entry.codebase
  | .deleteFile codebase _ => some codebase
  | .deleteCodebase id => some id
  | .markIndexed id _ _ => some id

theorem Sound.share_perform (h : s.Sound) {op : Operation} (ha : op.target? = some a)
    (hab : a ≠ b) : (s.perform op).1.share b = s.share b := by
  have hp := performed s op
  generalize s.perform op = result at hp
  cases hp with
  | refused reply _ => rfl
  | upserted rootPath language name => simp [Operation.target?] at ha
  | replaced hr =>
    obtain rfl := Option.some.inj ha
    exact h.share_replaceFile hr hab
  | fileDeleted hd =>
    obtain rfl := Option.some.inj ha
    exact h.share_deleteFile? hd hab
  | codebaseDeleted hd =>
    obtain rfl := Option.some.inj ha
    exact h.share_deleteCodebase? hd hab
  | marked id commit time =>
    obtain rfl := Option.some.inj ha
    exact share_markIndexed commit time hab

end Store

end CodeAtlas
