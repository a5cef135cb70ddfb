import CodeAtlas.Proofs.Store.Contents

/-! # Histories of a store

Five operations work on a store, in any order and whatever they are given. After every
history roots, paths and ids are unique and no row refers to one that is not there; an id
that was handed out once is never handed out again; deleting a codebase takes away what
belongs to it and nothing else; and an operation that is refused, also by an error after
its first writes, changes nothing.
-/

namespace CodeAtlas

namespace Table

variable {α β : Type} {key : α → β} {t t' t'' : Table α}

/-- A table and the same table later. A row that has an id of before later is a row that had
it before, and `key` tells the two alike; so an id without a row is never given one again. -/
structure Continues (key : α → β) (t t' : Table α) : Prop where
  last_le : t.lastId ≤ t'.lastId
  old : ∀ r' ∈ t'.rows, r'.id ≤ t.lastId → ∃ r ∈ t.rows, r.id = r'.id ∧ key r.data = key r'.data

theorem Continues.refl (t : Table α) : t.Continues key t := by
  constructor
  · exact Int.le_refl _
  · intro r hr _
    exact ⟨r, hr, rfl, rfl⟩

theorem Continues.trans (h : t.Continues key t') (h' : t'.Continues key t'') :
    t.Continues key t'' := by
  constructor
  · exact Int.le_trans h.last_le h'.last_le
  · intro r'' hr'' hi
    obtain ⟨r', hr', hid', hk'⟩ := h'.old r'' hr'' (Int.le_trans hi h.last_le)
    obtain ⟨r, hr, hid, hk⟩ := h.old r' hr' (hid' ▸ hi)
    exact ⟨r, hr, hid.trans hid', hk.trans hk'⟩

theorem continues_insertAll (as : List α) : t.Continues key (t.insertAll as) := by
  constructor
  · simp only [Table.insertAll]
    omega
  · intro r hr hi
    rcases List.mem_append.mp hr with hr | hr
    · exact ⟨r, hr, rfl, rfl⟩
    · have := (number_id_bounds hr).1
      omega

theorem continues_skipId : t.Continues key t.skipId := by
  constructor
  · simp only [Table.skipId]
    omega
  · intro r hr _
    exact ⟨r, hr, rfl, rfl⟩

theorem continues_erase (p : Row α → Bool) : t.Continues key (t.erase p) := by
  constructor
  · exact Int.le_refl _
  · intro r hr _
    exact ⟨r, (mem_erase.mp hr).1, rfl, rfl⟩

theorem continues_set {r : Row α} (hr : r ∈ t.rows) {a : α} (hk : key r.data = key a) :
    t.Continues key (t.set r.id a) := by
  constructor
  · exact Int.le_refl _
  · intro r' hr' _
    rcases (mem_set ⟨r, hr, rfl⟩).mp hr' with rfl | ⟨hm, _⟩
    · exact ⟨r, hr, rfl, hk⟩
    · exact ⟨r', hm, rfl, rfl⟩

end Table

namespace Store

/-! ## Operations -/

inductive Operation where
  | upsertCodebase (rootPath language name : String)
  | replaceFile (entry : FileEntry) (outline : Outline)
  | deleteFile (codebase : Int) (path : String)
  | deleteCodebase (id : Int)
  | markIndexed (id : Int) (commit : Option String) (time : String)
  deriving Repr, DecidableEq

inductive Reply where
  | codebase (row : Row Codebase)
  | file (id : Int)
  | deleted (found : Bool)
  | done
  | failed (error : Error)
  deriving Repr, DecidableEq

/-- An error, or that there was nothing to delete. -/
def Reply.isRefusal : Reply → Bool
  | .failed _ => true
  | .deleted found => !found
  | _ => false

def Operation.script : Operation → Script Reply
  | .upsertCodebase rootPath language name =>
    return .codebase (← Script.returning fun s => s.upsertCodebase rootPath language name)
  | .replaceFile entry outline => return .file (← Script.replaceFile entry outline)
  | .deleteFile codebase path => return .deleted (← Script.deleteFile codebase path)
  | .deleteCodebase id => return .deleted (← Script.deleteCodebase id)
  | .markIndexed id commit time => do
    Script.change fun s => s.markIndexed id commit time
    return .done

/-- The store after an operation, and what the operation answers. -/
def perform (s : Store) (op : Operation) : Store × Reply :=
  match s.submit op.script with
  | (.ok reply, s) => (s, reply)
  | (.error e, s) => (s, .failed e)

theorem perform_upsertCodebase (s : Store) (rootPath language name : String) :
    s.perform (.upsertCodebase rootPath language name) =
      ((s.upsertCodebase rootPath language name).1,
        .codebase (s.upsertCodebase rootPath language name).2) :=
  rfl

theorem perform_replaceFile (s : Store) (entry : FileEntry) (outline : Outline) :
    s.perform (.replaceFile entry outline) =
      match s.replaceFile entry outline with
      | (.ok id, s) => (s, .file id)
      | (.error e, s) => (s, .failed e) := by
  rw [perform, Operation.script, submit_map, replaceFile]
  rcases s.submit (.replaceFile entry outline) with ⟨e | id, s'⟩ <;> rfl

theorem perform_deleteFile (s : Store) (codebase : Int) (path : String) :
    s.perform (.deleteFile codebase path) =
      match s.deleteFile? codebase path with
      | some s => (s, .deleted true)
      | none => (s, .deleted false) := by
  rw [perform, Operation.script, submit_map, deleteFile?, submit_deleteFile]
  cases s.file? codebase path <;> rfl

theorem perform_deleteCodebase (s : Store) (id : Int) :
    s.perform (.deleteCodebase id) =
      match s.deleteCodebase? id with
      | some s => (s, .deleted true)
      | none => (s, .deleted false) := by
  rw [perform, Operation.script, submit_map, Script.deleteCodebase, submit]
  simp only [Script.result_returning, Connection.view, Connection.write, Option.getD_none]
  cases s.deleteCodebase? id <;> rfl

theorem perform_markIndexed (s : Store) (id : Int) (commit : Option String) (time : String) :
    s.perform (.markIndexed id commit time) = (s.markIndexed id commit time, .done) :=
  rfl

/-- The store after operations from an empty one, the first operation first. -/
def after (ops : List Operation) : Store := ops.foldl (fun s op => (s.perform op).1) {}

theorem after_append (ops later : List Operation) :
    after (ops ++ later) = later.foldl (fun s op => (s.perform op).1) (after ops) :=
  List.foldl_append

variable {s s' : Store}

/-- What an operation can do: it is refused and changes nothing, or does what it is named
for. -/
inductive Performed (s : Store) : Operation → Store × Reply → Prop where
  | refused {op : Operation} (reply : Reply) : reply.isRefusal = true → Performed s op (s, reply)
  | upserted (rootPath language name : String) :
      Performed s (.upsertCodebase rootPath language name)
        ((s.upsertCodebase rootPath language name).1,
          .codebase (s.upsertCodebase rootPath language name).2)
  | replaced {entry : FileEntry} {outline : Outline} {s' : Store} {id : Int} :
      s.replaceFile entry outline = (.ok id, s') →
      Performed s (.replaceFile entry outline) (s', .file id)
  | fileDeleted {codebase : Int} {path : String} {s' : Store} :
      s.deleteFile? codebase path = some s' →
      Performed s (.deleteFile codebase path) (s', .deleted true)
  | codebaseDeleted {id : Int} {s' : Store} : s.deleteCodebase? id = some s' →
      Performed s (.deleteCodebase id) (s', .deleted true)
  | marked (id : Int) (commit : Option String) (time : String) :
      Performed s (.markIndexed id commit time) (s.markIndexed id commit time, .done)

theorem performed (s : Store) (op : Operation) : Performed s op (s.perform op) := by
  cases op with
  | upsertCodebase rootPath language name => exact .upserted rootPath language name
  | replaceFile entry outline =>
    rw [perform_replaceFile]
    rcases hr : s.replaceFile entry outline with ⟨e | id, s'⟩
    · rw [(replaceFile_of_error hr).2]
      exact .refused (.failed e) rfl
    · exact .replaced hr
  | deleteFile codebase path =>
    rw [perform_deleteFile]
    cases hd : s.deleteFile? codebase path with
    | some s' => exact .fileDeleted hd
    | none => exact .refused (.deleted false) rfl
  | deleteCodebase id =>
    rw [perform_deleteCodebase]
    cases hd : s.deleteCodebase? id with
    | some s' => exact .codebaseDeleted hd
    | none => exact .refused (.deleted false) rfl
  | markIndexed id commit time => exact .marked id commit time

theorem after_induction {P : Store → Prop} {ops : List Operation} (hempty : P {})
    (hstep : ∀ s, ∀ op ∈ ops, P s → P (s.perform op).1) : P (after ops) := by
  suffices h : ∀ s, P s → P (ops.foldl (fun s op => (s.perform op).1) s) from h {} hempty
  induction ops with
  | nil =>
    intro s hs
    exact hs
  | cons op ops ih =>
    intro s hs
    apply ih
    · intro s op hop
      exact hstep s op (List.mem_cons_of_mem _ hop)
    · exact hstep s op List.mem_cons_self hs

/-! ## Integrity -/

theorem Sound.perform (h : s.Sound) (op : Operation) : (s.perform op).1.Sound := by
  have hp := performed s op
  generalize s.perform op = result at hp
  cases hp with
  | refused reply _ => exact h
  | upserted rootPath language name => exact h.upsertCodebase rootPath language name
  | replaced hr => exact h.replaceFile hr
  | fileDeleted hd => exact h.deleteFile? hd
  | codebaseDeleted hd => exact h.deleteCodebase? hd
  | marked id commit time => exact h.markIndexed id commit time

theorem after_sound (ops : List Operation) : (after ops).Sound :=
  after_induction sound_empty fun _ op _ h => h.perform op

/-! ## Ids -/

/-- A store and the same store later, table by table. Records never change under their id, a
file stays at its path and a codebase at its root. -/
structure Continues (s s' : Store) : Prop where
  codebases : s.codebases.Continues (fun c => (c.rootPath, c.language, c.name)) s'.codebases
  files : s.files.Continues (fun f => (f.codebase, f.path)) s'.files
  symbols : s.symbols.Continues id s'.symbols
  calls : s.calls.Continues id s'.calls
  annotations : s.annotations.Continues id s'.annotations
  imports : s.imports.Continues id s'.imports

theorem Continues.refl (s : Store) : s.Continues s :=
  ⟨.refl _, .refl _, .refl _, .refl _, .refl _, .refl _⟩

theorem Continues.trans {s'' : Store} (h : s.Continues s') (h' : s'.Continues s'') :
    s.Continues s'' :=
  ⟨h.codebases.trans h'.codebases, h.files.trans h'.files, h.symbols.trans h'.symbols,
    h.calls.trans h'.calls, h.annotations.trans h'.annotations, h.imports.trans h'.imports⟩

theorem continues_upsertCodebase (rootPath language name : String) :
    s.Continues (s.upsertCodebase rootPath language name).1 := by
  rw [upsertCodebase_eq]
  refine { Continues.refl s with codebases := ?_ }
  unfold upsertCodebase
  split
  · exact Table.continues_skipId
  · exact Table.continues_insertAll _

theorem Sound.continues_markIndexed (h : s.Sound) (id : Int) (commit : Option String)
    (time : String) : s.Continues (s.markIndexed id commit time) := by
  rw [markIndexed_eq]
  refine { Continues.refl s with codebases := ?_ }
  unfold Store.markIndexed
  split
  · rename_i row hrow
    obtain ⟨hm, rfl⟩ := h.codebase?_eq_some_iff.mp hrow
    exact Table.continues_set hm rfl
  · exact .refl _

theorem Sound.continues_upsertFile (h : s.Sound) (entry : FileEntry) :
    s.Continues (s.upsertFile entry).1 := by
  rw [upsertFile_eq]
  refine { Continues.refl s with files := ?_ }
  unfold Store.upsertFile
  split
  · rename_i row hrow
    obtain ⟨hm, hc, hp⟩ := h.file?_eq_some_iff.mp hrow
    have hset : s.files.Continues (fun f => (f.codebase, f.path)) (s.files.set row.id entry) :=
      Table.continues_set hm (by simp only [hc, hp])
    exact hset.trans Table.continues_skipId
  · exact Table.continues_insertAll _

theorem continues_purge (c f : Int) : s.Continues (s.purge c f) :=
  { Continues.refl s with
    symbols := Table.continues_erase _
    calls := Table.continues_erase _
    annotations := Table.continues_erase _
    imports := Table.continues_erase _ }

theorem continues_record (c f : Int) (outline : Outline) : s.Continues (s.record c f outline) :=
  { Continues.refl s with
    symbols := Table.continues_insertAll _
    calls := Table.continues_insertAll _
    annotations := Table.continues_insertAll _
    imports := Table.continues_insertAll _ }

theorem Sound.continues_replaceFile (h : s.Sound) {entry : FileEntry} {outline : Outline}
    {id : Int} (hr : s.replaceFile entry outline = (.ok id, s')) : s.Continues s' := by
  obtain ⟨_, rfl, rfl⟩ := replaceFile_eq hr
  exact ((h.continues_upsertFile entry).trans (continues_purge _ _)).trans
    (continues_record _ _ outline)

theorem continues_deleteFile? {c : Int} {p : String} (hd : s.deleteFile? c p = some s') :
    s.Continues s' := by
  obtain ⟨row, _, rfl⟩ := deleteFile?_eq hd
  exact { continues_purge c row.id with files := Table.continues_erase _ }

theorem continues_deleteCodebase? {id : Int} (hd : s.deleteCodebase? id = some s') :
    s.Continues s' := by
  obtain ⟨_, rfl⟩ := deleteCodebase?_eq hd
  exact ⟨Table.continues_erase _, Table.continues_erase _, Table.continues_erase _,
    Table.continues_erase _, Table.continues_erase _, Table.continues_erase _⟩

theorem Sound.continues_perform (h : s.Sound) (op : Operation) :
    s.Continues (s.perform op).1 := by
  have hp := performed s op
  generalize s.perform op = result at hp
  cases hp with
  | refused reply _ => exact .refl s
  | upserted rootPath language name => exact continues_upsertCodebase rootPath language name
  | replaced hr => exact h.continues_replaceFile hr
  | fileDeleted hd => exact continues_deleteFile? hd
  | codebaseDeleted hd => exact continues_deleteCodebase? hd
  | marked id commit time => exact h.continues_markIndexed id commit time

theorem after_continues (ops later : List Operation) :
    (after ops).Continues (after (ops ++ later)) := by
  rw [after_append]
  suffices h : ∀ s : Store, s.Sound →
      s.Continues (later.foldl (fun s op => (s.perform op).1) s) from h _ (after_sound ops)
  induction later with
  | nil =>
    intro s _
    exact .refl s
  | cons op later ih =>
    intro s hs
    exact (hs.continues_perform op).trans (ih _ (hs.perform op))

/-! ## Deleting a codebase -/

def HasFileOf (s : Store) (codebase file : Int) : Prop :=
  ∃ f ∈ s.files.rows, f.id = file ∧ f.data.codebase = codebase

/-- The rows of one store are those of another without a codebase and what belongs to it. -/
structure LacksOnly (s : Store) (id : Int) (s' : Store) : Prop where
  codebases : ∀ r, r ∈ s'.codebases.rows ↔ r ∈ s.codebases.rows ∧ r.id ≠ id
  files : ∀ r, r ∈ s'.files.rows ↔ r ∈ s.files.rows ∧ r.data.codebase ≠ id
  symbols : ∀ r, r ∈ s'.symbols.rows ↔ r ∈ s.symbols.rows ∧ ¬ s.HasFileOf id r.data.owner
  calls : ∀ r, r ∈ s'.calls.rows ↔ r ∈ s.calls.rows ∧ r.data.owner ≠ id
  annotations : ∀ r, r ∈ s'.annotations.rows ↔ r ∈ s.annotations.rows ∧ r.data.owner ≠ id
  imports : ∀ r, r ∈ s'.imports.rows ↔ r ∈ s.imports.rows ∧ ¬ s.HasFileOf id r.data.owner

theorem contains_fileIds_eq_false_iff {id file : Int} :
    (s.fileIds id).contains file = false ↔ ¬ s.HasFileOf id file := by
  rw [List.contains_eq_mem, decide_eq_false_iff_not, mem_fileIds]
  constructor
  · rintro hn ⟨f, hf, hi, hc⟩
    exact hn ⟨f, hf, hc, hi⟩
  · rintro hn ⟨f, hf, hc, hi⟩
    exact hn ⟨f, hf, hi, hc⟩

theorem lacksOnly_deleteCodebase? {id : Int} (hd : s.deleteCodebase? id = some s') :
    s.LacksOnly id s' := by
  obtain ⟨_, rfl⟩ := deleteCodebase?_eq hd
  constructor <;> intro r <;> rw [Table.mem_erase]
  · rw [beq_eq_false_iff_ne]
  · rw [beq_eq_false_iff_ne]
  · rw [contains_fileIds_eq_false_iff]
  · rw [beq_eq_false_iff_ne]
  · rw [beq_eq_false_iff_ne]
  · rw [contains_fileIds_eq_false_iff]

/-! ## Refusals -/

/-- What an operation is about is in the store, and what it writes can be stored. -/
def Operation.Finds (s : Store) : Operation → Prop
  | .replaceFile entry outline => s.HasCodebase entry.codebase ∧ outline.Storable
  | .deleteFile codebase path => s.HasPath codebase path
  | .deleteCodebase id => s.HasCodebase id
  | _ => True

theorem codebase?_eq_none_iff {id : Int} : s.codebase? id = none ↔ ¬ s.HasCodebase id := by
  simp [codebase?, Table.get?, HasCodebase]

theorem isRefusal_iff (op : Operation) :
    (s.perform op).2.isRefusal = true ↔ ¬ op.Finds s := by
  cases op with
  | upsertCodebase rootPath language name =>
    simp [perform_upsertCodebase, Reply.isRefusal, Operation.Finds]
  | replaceFile entry outline =>
    rw [perform_replaceFile, Operation.Finds]
    rcases hr : s.replaceFile entry outline with ⟨e | id, s'⟩
    · simpa only [Reply.isRefusal, true_iff] using (replaceFile_of_error hr).1
    · simpa only [Reply.isRefusal, Bool.false_eq_true, false_iff, not_not]
        using (replaceFile_eq hr).1
  | deleteFile codebase path =>
    have hpath : ¬ s.HasPath codebase path ↔ s.deleteFile? codebase path = none := by
      rw [deleteFile?_eq_none_iff, HasPath, ← Option.ne_none_iff_exists', not_not]
    rw [Operation.Finds, hpath, perform_deleteFile]
    cases hd : s.deleteFile? codebase path with
    | none => simp [Reply.isRefusal]
    | some s' => simp [Reply.isRefusal]
  | deleteCodebase id =>
    rw [Operation.Finds, ← codebase?_eq_none_iff, perform_deleteCodebase]
    cases hc : s.codebase? id with
    | none => simp [deleteCodebase?, hc, Reply.isRefusal]
    | some row => simp [deleteCodebase?, hc, Reply.isRefusal]
  | markIndexed id commit time => simp [perform_markIndexed, Reply.isRefusal, Operation.Finds]

theorem perform_of_isRefusal {op : Operation} (h : (s.perform op).2.isRefusal = true) :
    (s.perform op).1 = s := by
  have hp := performed s op
  generalize s.perform op = result at hp h
  cases hp with
  | refused reply _ => rfl
  | upserted rootPath language name => simp [Reply.isRefusal] at h
  | replaced hr => simp [Reply.isRefusal] at h
  | fileDeleted hd => simp [Reply.isRefusal] at h
  | codebaseDeleted hd => simp [Reply.isRefusal] at h
  | marked id commit time => simp [Reply.isRefusal] at h

/-- After every history the store is sound, no id comes back later, a deletion of a codebase
takes its rows and no others, and an operation is refused exactly when what it is about is
not there or what it writes cannot be stored. Refused, it changes nothing, however far its
statements had come. -/
theorem histories_keep_integrity (ops : List Operation) :
    (after ops).Sound ∧
    (∀ later, (after ops).Continues (after (ops ++ later))) ∧
    (∀ id s', (after ops).deleteCodebase? id = some s' → (after ops).LacksOnly id s') ∧
    ∀ op, (((after ops).perform op).2.isRefusal = true ↔ ¬ op.Finds (after ops)) ∧
      (((after ops).perform op).2.isRefusal = true → ((after ops).perform op).1 = after ops) := by
  refine ⟨after_sound ops, after_continues ops, ?_, ?_⟩
  · intro id s' hd
    exact lacksOnly_deleteCodebase? hd
  · intro op
    exact ⟨isRefusal_iff op, perform_of_isRefusal⟩

end Store

end CodeAtlas
