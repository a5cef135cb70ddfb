import CodeAtlas.Proofs.Store.Rows
import CodeAtlas.Store.Transaction

/-! # What statements and transactions do

Statements that cannot fail add up to one change of the store. Whatever a body does before
it commits, the committed store stays as it is; so a transaction has the effect of its whole
body, or none when an error ends it.
-/

namespace CodeAtlas

namespace Connection

variable {c : Connection} {s t : Store}

@[simp] theorem view_write : (c.write s).view = s := by
  rcases c with ⟨store, _ | draft⟩ <;> rfl

@[simp] theorem write_write : (c.write s).write t = c.write t := by
  rcases c with ⟨store, _ | draft⟩ <;> rfl

@[simp] theorem write_view : c.write c.view = c := by
  rcases c with ⟨store, _ | draft⟩ <;> rfl

end Connection

namespace Script

variable {α β : Type} {x : Script α} {c : Connection}

theorem ext {y : Script α} (h : ∀ c, x.result c = y.result c) : x = y := funext h

@[simp] theorem result_pure (a : α) : (pure a : Script α).result c = (.ok a, c) := rfl

@[simp] theorem result_query (f : Store → α) : (query f).result c = (.ok (f c.view), c) := rfl

theorem result_bind (f : α → Script β) :
    (x >>= f).result c =
      match x.result c with
      | (.ok a, c') => (f a).result c'
      | (.error e, c') => (.error e, c') := by
  unfold result ExceptT.run StateT.run
  simp only [bind, ExceptT.bind, ExceptT.mk, StateT.bind, ExceptT.bindCont]
  cases x c with
  | mk answer c' => cases answer <;> rfl

theorem result_statement (f : Store → Except Error Store) :
    (statement f).result c =
      match f c.view with
      | .ok s => (.ok (), c.write s)
      | .error e => (.error e, c) := by
  change (match f c.view with
    | .ok s => (set (c.write s) : Script Unit)
    | .error e => throw e).result c = _
  cases f c.view <;> rfl

@[simp] theorem result_change (f : Store → Store) :
    (change f).result c = (.ok (), c.write (f c.view)) :=
  result_statement _

@[simp] theorem result_returning (f : Store → Store × α) :
    (returning f).result c = (.ok (f c.view).2, c.write (f c.view).1) := rfl

theorem result_queryRow (f : Store → Option α) :
    (queryRow f).result c =
      match f c.view with
      | some a => (.ok a, c)
      | none => (.error .noRow, c) := by
  rw [queryRow, result_bind, result_query]
  cases f c.view <;> rfl

/-! ## Changes that follow one another -/

theorem pure_eq_change : (pure () : Script Unit) = change id :=
  ext fun c => by simp

theorem change_bind (f g : Store → Store) :
    (change f >>= fun _ => change g) = change fun s => g (f s) :=
  ext fun c => by simp [result_bind]

theorem query_bind_change (f : Store → α) (g : α → Store → Store) :
    (query f >>= fun a => change (g a)) = change fun s => g (f s) s :=
  ext fun c => by simp [result_bind]

theorem forM_change (f : α → Store → Store) (as : List α) :
    (as.forM fun a => change (f a)) = change fun s => as.foldl (fun s a => f a s) s := by
  induction as with
  | nil => exact pure_eq_change
  | cons a as ih =>
    rw [List.forM, ih, change_bind]
    rfl

/-! ## Bodies that do not commit -/

/-- In a transaction, the script leaves the transaction open and what was committed alone. -/
def Drafts (x : Script α) : Prop :=
  ∀ c : Connection, c.draft.isSome →
    (x.result c).2.store = c.store ∧ (x.result c).2.draft.isSome

theorem drafts_pure (a : α) : (pure a : Script α).Drafts := fun _ hc => ⟨rfl, hc⟩

theorem drafts_query (f : Store → α) : (query f).Drafts := fun _ hc => ⟨rfl, hc⟩

theorem drafts_queryRow (f : Store → Option α) : (queryRow f).Drafts := by
  intro c hc
  rw [result_queryRow]
  cases f c.view <;> exact ⟨rfl, hc⟩

theorem drafts_statement (f : Store → Except Error Store) : (statement f).Drafts := by
  rintro ⟨store, _ | draft⟩ hc
  · simp at hc
  · rw [result_statement]
    cases f (Connection.view ⟨store, some draft⟩) <;> exact ⟨rfl, rfl⟩

theorem Drafts.bind (hx : x.Drafts) {f : α → Script β} (hf : ∀ a, (f a).Drafts) :
    (x >>= f).Drafts := by
  intro c hc
  obtain ⟨hstore, hdraft⟩ := hx c hc
  rw [result_bind]
  rcases hr : x.result c with ⟨e | a, c'⟩ <;> rw [hr] at hstore hdraft
  · exact ⟨hstore, hdraft⟩
  · obtain ⟨hstore', hdraft'⟩ := hf a c' hdraft
    exact ⟨hstore'.trans hstore, hdraft'⟩

theorem drafts_forM {f : α → Script Unit} (hf : ∀ a, (f a).Drafts) (as : List α) :
    (as.forM f).Drafts := by
  induction as with
  | nil => exact drafts_pure ()
  | cons a as ih => exact (hf a).bind fun _ => ih

theorem drafts_purge (codebase file : Int) : (purge codebase file).Drafts :=
  (drafts_query _).bind fun _ =>
    (drafts_forM (fun _ => (drafts_statement _).bind fun _ => drafts_statement _) _).bind fun _ =>
      (drafts_statement _).bind fun _ => drafts_statement _

theorem drafts_record (codebase file : Int) (outline : Outline) :
    (record codebase file outline).Drafts :=
  (drafts_forM (fun _ => drafts_statement _) _).bind fun _ =>
    (drafts_forM (fun _ => drafts_statement _) _).bind fun _ =>
      (drafts_forM (fun _ => drafts_statement _) _).bind fun _ =>
        drafts_forM (fun _ => drafts_statement _) _

theorem drafts_rewrite (entry : FileEntry) (outline : Outline) : (rewrite entry outline).Drafts :=
  (drafts_statement _).bind fun _ => (drafts_queryRow _).bind fun _ =>
    (drafts_purge _ _).bind fun _ => (drafts_record _ _ _).bind fun _ => drafts_pure _

end Script

namespace Store

variable {α : Type} {s : Store} {x : Script α}

theorem submit_map {β : Type} (f : α → β) :
    s.submit (do return f (← x)) = ((s.submit x).1.map f, (s.submit x).2) := by
  rw [submit, Script.result_bind]
  rcases hr : x.result ⟨s, none⟩ with ⟨e | a, c⟩ <;> simp [submit, hr, Except.map]

theorem submit_transaction (body : Script α) :
    s.submit (.transaction body) =
      ((body.result ⟨s, some s⟩).1, (body.result ⟨s, some s⟩).2.store) :=
  rfl

/-- A transaction that commits at its end takes effect as a whole. An error undoes all that
its body did by then. -/
theorem submit_committed (hx : x.Drafts) :
    s.submit (.transaction do let a ← x; Script.commit; return a) =
      match x.result ⟨s, some s⟩ with
      | (.ok a, c) => (.ok a, c.view)
      | (.error e, _) => (.error e, s) := by
  obtain ⟨hstore, _⟩ := hx ⟨s, some s⟩ rfl
  rw [submit_transaction, Script.result_bind]
  rcases hr : x.result ⟨s, some s⟩ with ⟨e | a, c⟩
  · rw [hr] at hstore
    exact Prod.ext rfl hstore
  · rfl

end Store

/-! ## Tables -/

namespace Table

variable {α : Type} {t : Table α}

@[simp] theorem insertAll_nil : t.insertAll [] = t := by simp [insertAll, number]

theorem insertAll_cons (a : α) (as : List α) :
    t.insertAll (a :: as) = (t.insert a).insertAll as := by
  simp [insert, insertAll, number]
  omega

theorem erase_erase (p q : Row α → Bool) :
    (t.erase p).erase q = t.erase fun r => p r || q r := by
  simp [erase, List.filter_filter, Bool.and_comm]

theorem find?_set {p : α → Bool} {row : Row α} (h : t.find? p = some row) {a : α}
    (ha : p a = true) : (t.set row.id a).find? p = some ⟨row.id, a⟩ := by
  obtain ⟨rows, lastId⟩ := t
  simp only [find?, set] at h ⊢
  induction rows with
  | nil => simp at h
  | cons r rows ih =>
    rw [List.find?_cons] at h
    rw [List.map_cons, List.find?_cons]
    split at h
    · obtain rfl := Option.some.inj h
      simp [ha]
    · rename_i hr
      by_cases hi : r.id = row.id
      · simp [hi, ha]
      · simpa [hi, hr] using ih h

theorem find?_insert {p : α → Bool} (h : t.find? p = none) {a : α} (ha : p a = true) :
    (t.insert a).find? p = some ⟨t.lastId + 1, a⟩ := by
  rw [find?] at h
  simp [find?, insert, insertAll, number, List.find?_append, h, ha]

end Table

namespace Store

variable {s : Store}

/-! ## The effect of the scripts -/

/-- The store without what a file yields: its symbols and imports, and the call edges and
annotations of its codebase at the names it declares. -/
def purge (s : Store) (codebase file : Int) : Store :=
  let names := s.namesIn file
  { s with
    symbols := s.symbols.erase fun r => r.data.owner == file
    calls := s.calls.erase fun r => r.data.owner == codebase && names.contains r.data.item.caller
    annotations :=
      s.annotations.erase fun r => r.data.owner == codebase && names.contains r.data.item.symbol
    imports := s.imports.erase fun r => r.data.owner == file }

/-- The store with the records of an outline added for a file. -/
def record (s : Store) (codebase file : Int) (outline : Outline) : Store :=
  { s with
    symbols := s.symbols.insertAll (outline.symbols.map fun a => ⟨file, a⟩)
    calls := s.calls.insertAll (outline.calls.map fun a => ⟨codebase, a⟩)
    annotations := s.annotations.insertAll (outline.annotations.map fun a => ⟨codebase, a⟩)
    imports := s.imports.insertAll (outline.imports.map fun a => ⟨file, a⟩) }

theorem foldl_eraseNamed (codebase : Int) (names : List String) :
    names.foldl (fun s name => eraseAnnotations codebase name (eraseCalls codebase name s)) s =
      { s with
        calls := s.calls.erase fun r =>
          r.data.owner == codebase && names.contains r.data.item.caller
        annotations := s.annotations.erase fun r =>
          r.data.owner == codebase && names.contains r.data.item.symbol } := by
  induction names generalizing s with
  | nil => simp [Table.erase]
  | cons name names ih =>
    rw [List.foldl_cons, ih]
    simp only [eraseAnnotations, eraseCalls, Table.erase_erase, List.contains_cons,
      Bool.and_or_distrib_left]

/-- Rows that are added to one table, one after another, are added together. -/
theorem foldl_insert {α β : Type} {table : Store → Table β} (put : Store → Table β → Store)
    (hself : ∀ s, put s (table s) = s) (hget : ∀ s t, table (put s t) = t)
    (hput : ∀ s t u, put (put s t) u = put s u) (row : α → β) (as : List α) :
    as.foldl (fun s a => put s ((table s).insert (row a))) s =
      put s ((table s).insertAll (as.map row)) := by
  induction as generalizing s with
  | nil => rw [List.map_nil, Table.insertAll_nil, hself, List.foldl_nil]
  | cons a as ih => rw [List.foldl_cons, ih, hput, hget, List.map_cons, Table.insertAll_cons]

theorem foldl_addSymbol (file : Int) (as : List Symbol) :
    as.foldl (fun s a => addSymbol file a s) s =
      { s with symbols := s.symbols.insertAll (as.map fun a => ⟨file, a⟩) } :=
  foldl_insert (fun s t => { s with symbols := t }) (fun _ => rfl) (fun _ _ => rfl)
    (fun _ _ _ => rfl) (fun a => ⟨file, a⟩) as

theorem foldl_annotate (codebase : Int) (as : List Annotation) :
    as.foldl (fun s a => annotate codebase a s) s =
      { s with annotations := s.annotations.insertAll (as.map fun a => ⟨codebase, a⟩) } :=
  foldl_insert (fun s t => { s with annotations := t }) (fun _ => rfl) (fun _ _ => rfl)
    (fun _ _ _ => rfl) (fun a => ⟨codebase, a⟩) as

theorem foldl_addImport (file : Int) (as : List Import) :
    as.foldl (fun s a => addImport file a s) s =
      { s with imports := s.imports.insertAll (as.map fun a => ⟨file, a⟩) } :=
  foldl_insert (fun s t => { s with imports := t }) (fun _ => rfl) (fun _ _ => rfl)
    (fun _ _ _ => rfl) (fun a => ⟨file, a⟩) as

end Store

def Outline.Storable (outline : Outline) : Prop := ∀ a ∈ outline.calls, a.confidence ≠ .nan

instance (outline : Outline) : Decidable outline.Storable :=
  inferInstanceAs (Decidable (∀ a ∈ outline.calls, a.confidence ≠ .nan))

namespace Script

open Store

variable {c : Connection}

theorem purge_eq (codebase file : Int) :
    purge codebase file = change fun s => s.purge codebase file := by
  have hnamed : ∀ name, (change (eraseCalls codebase name) >>= fun _ =>
      change (eraseAnnotations codebase name)) =
      change fun s => eraseAnnotations codebase name (eraseCalls codebase name s) :=
    fun name => change_bind _ _
  simp only [purge, hnamed, forM_change, change_bind, query_bind_change, foldl_eraseNamed]
  rfl

theorem result_forM_addCall (codebase : Int) {as : List CallEdge}
    (h : ∀ a ∈ as, a.confidence ≠ .nan) (rest : List CallEdge) :
    ((as ++ rest).forM fun a => statement (addCall codebase a)).result c =
      (rest.forM fun a => statement (addCall codebase a)).result
        (c.write { c.view with
          calls := c.view.calls.insertAll (as.map fun a => ⟨codebase, a⟩) }) := by
  induction as generalizing c with
  | nil =>
    rw [List.map_nil, Table.insertAll_nil]
    exact congrArg _ Connection.write_view.symm
  | cons a as ih =>
    obtain ⟨ha, has⟩ := List.forall_mem_cons.mp h
    rw [List.cons_append, List.forM, result_bind, result_statement, addCall, if_neg ha]
    simp only [ih has, Connection.view_write, Connection.write_write, List.map_cons,
      Table.insertAll_cons]

theorem forM_addCall (codebase : Int) {as : List CallEdge} (h : ∀ a ∈ as, a.confidence ≠ .nan) :
    (as.forM fun a => statement (addCall codebase a)) =
      change fun s =>
        { s with calls := s.calls.insertAll (as.map fun a => ⟨codebase, a⟩) } :=
  ext fun c => by simpa using result_forM_addCall codebase h []

theorem record_eq (codebase file : Int) {outline : Outline} (h : outline.Storable) :
    record codebase file outline = change fun s => s.record codebase file outline := by
  simp only [record, forM_change, forM_addCall codebase h, change_bind, foldl_addSymbol,
    foldl_annotate, foldl_addImport]
  rfl

/-- A call edge that cannot be stored ends the script after the edges before it. -/
theorem result_record_of_nan (codebase file : Int) {outline : Outline} {stored rest : List CallEdge}
    {a : CallEdge} (hcalls : outline.calls = stored ++ a :: rest)
    (hstored : ∀ b ∈ stored, b.confidence ≠ .nan) (ha : a.confidence = .nan) :
    (record codebase file outline).result c =
      (.error (.missingValue "call_edges.confidence"),
        c.write (c.view.record codebase file ⟨outline.symbols, stored, [], []⟩)) := by
  have hadd : addCall codebase a = fun _ => .error (.missingValue "call_edges.confidence") := by
    funext s
    rw [addCall, if_pos ha]
  simp only [record, hcalls, forM_change, foldl_addSymbol, result_bind, result_change,
    result_forM_addCall codebase hstored, List.forM, result_statement, hadd]
  simp [Store.record]

end Script

namespace Store

variable {s s' : Store} {entry : FileEntry} {outline : Outline}

/-! ## Replacing a file -/

theorem file?_upsertFile (s : Store) (entry : FileEntry) :
    (s.upsertFile entry).1.file? entry.codebase entry.path =
      some ⟨(s.upsertFile entry).2, entry⟩ := by
  unfold upsertFile
  split
  · rename_i row hrow
    exact Table.find?_set hrow (by simp)
  · rename_i hn
    exact Table.find?_insert hn (by simp)

theorem result_rewrite {row : Row Codebase} (hc : s.codebase? entry.codebase = some row)
    {c : Connection} (hs : c.view = s) :
    (Script.rewrite entry outline).result c =
      (do
        Script.record entry.codebase (s.upsertFile entry).2 outline
        return (s.upsertFile entry).2).result
        (c.write ((s.upsertFile entry).1.purge entry.codebase (s.upsertFile entry).2)) := by
  simp only [Script.rewrite, Script.result_bind, Script.result_statement, hs, writeFile, hc,
    Script.result_queryRow, Connection.view_write, file?_upsertFile, Script.purge_eq,
    Script.result_change, Connection.write_write]

theorem replaceFile_of_no_codebase (hc : s.codebase? entry.codebase = none) :
    s.replaceFile entry outline = (.error .danglingReference, s) := by
  rw [replaceFile, Script.replaceFile, submit_committed (Script.drafts_rewrite entry outline)]
  simp [Script.rewrite, Script.result_bind, Script.result_statement, Connection.view, writeFile, hc]

/-- A replacement writes the entry, drops what its file yielded and records what it yields. -/
theorem replaceFile_of_storable {row : Row Codebase} (hc : s.codebase? entry.codebase = some row)
    (h : outline.Storable) :
    s.replaceFile entry outline =
      (.ok (s.upsertFile entry).2,
        ((s.upsertFile entry).1.purge entry.codebase (s.upsertFile entry).2).record entry.codebase
          (s.upsertFile entry).2 outline) := by
  rw [replaceFile, Script.replaceFile, submit_committed (Script.drafts_rewrite entry outline),
    result_rewrite hc rfl, Script.record_eq _ _ h]
  simp only [Script.result_bind, Script.result_change, Script.result_pure, Connection.view_write]

/-- The calls of an outline that are added before one that cannot be stored. -/
theorem exists_calls_of_not_storable (h : ¬ outline.Storable) :
    ∃ stored a rest, outline.calls = stored ++ a :: rest ∧ a.confidence = .nan ∧
      ∀ b ∈ stored, b.confidence ≠ .nan := by
  have hsome : (outline.calls.find? fun a => a.confidence = .nan).isSome := by
    simpa [Outline.Storable] using h
  obtain ⟨a, ha⟩ := Option.isSome_iff_exists.mp hsome
  obtain ⟨hnan, stored, rest, hcalls, hstored⟩ := List.find?_eq_some_iff_append.mp ha
  exact ⟨stored, a, rest, hcalls, by simpa using hnan, fun b hb => by simpa using hstored b hb⟩

/-- Up to a call edge that cannot be stored, the draft of a replacement has the entry, the
symbols and the call edges before. -/
theorem result_rewrite_of_nan {row : Row Codebase} (hc : s.codebase? entry.codebase = some row)
    {stored rest : List CallEdge} {a : CallEdge} (hcalls : outline.calls = stored ++ a :: rest)
    (hstored : ∀ b ∈ stored, b.confidence ≠ .nan) (ha : a.confidence = .nan) :
    (Script.rewrite entry outline).result ⟨s, some s⟩ =
      (.error (.missingValue "call_edges.confidence"),
        ⟨s, some (((s.upsertFile entry).1.purge entry.codebase (s.upsertFile entry).2).record
          entry.codebase (s.upsertFile entry).2 ⟨outline.symbols, stored, [], []⟩)⟩) := by
  rw [result_rewrite hc rfl, Script.result_bind, Script.result_record_of_nan _ _ hcalls hstored ha]
  rfl

/-- A call edge that cannot be stored undoes the entry, the purge and the records before it. -/
theorem replaceFile_of_not_storable {row : Row Codebase}
    (hc : s.codebase? entry.codebase = some row) (h : ¬ outline.Storable) :
    s.replaceFile entry outline = (.error (.missingValue "call_edges.confidence"), s) := by
  obtain ⟨stored, a, rest, hcalls, ha, hstored⟩ := exists_calls_of_not_storable h
  rw [replaceFile, Script.replaceFile, submit_committed (Script.drafts_rewrite entry outline),
    result_rewrite_of_nan hc hcalls hstored ha]

/-! ## Deleting a file -/

theorem submit_deleteFile (s : Store) (codebase : Int) (path : String) :
    s.submit (.deleteFile codebase path) =
      match s.file? codebase path with
      | none => (.ok false, s)
      | some row =>
        (.ok true, { s.purge codebase row.id with
          files := s.files.erase fun r => r.id == row.id }) := by
  rw [Script.deleteFile, submit_transaction, Script.result_bind, Script.result_query]
  simp only [Connection.view, Option.getD_some]
  cases s.file? codebase path with
  | none => rfl
  | some row =>
    simp only [Script.purge_eq, Script.result_bind, Script.result_change, Connection.write_write,
      Connection.view_write]
    rfl

end Store

end CodeAtlas
