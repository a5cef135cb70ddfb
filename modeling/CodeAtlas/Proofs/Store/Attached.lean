import CodeAtlas.Proofs.Store.Contents

/-! # Records attached to names

Call edges and annotations belong to a codebase and are tied to a file only by name. When a
file is written over or deleted, the records at the names it declared are dropped, whichever
file they came from; when its codebase is deleted, all of them are. This is the same for both
kinds, so it is said once here.
-/

namespace CodeAtlas

namespace Outline

def names (o : Outline) : List String := o.symbols.map Symbol.fqn

/-- Callers and annotated symbols are declared. -/
structure Closed (o : Outline) : Prop where
  callers : ∀ e ∈ o.calls, e.caller ∈ o.names
  annotated : ∀ a ∈ o.annotations, a.symbol ∈ o.names

instance (o : Outline) : Decidable o.Closed :=
  decidable_of_iff ((∀ e ∈ o.calls, e.caller ∈ o.names) ∧ ∀ a ∈ o.annotations, a.symbol ∈ o.names)
    ⟨fun h => ⟨h.1, h.2⟩, fun h => ⟨h.callers, h.annotated⟩⟩

/-- A type of the given name, with a call and an annotation. -/
def sample (name : String) : Outline where
  symbols := [⟨name, name, .classType, 1, 1, "class " ++ name, "", .packageAccess⟩]
  calls := [⟨name, "Y", .internal, 1, .one⟩]
  annotations := [⟨name, "Deprecated", .onType, []⟩]

example : (sample "X").Closed := by decide

end Outline

/-- A kind of record that a codebase holds by name, in a table of its own. -/
structure Attached (α : Type) where
  /-- The records of an outline. -/
  items : Outline → List α
  /-- The name that a record is at. -/
  name : α → String
  closed_items : ∀ {outline : Outline}, outline.Closed → ∀ a ∈ items outline, name a ∈ outline.names
  /-- Where a store keeps the records. -/
  table : Store → Table (Owned α)
  table_empty : table {} = {}
  table_purge : ∀ (s : Store) (c f : Int), table (s.purge c f) =
    (table s).erase fun r => r.data.owner == c && (s.namesIn f).contains (name r.data.item)
  table_record : ∀ (s : Store) (c f : Int) (outline : Outline),
    table (s.record c f outline) = (table s).insertAll ((items outline).map fun a => ⟨c, a⟩)
  table_files : ∀ (s : Store) (files : Table FileEntry), table { s with files } = table s
  table_codebases : ∀ (s : Store) (codebases : Table Codebase),
    table { s with codebases } = table s
  table_deleteCodebase? : ∀ {s s' : Store} {id : Int}, s.deleteCodebase? id = some s' →
    table s' = (table s).erase fun r => r.data.owner == id

namespace Attached

def calls : Attached CallEdge where
  items := Outline.calls
  name := CallEdge.caller
  closed_items h := h.callers
  table := Store.calls
  table_empty := rfl
  table_purge _ _ _ := rfl
  table_record _ _ _ _ := rfl
  table_files _ _ := rfl
  table_codebases _ _ := rfl
  table_deleteCodebase? hd := by
    obtain ⟨_, rfl⟩ := Store.deleteCodebase?_eq hd
    rfl

def annotations : Attached Annotation where
  items := Outline.annotations
  name := Annotation.symbol
  closed_items h := h.annotated
  table := Store.annotations
  table_empty := rfl
  table_purge _ _ _ := rfl
  table_record _ _ _ _ := rfl
  table_files _ _ := rfl
  table_codebases _ _ := rfl
  table_deleteCodebase? hd := by
    obtain ⟨_, rfl⟩ := Store.deleteCodebase?_eq hd
    rfl

variable {α : Type} (v : Attached α)

def held (s : Store) (c : Int) : List α := (v.table s).ownedBy c

/-! ## Dropping records by name -/

/-- The records that are not at one of the given names. -/
def without (ns : List String) (as : List α) : List α := as.filter fun a => !ns.contains (v.name a)

section Without

variable {v} {ns ms : List String} {as bs : List α}

theorem mem_without {a : α} : a ∈ v.without ns as ↔ a ∈ as ∧ v.name a ∉ ns := by
  simp [without]

theorem without_append : v.without ns (as ++ bs) = v.without ns as ++ v.without ns bs :=
  List.filter_append ..

theorem without_without : v.without ns (v.without ms as) = v.without (ms ++ ns) as := by
  simp only [without, List.filter_filter]
  refine List.filter_congr fun a _ => ?_
  simp [Bool.and_comm]

theorem without_congr (h : ∀ a ∈ as, v.name a ∈ ns ↔ v.name a ∈ ms) :
    v.without ns as = v.without ms as :=
  List.filter_congr fun a ha => by simp [h a ha]

theorem without_eq_nil (h : ∀ a ∈ as, v.name a ∈ ns) : v.without ns as = [] := by
  simpa [without] using h

theorem without_nil : v.without [] as = as := by simp [without]

theorem without_perm (h : as.Perm bs) : (v.without ns as).Perm (v.without ns bs) := h.filter _

theorem without_flatMap {β : Type} (fs : List β) (g : β → List α) :
    v.without ns (fs.flatMap g) = fs.flatMap fun f => v.without ns (g f) := by
  simp [without, List.filter_flatMap]

theorem flatMap_eq_flatMap_filter {β γ : Type} (p : β → Bool) {g : β → List γ} {bs : List β}
    (h : ∀ b ∈ bs, p b = false → g b = []) : bs.flatMap g = (bs.filter p).flatMap g := by
  induction bs with
  | nil => rfl
  | cons b bs ih =>
    have ih := ih fun b hb => h b (List.mem_cons_of_mem _ hb)
    rw [List.flatMap_cons, List.filter_cons]
    split
    · rw [List.flatMap_cons, ih]
    · rename_i hb
      rw [h b List.mem_cons_self (by simpa using hb), List.nil_append, ih]

end Without

/-! ## In the store -/

variable {s s' : Store}

theorem held_empty (c : Int) : v.held {} c = [] := by
  rw [held, table_empty]
  rfl

theorem held_purge (c f o : Int) :
    v.held (s.purge c f) o =
      if o = c then v.without (s.namesIn f) (v.held s o) else v.held s o := by
  rw [held, table_purge,
    Table.ownedBy_erase _ (fun d => d.owner == c && (s.namesIn f).contains (v.name d.item))]
  by_cases ho : o = c
  · simp [ho, without, held]
  · simp [ho, held]

theorem held_record (c f o : Int) (outline : Outline) :
    v.held (s.record c f outline) o = v.held s o ++ if c = o then v.items outline else [] := by
  rw [held, table_record, Table.ownedBy_insertAll, held]

theorem held_upsertFile (entry : FileEntry) (c : Int) :
    v.held (s.upsertFile entry).1 c = v.held s c := by
  rw [Store.upsertFile_eq, held, table_files, held]

theorem held_replaceFile_of_ne {entry : FileEntry} {outline : Outline} {id : Int}
    (hr : s.replaceFile entry outline = (.ok id, s')) {c : Int} (hc : c ≠ entry.codebase) :
    v.held s' c = v.held s c := by
  obtain ⟨_, rfl, rfl⟩ := Store.replaceFile_eq hr
  rw [held_record, if_neg (Ne.symm hc), List.append_nil, held_purge, if_neg hc, held_upsertFile]

theorem held_replaceFile (h : s.Sound) {entry : FileEntry} {outline : Outline} {id : Int}
    (hr : s.replaceFile entry outline = (.ok id, s')) :
    v.held s' entry.codebase =
      v.without (s.namesAt entry.codebase entry.path) (v.held s entry.codebase) ++
        v.items outline := by
  obtain ⟨_, rfl, rfl⟩ := Store.replaceFile_eq hr
  rw [held_record, if_pos rfl, held_purge, if_pos rfl, h.namesIn_upsertFile, held_upsertFile]

theorem held_deleteFile?_of_ne {c : Int} {p : String} (hd : s.deleteFile? c p = some s') {o : Int}
    (ho : o ≠ c) : v.held s' o = v.held s o := by
  obtain ⟨row, _, rfl⟩ := Store.deleteFile?_eq hd
  rw [held, table_files]
  exact (v.held_purge c row.id o).trans (if_neg ho)

theorem held_deleteFile? {c : Int} {p : String} (hd : s.deleteFile? c p = some s') :
    v.held s' c = v.without (s.namesAt c p) (v.held s c) := by
  obtain ⟨row, hrow, rfl⟩ := Store.deleteFile?_eq hd
  rw [held, table_files, ← Store.namesIn_of_file? hrow]
  exact (v.held_purge c row.id c).trans (if_pos rfl)

theorem held_deleteCodebase? {id : Int} (hd : s.deleteCodebase? id = some s') (c : Int) :
    v.held s' c = if c = id then [] else v.held s c := by
  rw [held, v.table_deleteCodebase? hd, Table.ownedBy_erase_owners _ fun o => o == id]
  simp [held]

theorem held_upsertCodebase (root language name : String) (c : Int) :
    v.held (s.upsertCodebase root language name).1 c = v.held s c := by
  rw [Store.upsertCodebase_eq, held, table_codebases, held]

theorem held_markIndexed (id : Int) (commit : Option String) (time : String) (c : Int) :
    v.held (s.markIndexed id commit time) c = v.held s c := by
  rw [Store.markIndexed_eq, held, table_codebases, held]

end Attached

end CodeAtlas
