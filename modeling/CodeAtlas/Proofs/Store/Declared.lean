import CodeAtlas.Proofs.Store.Attached
import CodeAtlas.Proofs.Store.Histories

/-! # Records stay at declared names

No call edge and no annotation outlives the declarations of its name. Files may declare the
same names: writing over one of them, or deleting it, drops also the records that came from
the others, so a name can lose records that it should have; but a record is never left at a
name that no file of its codebase declares.
-/

namespace CodeAtlas

namespace Store

variable {s s' : Store} {c : Int} {p q : String}

/-! ## Declarations -/

def DeclaresAt (s : Store) (codebase : Int) (path name : String) : Prop :=
  ∃ f ∈ s.files.rows, f.data.codebase = codebase ∧ f.data.path = path ∧
    ∃ r ∈ s.symbols.rows, r.data.owner = f.id ∧ r.data.item.fqn = name

/-- Some file of a codebase has a symbol of this name. -/
def Declares (s : Store) (codebase : Int) (name : String) : Prop :=
  ∃ path, s.DeclaresAt codebase path name

theorem mem_namesIn {id : Int} :
    q ∈ s.namesIn id ↔ ∃ r ∈ s.symbols.rows, r.data.owner = id ∧ r.data.item.fqn = q := by
  simp [namesIn, and_assoc]

theorem Sound.declaresAt_iff (h : s.Sound) : s.DeclaresAt c p q ↔ q ∈ s.namesAt c p := by
  constructor
  · rintro ⟨f, hf, hc, hp, hsymbol⟩
    have hfile := h.file?_eq_some_iff.mpr ⟨hf, hc, hp⟩
    rw [← namesIn_of_file? hfile]
    exact mem_namesIn.mpr hsymbol
  · intro hq
    cases hfile : s.file? c p with
    | none => simp [namesAt, storedAt?, hfile] at hq
    | some f =>
      obtain ⟨hf, hc, hp⟩ := h.file?_eq_some_iff.mp hfile
      rw [← namesIn_of_file? hfile] at hq
      exact ⟨f, hf, hc, hp, mem_namesIn.mp hq⟩

theorem Sound.declares_iff (h : s.Sound) : s.Declares c q ↔ ∃ p, q ∈ s.namesAt c p :=
  exists_congr fun _ => h.declaresAt_iff

theorem Sound.declares_of_namesAt (h : s.Sound) (h' : s'.Sound)
    (hsub : ∀ p, q ∈ s.namesAt c p → q ∈ s'.namesAt c p) (hq : s.Declares c q) :
    s'.Declares c q := by
  obtain ⟨p, hp⟩ := h.declares_iff.mp hq
  exact h'.declares_iff.mpr ⟨p, hsub p hp⟩

/-- An outline that is written has its records at names that it declares. -/
def Operation.Closed : Operation → Prop
  | .replaceFile _ outline => outline.Closed
  | _ => True

instance : (op : Operation) → Decidable op.Closed
  | .replaceFile _ outline => inferInstanceAs (Decidable outline.Closed)
  | .upsertCodebase _ _ _ => .isTrue trivial
  | .deleteFile _ _ => .isTrue trivial
  | .deleteCodebase _ => .isTrue trivial
  | .markIndexed _ _ _ => .isTrue trivial

end Store

/-! ## One operation -/

namespace Attached

variable {α : Type} {v : Attached α} {s s' : Store}

theorem mem_held {c : Int} {a : α} :
    a ∈ v.held s c ↔ ∃ r ∈ (v.table s).rows, r.data.owner = c ∧ r.data.item = a := by
  simp [held, Table.ownedBy, and_assoc]

/-- Every record of a codebase is at a name that one of its files declares. -/
def Anchored (v : Attached α) (s : Store) : Prop :=
  ∀ c, ∀ a ∈ v.held s c, s.Declares c (v.name a)

theorem Anchored.of_same (ha : v.Anchored s) (h : s.Sound) (h' : s'.Sound)
    (hheld : ∀ c, v.held s' c = v.held s c) (hat : ∀ c p, s'.storedAt? c p = s.storedAt? c p) :
    v.Anchored s' := by
  intro c a hm
  rw [hheld] at hm
  refine h.declares_of_namesAt h' ?_ (ha c a hm)
  intro p hp
  rwa [Store.namesAt, hat]

theorem Anchored.replaceFile (ha : v.Anchored s) (h : s.Sound) {entry : FileEntry}
    {outline : Outline} {id : Int} (hr : s.replaceFile entry outline = (.ok id, s'))
    (hclosed : outline.Closed) : v.Anchored s' := by
  have h' := h.replaceFile hr
  intro c a hm
  by_cases hc : c = entry.codebase
  · subst hc
    rw [v.held_replaceFile h hr] at hm
    rcases List.mem_append.mp hm with hold | hnew
    · -- The record was not at a name of this path, so another path declares its name.
      obtain ⟨hold, hname⟩ := mem_without.mp hold
      refine h.declares_of_namesAt h' ?_ (ha _ a hold)
      intro p hp
      have hpe : p ≠ entry.path := by
        rintro rfl
        exact hname hp
      rwa [h.namesAt_replaceFile hr, if_neg fun hk => hpe hk.2]
    · refine h'.declares_iff.mpr ⟨entry.path, ?_⟩
      rw [h.namesAt_replaceFile hr, if_pos ⟨rfl, rfl⟩]
      exact v.closed_items hclosed a hnew
  · rw [v.held_replaceFile_of_ne hr hc] at hm
    refine h.declares_of_namesAt h' ?_ (ha c a hm)
    intro p hp
    rwa [h.namesAt_replaceFile hr, if_neg fun hk => hc hk.1]

theorem Anchored.deleteFile? (ha : v.Anchored s) (h : s.Sound) {c : Int} {path : String}
    (hd : s.deleteFile? c path = some s') : v.Anchored s' := by
  have h' := h.deleteFile? hd
  intro o a hm
  by_cases ho : o = c
  · subst ho
    rw [v.held_deleteFile? hd] at hm
    obtain ⟨hold, hname⟩ := mem_without.mp hm
    refine h.declares_of_namesAt h' ?_ (ha _ a hold)
    intro p hp
    have hpe : p ≠ path := by
      rintro rfl
      exact hname hp
    rwa [h.namesAt_deleteFile? hd, if_neg fun hk => hpe hk.2]
  · rw [v.held_deleteFile?_of_ne hd ho] at hm
    refine h.declares_of_namesAt h' ?_ (ha o a hm)
    intro p hp
    rwa [h.namesAt_deleteFile? hd, if_neg fun hk => ho hk.1]

theorem Anchored.deleteCodebase? (ha : v.Anchored s) (h : s.Sound) {id : Int}
    (hd : s.deleteCodebase? id = some s') : v.Anchored s' := by
  intro c a hm
  rw [v.held_deleteCodebase? hd] at hm
  split at hm
  · simp at hm
  · rename_i hc
    refine h.declares_of_namesAt (h.deleteCodebase? hd) ?_ (ha c a hm)
    intro p hp
    rwa [Store.namesAt, h.storedAt?_deleteCodebase? hd, if_neg hc]

theorem Anchored.perform (ha : v.Anchored s) (h : s.Sound) {op : Store.Operation}
    (hclosed : op.Closed) : v.Anchored (s.perform op).1 := by
  have hp := Store.performed s op
  generalize s.perform op = result at hp
  cases hp with
  | refused reply _ => exact ha
  | upserted rootPath language name =>
    apply ha.of_same h (h.upsertCodebase rootPath language name)
    · intro c
      exact v.held_upsertCodebase rootPath language name c
    · intro c p
      exact Store.storedAt?_upsertCodebase rootPath language name c p
  | replaced hr => exact ha.replaceFile h hr hclosed
  | fileDeleted hd => exact ha.deleteFile? h hd
  | codebaseDeleted hd => exact ha.deleteCodebase? h hd
  | marked id commit time =>
    apply ha.of_same h (h.markIndexed id commit time)
    · intro c
      exact v.held_markIndexed id commit time c
    · intro c p
      exact Store.storedAt?_markIndexed id commit time c p

end Attached

/-! ## Histories -/

namespace Store

variable {s s' : Store} {ops : List Operation} {op : Operation} {c : Int} {p q : String}

theorem after_anchored {α : Type} (v : Attached α) (hclosed : ∀ op ∈ ops, op.Closed) :
    v.Anchored (after ops) := by
  have hboth : (after ops).Sound ∧ v.Anchored (after ops) := by
    apply after_induction (P := fun s => s.Sound ∧ v.Anchored s)
    · refine ⟨sound_empty, ?_⟩
      intro c a hm
      rw [v.held_empty] at hm
      simp at hm
    · rintro s op hop ⟨h, ha⟩
      exact ⟨h.perform op, ha.perform h (hclosed op hop)⟩
  exact hboth.2

theorem calls_declared (hclosed : ∀ op ∈ ops, op.Closed) :
    ∀ r ∈ (after ops).calls.rows, (after ops).Declares r.data.owner r.data.item.caller := by
  intro r hr
  exact after_anchored .calls hclosed _ _ (Attached.mem_held.mpr ⟨r, hr, rfl, rfl⟩)

theorem annotations_declared (hclosed : ∀ op ∈ ops, op.Closed) :
    ∀ r ∈ (after ops).annotations.rows,
      (after ops).Declares r.data.owner r.data.item.symbol := by
  intro r hr
  exact after_anchored .annotations hclosed _ _ (Attached.mem_held.mpr ⟨r, hr, rfl, rfl⟩)

/-! ## The last declaration of a name -/

/-- The operation deletes a file, or writes it without a name. -/
def Operation.Drops (c : Int) (p q : String) : Operation → Prop
  | .deleteFile codebase path => codebase = c ∧ path = p
  | .replaceFile entry outline =>
    entry.codebase = c ∧ entry.path = p ∧ outline.Storable ∧ q ∉ outline.names
  | _ => False

/-- No file but the one at a path declares a name. -/
def DeclaresOnlyAt (s : Store) (codebase : Int) (path name : String) : Prop :=
  ∀ path', s.DeclaresAt codebase path' name → path' = path

theorem Sound.namesAt_eq_nil_of_error (h : s.Sound) {entry : FileEntry} {outline : Outline}
    {e : Error} (hr : s.replaceFile entry outline = (.error e, s')) (hstorable : outline.Storable)
    (p : String) : s.namesAt entry.codebase p = [] := by
  have hnone : ¬ s.HasCodebase entry.codebase := fun hc =>
    (replaceFile_of_error hr).1 ⟨hc, hstorable⟩
  cases hat : s.storedAt? entry.codebase p with
  | none => simp [namesAt, hat]
  | some x => exact absurd (h.hasCodebase_of_storedAt? hat) hnone

theorem Sound.not_declares_of_drops (h : s.Sound) (honly : s.DeclaresOnlyAt c p q)
    (hdrops : op.Drops c p q) : ¬ (s.perform op).1.Declares c q := by
  -- What is declared after the operation was declared before it, at another path.
  suffices hafter : ∀ p', q ∈ (s.perform op).1.namesAt c p' → p' ≠ p ∧ q ∈ s.namesAt c p' by
    intro hq
    obtain ⟨p', hp'⟩ := (h.perform op).declares_iff.mp hq
    obtain ⟨hne, hbefore⟩ := hafter p' hp'
    exact hne (honly p' (h.declaresAt_iff.mpr hbefore))
  intro p' hq
  cases op with
  | deleteFile codebase path =>
    obtain ⟨rfl, rfl⟩ := hdrops
    rw [perform_deleteFile] at hq
    cases hd : s.deleteFile? codebase path with
    | none =>
      simp only [hd] at hq
      refine ⟨?_, hq⟩
      rintro rfl
      simp [namesAt_eq_nil hd] at hq
    | some s' =>
      simp only [hd, h.namesAt_deleteFile? hd, true_and] at hq
      split at hq
      · simp at hq
      · rename_i hne
        exact ⟨hne, hq⟩
  | replaceFile entry outline =>
    obtain ⟨rfl, rfl, hstorable, hnew⟩ := hdrops
    rw [perform_replaceFile] at hq
    rcases hr : s.replaceFile entry outline with ⟨e | id, s'⟩
    · obtain ⟨_, rfl⟩ := replaceFile_of_error hr
      simp only [hr] at hq
      refine ⟨?_, hq⟩
      rintro rfl
      simp [h.namesAt_eq_nil_of_error hr hstorable] at hq
    · simp only [hr, h.namesAt_replaceFile hr, true_and] at hq
      split at hq
      · exact absurd hq hnew
      · rename_i hne
        exact ⟨hne, hq⟩
  | upsertCodebase rootPath language name => exact hdrops.elim
  | deleteCodebase id => exact hdrops.elim
  | markIndexed id commit time => exact hdrops.elim

/-- When every outline that is written is closed, each call edge and each annotation is at a
name that a file of its codebase declares. So once the last file that declares a name is
deleted, or written without it, nothing is left at the name. -/
theorem records_stay_declared (hclosed : ∀ op ∈ ops, op.Closed) :
    (∀ r ∈ (after ops).calls.rows, (after ops).Declares r.data.owner r.data.item.caller) ∧
    (∀ r ∈ (after ops).annotations.rows,
      (after ops).Declares r.data.owner r.data.item.symbol) ∧
    ∀ c p q op, (after ops).DeclaresOnlyAt c p q → op.Closed → op.Drops c p q →
      (∀ r ∈ (after (ops ++ [op])).calls.rows, r.data.owner = c → r.data.item.caller ≠ q) ∧
      ∀ r ∈ (after (ops ++ [op])).annotations.rows, r.data.owner = c → r.data.item.symbol ≠ q := by
  refine ⟨calls_declared hclosed, annotations_declared hclosed, ?_⟩
  intro c p q op honly hop hdrops
  have hclosed' : ∀ op' ∈ ops ++ [op], op'.Closed := by
    intro op' hm
    rcases List.mem_append.mp hm with hm | hm
    · exact hclosed op' hm
    · rw [List.mem_singleton.mp hm]
      exact hop
  have hnone : ¬ (after (ops ++ [op])).Declares c q := by
    rw [after_append]
    exact (after_sound ops).not_declares_of_drops honly hdrops
  constructor
  · rintro r hr rfl rfl
    exact hnone (calls_declared hclosed' r hr)
  · rintro r hr rfl rfl
    exact hnone (annotations_declared hclosed' r hr)

namespace Sample

def entry (path : String) : FileEntry := ⟨1, path, "", "java", 1⟩

/-- Two files declare the same type, until one of them no longer does. -/
def shared : List Operation :=
  [.upsertCodebase "/r" "java" "r", .replaceFile (entry "A.java") (.sample "X"),
    .replaceFile (entry "B.java") (.sample "X"), .replaceFile (entry "A.java") {},
    .replaceFile (entry "B.java") (.sample "X")]

theorem declaresOnlyAt_shared : (after shared).DeclaresOnlyAt 1 "B.java" "X" := by
  have hrows : ∀ f ∈ (after shared).files.rows, ∀ r ∈ (after shared).symbols.rows,
      r.data.owner = f.id → f.data.path = "B.java" := by
    decide +kernel
  rintro path ⟨f, hf, _, rfl, r, hr, howner, _⟩
  exact hrows f hf r hr howner

end Sample

theorem records_stay_declared_sample :
    (after Sample.shared).calls.rows.length = 1 ∧
    (∀ r ∈ (after Sample.shared).calls.rows,
      (after Sample.shared).Declares r.data.owner r.data.item.caller) ∧
    (∀ r ∈ (after Sample.shared).annotations.rows,
      (after Sample.shared).Declares r.data.owner r.data.item.symbol) ∧
    (∀ r ∈ (after (Sample.shared ++ [.deleteFile 1 "B.java"])).calls.rows,
      r.data.owner = 1 → r.data.item.caller ≠ "X") ∧
    ∀ r ∈ (after (Sample.shared ++ [.deleteFile 1 "B.java"])).annotations.rows,
      r.data.owner = 1 → r.data.item.symbol ≠ "X" := by
  have hclosed : ∀ op ∈ Sample.shared, op.Closed := by decide
  obtain ⟨hcalls, hannotations, hlast⟩ := records_stay_declared hclosed
  refine ⟨by decide +kernel, hcalls, hannotations, ?_⟩
  exact hlast 1 "B.java" "X" _ Sample.declaresOnlyAt_shared trivial ⟨rfl, rfl⟩

end Store

end CodeAtlas
