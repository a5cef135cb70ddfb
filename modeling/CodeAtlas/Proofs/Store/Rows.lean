import CodeAtlas.Store.Basic
import Mathlib.Data.List.Nodup

/-! # Rows of tables

Ids of a table are distinct, and none is beyond the last one handed out; every operation
keeps that. The items of an owner, in order, are the view through which the tables of a
store are read.
-/

namespace CodeAtlas

/-- A search by a key that is unique finds exactly the element with that key. -/
theorem find?_key_eq_some_iff {α β : Type} [BEq β] [LawfulBEq β] {key : α → β} {xs : List α}
    (hn : (xs.map key).Nodup) {b : β} {a : α} :
    (xs.find? fun x => key x == b) = some a ↔ a ∈ xs ∧ key a = b := by
  constructor
  · intro hf
    exact ⟨List.mem_of_find?_eq_some hf, by simpa using List.find?_some hf⟩
  · rintro ⟨ha, rfl⟩
    cases hf : xs.find? fun x => key x == key a with
    | none =>
      have := List.find?_eq_none.mp hf a ha
      simp at this
    | some a' =>
      have hm := List.mem_of_find?_eq_some hf
      have hk : key a' = key a := by simpa using List.find?_some hf
      rw [List.inj_on_of_nodup_map hn hm ha hk]

namespace Table

variable {α : Type}

/-! ## Ids -/

/-- Ids are distinct, and all of them were handed out. -/
structure Numbered (t : Table α) : Prop where
  nodup : (t.rows.map Row.id).Nodup
  le_last : ∀ r ∈ t.rows, r.id ≤ t.lastId

theorem numbered_empty : ({} : Table α).Numbered := ⟨by simp, by simp⟩

theorem Numbered.ext {t : Table α} (h : t.Numbered) {r r' : Row α} (hr : r ∈ t.rows)
    (hr' : r' ∈ t.rows) (hi : r.id = r'.id) : r = r' :=
  List.inj_on_of_nodup_map h.nodup hr hr' hi

theorem number_id_bounds {last : Int} {as : List α} {r : Row α} (h : r ∈ number last as) :
    last < r.id ∧ r.id ≤ last + as.length := by
  induction as generalizing last with
  | nil => simp [number] at h
  | cons a as ih =>
    simp only [List.length_cons]
    rcases List.mem_cons.mp h with rfl | h
    · simp only; omega
    · have := ih h; omega

theorem number_nodup (last : Int) (as : List α) : ((number last as).map Row.id).Nodup := by
  induction as generalizing last with
  | nil => simp [number]
  | cons a as ih =>
    rw [number, List.map_cons, List.nodup_cons]
    refine ⟨?_, ih _⟩
    intro hm
    obtain ⟨r, hr, he⟩ := List.mem_map.mp hm
    have := (number_id_bounds hr).1
    simp only at he
    omega

theorem Numbered.insertAll {t : Table α} (h : t.Numbered) (as : List α) :
    (t.insertAll as).Numbered where
  nodup := by
    rw [Table.insertAll, List.map_append, List.nodup_append]
    refine ⟨h.nodup, number_nodup _ _, ?_⟩
    intro a ha b hb
    obtain ⟨r, hr, rfl⟩ := List.mem_map.mp ha
    obtain ⟨r', hr', rfl⟩ := List.mem_map.mp hb
    have h₁ := h.le_last r hr
    have h₂ := (number_id_bounds hr').1
    omega
  le_last r hr := by
    simp only [Table.insertAll] at hr ⊢
    rcases List.mem_append.mp hr with hr | hr
    · have := h.le_last r hr; omega
    · exact (number_id_bounds hr).2

theorem Numbered.erase {t : Table α} (h : t.Numbered) (p : Row α → Bool) :
    (t.erase p).Numbered :=
  ⟨h.nodup.sublist (List.filter_sublist.map _),
    fun r hr => h.le_last r (List.mem_of_mem_filter hr)⟩

theorem Numbered.skipId {t : Table α} (h : t.Numbered) : t.skipId.Numbered :=
  ⟨h.nodup, fun r hr => by have := h.le_last r hr; simp only [Table.skipId]; omega⟩

theorem map_id_set (t : Table α) (id : Int) (a : α) :
    (t.set id a).rows.map Row.id = t.rows.map Row.id := by
  rw [Table.set, List.map_map]
  refine List.map_congr_left fun r _ => ?_
  by_cases h : r.id = id <;> simp [h]

theorem Numbered.set {t : Table α} (h : t.Numbered) (id : Int) (a : α) :
    (t.set id a).Numbered where
  nodup := by rw [map_id_set]; exact h.nodup
  le_last r hr := by
    have hm : r.id ∈ t.rows.map Row.id := by
      rw [← map_id_set t id a]
      exact List.mem_map_of_mem hr
    obtain ⟨r', hr', he⟩ := List.mem_map.mp hm
    exact he ▸ h.le_last r' hr'

theorem mem_set {t : Table α} {id : Int} {a : α} {r : Row α} (hi : ∃ r ∈ t.rows, r.id = id) :
    r ∈ (t.set id a).rows ↔ r = ⟨id, a⟩ ∨ (r ∈ t.rows ∧ r.id ≠ id) := by
  simp only [Table.set, List.mem_map]
  constructor
  · rintro ⟨r', hr', rfl⟩
    by_cases h : r'.id = id
    · exact .inl (by simp [h])
    · exact .inr (by simpa [h] using hr')
  · rintro (rfl | ⟨hr, hne⟩)
    · obtain ⟨r', hr', rfl⟩ := hi
      exact ⟨r', hr', by simp⟩
    · exact ⟨r, hr, by simp [hne]⟩

theorem mem_insert {t : Table α} {a : α} {r : Row α} :
    r ∈ (t.insert a).rows ↔ r ∈ t.rows ∨ r = ⟨t.lastId + 1, a⟩ := by
  simp [Table.insert, Table.insertAll, number]

theorem mem_erase {t : Table α} {p : Row α → Bool} {r : Row α} :
    r ∈ (t.erase p).rows ↔ r ∈ t.rows ∧ p r = false := by
  simp [Table.erase]

theorem Numbered.get?_eq_some_iff {t : Table α} (h : t.Numbered) {id : Int} {r : Row α} :
    t.get? id = some r ↔ r ∈ t.rows ∧ r.id = id :=
  find?_key_eq_some_iff h.nodup

/-! ## Keys -/

section Keys

variable {β : Type} (key : α → β)

theorem nodup_key_insert {t : Table α} {a : α} (hn : (t.rows.map fun r => key r.data).Nodup)
    (ha : ∀ r ∈ t.rows, key r.data ≠ key a) :
    ((t.insert a).rows.map fun r => key r.data).Nodup := by
  simp only [Table.insert, Table.insertAll, number, List.map_append, List.map_cons, List.map_nil]
  rw [List.nodup_append]
  refine ⟨hn, List.nodup_singleton _, ?_⟩
  intro b hb c hc
  obtain ⟨r, hr, rfl⟩ := List.mem_map.mp hb
  rw [List.mem_singleton.mp hc]
  exact ha r hr

/-- A row that is replaced by one with the same key leaves the keys as they are. -/
theorem map_key_set {t : Table α} (h : t.Numbered) {r : Row α} (hr : r ∈ t.rows) {a : α}
    (ha : key a = key r.data) :
    ((t.set r.id a).rows.map fun x => key x.data) = t.rows.map fun x => key x.data := by
  rw [Table.set, List.map_map]
  refine List.map_congr_left fun x hx => ?_
  by_cases hi : x.id = r.id
  · obtain rfl := h.ext hx hr hi
    simp [ha]
  · simp [hi]

end Keys

/-! ## Owners -/

theorem map_data_number (last : Int) (as : List α) : (number last as).map Row.data = as := by
  induction as generalizing last with
  | nil => rfl
  | cons a as ih => simp [number, ih]

theorem owner_of_mem_number {last o : Int} {as : List α} {r : Row (Owned α)}
    (h : r ∈ number last (as.map fun a => ⟨o, a⟩)) : r.data.owner = o := by
  have hd : r.data ∈ as.map fun a => (⟨o, a⟩ : Owned α) := by
    rw [← map_data_number last (as.map fun a => (⟨o, a⟩ : Owned α))]
    exact List.mem_map_of_mem h
  obtain ⟨a, _, he⟩ := List.mem_map.mp hd
  rw [← he]

theorem owner_of_mem_insertAll {t : Table (Owned α)} {o : Int} {as : List α} {r : Row (Owned α)}
    (h : r ∈ (t.insertAll (as.map fun a => ⟨o, a⟩)).rows) : r ∈ t.rows ∨ r.data.owner = o := by
  rcases List.mem_append.mp h with h | h
  · exact .inl h
  · exact .inr (owner_of_mem_number h)

def ownedBy (t : Table (Owned α)) (owner : Int) : List α :=
  (t.rows.filter fun r => r.data.owner == owner).map fun r => r.data.item

theorem ownedBy_eq (t : Table (Owned α)) (owner : Int) :
    t.ownedBy owner = ((t.rows.map Row.data).filter fun d => d.owner == owner).map Owned.item := by
  simp [ownedBy, List.filter_map, Function.comp_def]

theorem ownedBy_insertAll (t : Table (Owned α)) (o : Int) (as : List α) (owner : Int) :
    (t.insertAll (as.map fun a => ⟨o, a⟩)).ownedBy owner =
      t.ownedBy owner ++ if o = owner then as else [] := by
  rw [ownedBy_eq, ownedBy_eq, Table.insertAll, List.map_append, map_data_number,
    List.filter_append, List.map_append]
  congr 1
  by_cases h : o = owner <;> simp [List.filter_map, Function.comp_def, h]

theorem ownedBy_erase (t : Table (Owned α)) (p : Owned α → Bool) (owner : Int) :
    (t.erase fun r => p r.data).ownedBy owner =
      (t.ownedBy owner).filter fun a => !p ⟨owner, a⟩ := by
  simp only [ownedBy, Table.erase, List.filter_filter, List.filter_map, List.filter_filter]
  congr 1
  refine List.filter_congr fun r _ => ?_
  by_cases h : r.data.owner = owner
  · subst h; simp
  · simp [beq_eq_false_iff_ne.mpr h]

theorem ownedBy_erase_owners (t : Table (Owned α)) (p : Int → Bool) (owner : Int) :
    (t.erase fun r => p r.data.owner).ownedBy owner =
      if p owner = true then [] else t.ownedBy owner := by
  rw [ownedBy_erase t (fun d => p d.owner) owner]
  cases h : p owner <;> simp [h]

theorem ownedBy_eq_nil {t : Table (Owned α)} {owner : Int}
    (h : ∀ r ∈ t.rows, r.data.owner ≠ owner) : t.ownedBy owner = [] := by
  have : t.rows.filter (fun r => r.data.owner == owner) = [] := by simpa using h
  rw [ownedBy, this, List.map_nil]

end Table

end CodeAtlas
