import CodeAtlas.Proofs.Store.Attached
import CodeAtlas.Proofs.Store.Histories

/-! # A store is a catalog of files

A catalog has one file at each path of a codebase, as it was last written. A store follows
one: as long as the files of a codebase declare different names, and what they yield is at
names of their own, its rows are those of the files in the catalog, whatever came before.
-/

namespace CodeAtlas

open scoped List

/-- A file as it was written. -/
structure Written where
  entry : FileEntry
  outline : Outline
  deriving Repr, DecidableEq

namespace Written

def key (w : Written) : Int × String := (w.entry.codebase, w.entry.path)

def stored (w : Written) : StoredFile := ⟨w.entry, w.outline.symbols, w.outline.imports⟩

end Written

/-- Which codebases there are, and their files as they were last written. -/
structure Catalog where
  codebases : List Int := []
  files : List Written := []
  deriving Repr, DecidableEq

namespace Catalog

variable {m : Catalog} {w : Written} {c : Int} {p : String}

def filesOf (m : Catalog) (c : Int) : List Written := m.files.filter fun w => w.entry.codebase = c

def erase (m : Catalog) (c : Int) (p : String) : Catalog :=
  { m with files := m.files.filter fun w => w.key ≠ (c, p) }

/-- The catalog with a file in the place of the one at its path. -/
def write (m : Catalog) (w : Written) : Catalog :=
  { m with files := (m.erase w.entry.codebase w.entry.path).files ++ [w] }

def eraseCodebase (m : Catalog) (c : Int) : Catalog :=
  ⟨m.codebases.filter (· ≠ c), m.files.filter fun w => w.entry.codebase ≠ c⟩

/-- The catalog after an operation of a store. Only the id that the store gave to a codebase
is taken from its reply. -/
def next (m : Catalog) : Store.Operation → Store.Reply → Catalog
  | .upsertCodebase _ _ _, .codebase row => { m with codebases := m.codebases.insert row.id }
  | .replaceFile entry outline, _ =>
    if entry.codebase ∈ m.codebases ∧ outline.Storable then m.write ⟨entry, outline⟩ else m
  | .deleteFile codebase path, _ => m.erase codebase path
  | .deleteCodebase id, _ => m.eraseCodebase id
  | _, _ => m

theorem mem_filesOf : w ∈ m.filesOf c ↔ w ∈ m.files ∧ w.entry.codebase = c := by
  simp [filesOf]

theorem mem_erase : w ∈ (m.erase c p).files ↔ w ∈ m.files ∧ w.key ≠ (c, p) := by
  simp [erase]

theorem mem_write {w' : Written} :
    w' ∈ (m.write w).files ↔ (w' ∈ m.files ∧ w'.key ≠ w.key) ∨ w' = w := by
  simp [write, mem_erase, Written.key]

theorem mem_eraseCodebase :
    w ∈ (m.eraseCodebase c).files ↔ w ∈ m.files ∧ w.entry.codebase ≠ c := by
  simp [eraseCodebase]

theorem filesOf_erase (c' : Int) :
    (m.erase c p).filesOf c' = (m.filesOf c').filter fun w => w.key ≠ (c, p) := by
  simp only [filesOf, erase, List.filter_filter]
  exact List.filter_congr fun w _ => Bool.and_comm _ _

theorem filesOf_erase_of_ne {c' : Int} (hc : c' ≠ c) : (m.erase c p).filesOf c' = m.filesOf c' := by
  rw [filesOf_erase, List.filter_eq_self]
  intro w hw
  have hcw := (mem_filesOf.mp hw).2
  simp [Written.key, hcw, hc]

theorem filesOf_write (c : Int) :
    (m.write w).filesOf c = (m.erase w.entry.codebase w.entry.path).filesOf c ++
      if w.entry.codebase = c then [w] else [] := by
  simp only [filesOf, write, List.filter_append]
  by_cases hc : w.entry.codebase = c <;> simp [hc]

theorem filesOf_eraseCodebase (c' : Int) :
    (m.eraseCodebase c).filesOf c' = if c' = c then [] else m.filesOf c' := by
  simp only [filesOf, eraseCodebase, List.filter_filter]
  split
  · rename_i hc
    simp [hc]
  · rename_i hc
    refine List.filter_congr fun w _ => ?_
    by_cases hw : w.entry.codebase = c' <;> simp [hw, hc]

end Catalog

namespace Store

variable {s s' : Store} {m : Catalog}

/-- An outline that is written is closed and shares no name with the files at other paths of
its codebase. -/
def Operation.Fits (m : Catalog) : Operation → Prop
  | .replaceFile entry outline => outline.Closed ∧
    ∀ w ∈ m.filesOf entry.codebase, w.entry.path ≠ entry.path →
      ∀ q ∈ outline.names, q ∉ w.outline.names
  | _ => True

instance (m : Catalog) : (op : Operation) → Decidable (op.Fits m)
  | .replaceFile entry outline => inferInstanceAs (Decidable (outline.Closed ∧
    ∀ w ∈ m.filesOf entry.codebase, w.entry.path ≠ entry.path →
      ∀ q ∈ outline.names, q ∉ w.outline.names))
  | .upsertCodebase _ _ _ => .isTrue trivial
  | .deleteFile _ _ => .isTrue trivial
  | .deleteCodebase _ => .isTrue trivial
  | .markIndexed _ _ _ => .isTrue trivial

end Store

/-! ## What a catalog keeps -/

/-- The files of a catalog have different paths, closed outlines, and names of their own. -/
structure Catalog.Tidy (m : Catalog) : Prop where
  nodup : (m.files.map Written.key).Nodup
  closed : ∀ w ∈ m.files, w.outline.Closed
  apart : ∀ w ∈ m.files, ∀ w' ∈ m.files, w.entry.codebase = w'.entry.codebase →
    w.entry.path ≠ w'.entry.path → ∀ q ∈ w.outline.names, q ∉ w'.outline.names

namespace Catalog.Tidy

variable {m : Catalog} {w : Written} {c : Int} {p : String}

theorem filter (h : m.Tidy) {m' : Catalog} {keep : Written → Bool}
    (hfiles : m'.files = m.files.filter keep) : m'.Tidy where
  nodup := by
    rw [hfiles]
    exact h.nodup.sublist (List.filter_sublist.map _)
  closed w hw := by
    rw [hfiles] at hw
    exact h.closed w (List.mem_of_mem_filter hw)
  apart w hw w' hw' := by
    rw [hfiles] at hw hw'
    exact h.apart w (List.mem_of_mem_filter hw) w' (List.mem_of_mem_filter hw')

theorem write (h : m.Tidy) (hclosed : w.outline.Closed)
    (hapart : ∀ w' ∈ m.filesOf w.entry.codebase, w'.entry.path ≠ w.entry.path →
      ∀ q ∈ w.outline.names, q ∉ w'.outline.names) : (m.write w).Tidy where
  nodup := by
    rw [Catalog.write, List.map_append, List.nodup_append]
    have herase : (m.erase w.entry.codebase w.entry.path).Tidy := h.filter rfl
    refine ⟨herase.nodup, List.nodup_singleton _, ?_⟩
    intro k hk k' hk'
    obtain ⟨w', hw', rfl⟩ := List.mem_map.mp hk
    rw [List.mem_singleton.mp hk']
    exact (mem_erase.mp hw').2
  closed w' hw' := by
    rcases mem_write.mp hw' with ⟨hm, _⟩ | rfl
    · exact h.closed w' hm
    · exact hclosed
  apart := by
    intro w₁ h₁ w₂ h₂ hc hp
    rcases mem_write.mp h₁ with ⟨hm₁, _⟩ | rfl
    · rcases mem_write.mp h₂ with ⟨hm₂, _⟩ | rfl
      · exact h.apart w₁ hm₁ w₂ hm₂ hc hp
      · intro q hq₁ hq₂
        exact hapart w₁ (mem_filesOf.mpr ⟨hm₁, hc⟩) hp q hq₂ hq₁
    · rcases mem_write.mp h₂ with ⟨hm₂, _⟩ | rfl
      · exact hapart w₂ (mem_filesOf.mpr ⟨hm₂, hc.symm⟩) (Ne.symm hp)
      · exact absurd rfl hp

theorem next (h : m.Tidy) {op : Store.Operation} (hfits : op.Fits m) (reply : Store.Reply) :
    (m.next op reply).Tidy := by
  cases op with
  | upsertCodebase rootPath language name =>
    cases reply <;> exact { h with }
  | replaceFile entry outline =>
    rw [Catalog.next]
    split
    · exact h.write hfits.1 hfits.2
    · exact h
  | deleteFile codebase path => exact h.filter rfl
  | deleteCodebase id => exact h.filter rfl
  | markIndexed id commit time => exact h

end Catalog.Tidy

/-! ## Files -/

namespace Store

variable {s s' : Store} {m : Catalog} {op : Operation}

theorem hasCodebase_iff {c : Int} : s.HasCodebase c ↔ ∃ r ∈ s.registrations, r.id = c := by
  simp [HasCodebase, registrations, registrationOf]

theorem hasCodebase_upsertCodebase {rootPath language name : String} {c : Int} :
    (s.upsertCodebase rootPath language name).1.HasCodebase c ↔
      s.HasCodebase c ∨ c = (s.upsertCodebase rootPath language name).2.id := by
  cases hat : s.codebaseAt? rootPath with
  | some row =>
    have hrow : s.HasCodebase row.id := ⟨row, List.mem_of_find?_eq_some hat, rfl⟩
    simp only [upsertCodebase, hat]
    constructor
    · intro hc
      exact .inl hc
    · rintro (hc | rfl)
      · exact hc
      · exact hrow
  | none =>
    simp only [hasCodebase_iff, mem_registrations_upsertCodebase hat]
    simp only [upsertCodebase, hat]
    constructor
    · rintro ⟨r, hr | rfl, rfl⟩
      · exact .inl ⟨r, hr, rfl⟩
      · exact .inr rfl
    · rintro (⟨r, hr, rfl⟩ | rfl)
      · exact ⟨r, .inl hr, rfl⟩
      · exact ⟨_, .inr rfl, rfl⟩

/-- A store has the codebases and the files of a catalog. -/
structure Represents (s : Store) (m : Catalog) : Prop where
  codebases : ∀ c, s.HasCodebase c ↔ c ∈ m.codebases
  stored : ∀ c p x, s.storedAt? c p = some x ↔ ∃ w ∈ m.files, w.key = (c, p) ∧ w.stored = x

namespace Represents

theorem mem_namesAt (h : s.Represents m) {c : Int} {p q : String} :
    q ∈ s.namesAt c p ↔ ∃ w ∈ m.files, w.key = (c, p) ∧ q ∈ w.outline.names := by
  constructor
  · intro hq
    cases hat : s.storedAt? c p with
    | none => simp [namesAt, hat] at hq
    | some x =>
      obtain ⟨w, hw, hk, rfl⟩ := (h.stored c p x).mp hat
      simp only [namesAt, hat, Option.map_some, Option.getD_some] at hq
      exact ⟨w, hw, hk, hq⟩
  · rintro ⟨w, hw, hk, hq⟩
    have hat := (h.stored c p w.stored).mpr ⟨w, hw, hk, rfl⟩
    simp only [namesAt, hat, Option.map_some, Option.getD_some]
    exact hq

theorem hasCodebase_of_mem (h : s.Represents m) (hs : s.Sound) {w : Written} (hw : w ∈ m.files) :
    s.HasCodebase w.entry.codebase := by
  have hat := (h.stored _ _ _).mpr ⟨w, hw, rfl, rfl⟩
  exact hs.hasCodebase_of_storedAt? hat

theorem next_of_isRefusal (h : s.Represents m) (hs : s.Sound) (op : Operation)
    (hrefused : (s.perform op).2.isRefusal = true) : m.next op (s.perform op).2 = m := by
  have hop := (isRefusal_iff op).mp hrefused
  cases op with
  | upsertCodebase rootPath language name => exact absurd trivial hop
  | replaceFile entry outline =>
    have hnone : ¬ (entry.codebase ∈ m.codebases ∧ outline.Storable) :=
      fun hc => hop ⟨(h.codebases _).mpr hc.1, hc.2⟩
    rw [Catalog.next, if_neg hnone]
  | deleteFile codebase path =>
    have hkeep : m.files.filter (fun w => w.key ≠ (codebase, path)) = m.files := by
      rw [List.filter_eq_self]
      intro w hw
      rw [decide_eq_true_eq]
      intro hk
      exact hop ⟨_, (h.stored _ _ _).mpr ⟨w, hw, hk, rfl⟩⟩
    rw [Catalog.next, Catalog.erase, hkeep]
  | deleteCodebase id =>
    have hcodebases : m.codebases.filter (· ≠ id) = m.codebases := by
      rw [List.filter_eq_self]
      intro c hc
      rw [decide_eq_true_eq]
      rintro rfl
      exact hop ((h.codebases _).mpr hc)
    have hfiles : m.files.filter (fun w => w.entry.codebase ≠ id) = m.files := by
      rw [List.filter_eq_self]
      intro w hw
      rw [decide_eq_true_eq]
      rintro rfl
      exact hop (h.hasCodebase_of_mem hs hw)
    rw [Catalog.next, Catalog.eraseCodebase, hcodebases, hfiles]
  | markIndexed id commit time => exact absurd trivial hop

theorem replaceFile (h : s.Represents m) (hs : s.Sound) {entry : FileEntry} {outline : Outline}
    {id : Int} (hr : s.replaceFile entry outline = (.ok id, s')) :
    s'.Represents (m.write ⟨entry, outline⟩) where
  codebases c := by
    rw [hasCodebase_iff, registrations_replaceFile hr, ← hasCodebase_iff]
    exact h.codebases c
  stored c p x := by
    rw [hs.storedAt?_replaceFile hr]
    split
    · rename_i hk
      obtain ⟨rfl, rfl⟩ := hk
      constructor
      · intro hx
        exact ⟨⟨entry, outline⟩, Catalog.mem_write.mpr (.inr rfl), rfl, Option.some.inj hx⟩
      · rintro ⟨w, hw, hk, rfl⟩
        rcases Catalog.mem_write.mp hw with ⟨_, hne⟩ | rfl
        · exact absurd hk hne
        · rfl
    · rename_i hk
      rw [h.stored]
      refine exists_congr fun w => and_congr_left ?_
      rintro ⟨hkey, _⟩
      rw [Catalog.mem_write]
      constructor
      · intro hw
        refine .inl ⟨hw, ?_⟩
        rw [hkey]
        exact fun heq => hk (Prod.mk.inj heq)
      · rintro (⟨hw, _⟩ | rfl)
        · exact hw
        · exact absurd (Prod.mk.inj hkey.symm) hk

theorem deleteFile? (h : s.Represents m) (hs : s.Sound) {c : Int} {p : String}
    (hd : s.deleteFile? c p = some s') : s'.Represents (m.erase c p) where
  codebases o := by
    rw [hasCodebase_iff, registrations_deleteFile? hd, ← hasCodebase_iff]
    exact h.codebases o
  stored c' p' x := by
    rw [hs.storedAt?_deleteFile? hd]
    simp only [Catalog.mem_erase]
    split
    · rename_i hk
      obtain ⟨rfl, rfl⟩ := hk
      constructor
      · intro hx
        simp at hx
      · rintro ⟨w, ⟨_, hne⟩, hk, _⟩
        exact absurd hk hne
    · rename_i hk
      rw [h.stored]
      refine exists_congr fun w => and_congr_left ?_
      rintro ⟨hkey, _⟩
      constructor
      · intro hw
        refine ⟨hw, ?_⟩
        rw [hkey]
        exact fun heq => hk (Prod.mk.inj heq)
      · exact And.left

theorem deleteCodebase? (h : s.Represents m) (hs : s.Sound) {id : Int}
    (hd : s.deleteCodebase? id = some s') : s'.Represents (m.eraseCodebase id) where
  codebases c := by
    have hbefore := h.codebases c
    simp only [hasCodebase_iff, mem_registrations_deleteCodebase? hd] at hbefore ⊢
    simp only [Catalog.eraseCodebase, List.mem_filter, decide_eq_true_eq, ← hbefore]
    constructor
    · rintro ⟨r, ⟨hr, hne⟩, rfl⟩
      exact ⟨⟨r, hr, rfl⟩, hne⟩
    · rintro ⟨⟨r, hr, rfl⟩, hne⟩
      exact ⟨r, ⟨hr, hne⟩, rfl⟩
  stored c p x := by
    rw [hs.storedAt?_deleteCodebase? hd]
    simp only [Catalog.mem_eraseCodebase]
    split
    · rename_i hc
      subst hc
      constructor
      · intro hx
        simp at hx
      · rintro ⟨w, ⟨_, hne⟩, hk, _⟩
        exact absurd (Prod.mk.inj hk).1 hne
    · rename_i hc
      rw [h.stored]
      refine exists_congr fun w => and_congr_left ?_
      rintro ⟨hkey, _⟩
      constructor
      · intro hw
        refine ⟨hw, ?_⟩
        rw [(Prod.mk.inj hkey).1]
        exact hc
      · exact And.left

theorem perform (h : s.Represents m) (hs : s.Sound) (op : Operation) :
    (s.perform op).1.Represents (m.next op (s.perform op).2) := by
  have hrefused := h.next_of_isRefusal hs op
  have hp := performed s op
  generalize s.perform op = result at hp hrefused
  cases hp with
  | refused reply hr =>
    rw [hrefused hr]
    exact h
  | upserted rootPath language name =>
    constructor
    · intro c
      rw [hasCodebase_upsertCodebase, h.codebases]
      simp [Catalog.next, or_comm]
    · intro c p x
      rw [storedAt?_upsertCodebase]
      exact h.stored c p x
  | replaced hr =>
    obtain ⟨hc, hstorable⟩ := (replaceFile_eq hr).1
    rw [Catalog.next, if_pos ⟨(h.codebases _).mp hc, hstorable⟩]
    exact h.replaceFile hs hr
  | fileDeleted hd => exact h.deleteFile? hs hd
  | codebaseDeleted hd => exact h.deleteCodebase? hs hd
  | marked id commit time =>
    constructor
    · intro c
      rw [hasCodebase_iff, hs.registrations_markIndexed, ← hasCodebase_iff]
      exact h.codebases c
    · intro c p x
      rw [storedAt?_markIndexed]
      exact h.stored c p x

theorem storedFiles_perm (h : s.Represents m) (hs : s.Sound) (hm : m.Tidy) (c : Int) :
    (s.storedFiles c).Perm ((m.filesOf c).map Written.stored) := by
  have hkeys : ((m.filesOf c).map Written.key).Nodup :=
    hm.nodup.sublist (List.filter_sublist.map _)
  have hnodup : ((m.filesOf c).map Written.stored).Nodup := by
    refine List.Nodup.of_map (fun x => (x.entry.codebase, x.entry.path)) ?_
    rw [List.map_map]
    exact hkeys
  apply (List.perm_ext_iff_of_nodup (hs.storedFiles_nodup c).of_map hnodup).mpr
  intro x
  rw [hs.mem_storedFiles_iff, h.stored, List.mem_map]
  constructor
  · rintro ⟨w, hw, hk, rfl⟩
    exact ⟨w, Catalog.mem_filesOf.mpr ⟨hw, (Prod.mk.inj hk).1⟩, rfl⟩
  · rintro ⟨w, hw, rfl⟩
    obtain ⟨hwm, rfl⟩ := Catalog.mem_filesOf.mp hw
    exact ⟨w, hwm, rfl, rfl⟩

end Represents

end Store

/-! ## Call edges and annotations -/

namespace Attached

variable {α : Type} {v : Attached α} {s s' : Store} {m : Catalog}

/-- The records that the files of a codebase have in a catalog. -/
def listed (v : Attached α) (m : Catalog) (c : Int) : List α :=
  (m.filesOf c).flatMap fun w => v.items w.outline

/-- Dropping the records at the names of a file drops those of the file and no others. -/
theorem without_listed (h : s.Represents m) (hm : m.Tidy) (c : Int) (p : String) :
    v.without (s.namesAt c p) (v.listed m c) = v.listed (m.erase c p) c := by
  have hfile : ∀ w ∈ m.filesOf c, decide (w.key ≠ (c, p)) = false →
      v.without (s.namesAt c p) (v.items w.outline) = [] := by
    intro w hw hk
    apply without_eq_nil
    intro a ha
    have hwm := (Catalog.mem_filesOf.mp hw).1
    refine h.mem_namesAt.mpr ⟨w, hwm, by simpa using hk, ?_⟩
    exact v.closed_items (hm.closed w hwm) a ha
  have hothers : ∀ w ∈ (m.filesOf c).filter fun w => w.key ≠ (c, p),
      v.without (s.namesAt c p) (v.items w.outline) = v.items w.outline := by
    intro w hw
    obtain ⟨hwc, hk⟩ := List.mem_filter.mp hw
    obtain ⟨hwm, rfl⟩ := Catalog.mem_filesOf.mp hwc
    rw [without, List.filter_eq_self]
    intro a ha
    have hname := v.closed_items (hm.closed w hwm) a ha
    have hnot : v.name a ∉ s.namesAt w.entry.codebase p := by
      intro hq
      obtain ⟨w', hw', hk', hq'⟩ := h.mem_namesAt.mp hq
      obtain ⟨hc', rfl⟩ := Prod.mk.inj hk'
      have hp : w.entry.path ≠ w'.entry.path := by
        intro he
        simp [Written.key, he] at hk
      exact hm.apart w hwm w' hw' hc'.symm hp _ hname hq'
    simpa using hnot
  rw [listed, without_flatMap, flatMap_eq_flatMap_filter _ hfile, listed, Catalog.filesOf_erase]
  exact List.flatMap_congr hothers

/-- A codebase holds the records of its files in a catalog, in some order. -/
def Holds (v : Attached α) (s : Store) (m : Catalog) : Prop :=
  ∀ c, (v.held s c).Perm (v.listed m c)

theorem listed_erase_of_ne {c o : Int} (ho : o ≠ c) (p : String) :
    v.listed (m.erase c p) o = v.listed m o := by
  rw [listed, Catalog.filesOf_erase_of_ne ho, listed]

theorem Holds.replaceFile (hv : v.Holds s m) (hs : s.Sound) (h : s.Represents m) (hm : m.Tidy)
    {entry : FileEntry} {outline : Outline} {id : Int}
    (hr : s.replaceFile entry outline = (.ok id, s')) : v.Holds s' (m.write ⟨entry, outline⟩) := by
  intro c
  have hlisted : v.listed (m.write ⟨entry, outline⟩) c =
      v.listed (m.erase entry.codebase entry.path) c ++
        if entry.codebase = c then v.items outline else [] := by
    rw [listed, Catalog.filesOf_write, List.flatMap_append, listed]
    by_cases hc : entry.codebase = c <;> simp [hc]
  rw [hlisted]
  by_cases hc : c = entry.codebase
  · subst hc
    rw [v.held_replaceFile hs hr, if_pos rfl, ← without_listed h hm]
    exact (without_perm (hv _)).append_right _
  · rw [v.held_replaceFile_of_ne hr hc, if_neg (Ne.symm hc), List.append_nil,
      listed_erase_of_ne hc]
    exact hv c

theorem Holds.deleteFile? (hv : v.Holds s m) (h : s.Represents m) (hm : m.Tidy) {c : Int}
    {p : String} (hd : s.deleteFile? c p = some s') : v.Holds s' (m.erase c p) := by
  intro o
  by_cases ho : o = c
  · subst ho
    rw [v.held_deleteFile? hd, ← without_listed h hm]
    exact without_perm (hv _)
  · rw [v.held_deleteFile?_of_ne hd ho, listed_erase_of_ne ho]
    exact hv o

theorem Holds.deleteCodebase? (hv : v.Holds s m) {id : Int}
    (hd : s.deleteCodebase? id = some s') : v.Holds s' (m.eraseCodebase id) := by
  intro c
  rw [v.held_deleteCodebase? hd, listed, Catalog.filesOf_eraseCodebase]
  split
  · exact .nil
  · exact hv c

theorem Holds.perform (hv : v.Holds s m) (hs : s.Sound) (h : s.Represents m) (hm : m.Tidy)
    (op : Store.Operation) : v.Holds (s.perform op).1 (m.next op (s.perform op).2) := by
  have hrefused := h.next_of_isRefusal hs op
  have hp := Store.performed s op
  generalize s.perform op = result at hp hrefused
  cases hp with
  | refused reply hr =>
    rw [hrefused hr]
    exact hv
  | upserted rootPath language name =>
    intro c
    rw [v.held_upsertCodebase]
    exact hv c
  | replaced hr =>
    obtain ⟨hc, hstorable⟩ := (Store.replaceFile_eq hr).1
    rw [Catalog.next, if_pos ⟨(h.codebases _).mp hc, hstorable⟩]
    exact hv.replaceFile hs h hm hr
  | fileDeleted hd => exact hv.deleteFile? h hm hd
  | codebaseDeleted hd => exact hv.deleteCodebase? hd
  | marked id commit time =>
    intro c
    rw [v.held_markIndexed]
    exact hv c

end Attached

/-! ## Histories -/

namespace Store

variable {s : Store} {m : Catalog} {ops : List Operation}

/-- A store and a catalog after an operation on both. -/
def track (x : Store × Catalog) (op : Operation) : Store × Catalog :=
  ((x.1.perform op).1, x.2.next op (x.1.perform op).2)

/-- The catalog after operations on an empty store. -/
def catalog (ops : List Operation) : Catalog := (ops.foldl track ({}, {})).2

/-- Every operation fits the catalog of those before it. -/
def Fitting (x : Store × Catalog) : List Operation → Prop
  | [] => True
  | op :: rest => op.Fits x.2 ∧ Fitting (track x op) rest

instance decidableFitting : (x : Store × Catalog) → (ops : List Operation) →
    Decidable (Fitting x ops)
  | _, [] => .isTrue trivial
  | x, op :: rest =>
    have := decidableFitting (track x op) rest
    inferInstanceAs (Decidable (op.Fits x.2 ∧ Fitting (track x op) rest))

/-- A store has what a catalog lists. -/
structure Follows (s : Store) (m : Catalog) : Prop where
  sound : s.Sound
  tidy : m.Tidy
  represents : s.Represents m
  calls : Attached.calls.Holds s m
  annotations : Attached.annotations.Holds s m

theorem follows_empty : Follows {} {} where
  sound := sound_empty
  tidy := ⟨by simp, by simp, by simp⟩
  represents := ⟨by simp [HasCodebase], by simp [storedAt?, file?, Table.find?]⟩
  calls _ := .nil
  annotations _ := .nil

theorem Follows.perform (h : s.Follows m) {op : Operation} (hfits : op.Fits m) :
    (s.perform op).1.Follows (m.next op (s.perform op).2) where
  sound := h.sound.perform op
  tidy := h.tidy.next hfits _
  represents := h.represents.perform h.sound op
  calls := h.calls.perform h.sound h.represents h.tidy op
  annotations := h.annotations.perform h.sound h.represents h.tidy op

theorem Follows.run {x : Store × Catalog} (h : x.1.Follows x.2) (hops : Fitting x ops) :
    (ops.foldl track x).1.Follows (ops.foldl track x).2 := by
  induction ops generalizing x with
  | nil => exact h
  | cons op rest ih => exact ih (h.perform hops.1) hops.2

theorem foldl_track_fst (x : Store × Catalog) :
    (ops.foldl track x).1 = ops.foldl (fun s op => (s.perform op).1) x.1 := by
  induction ops generalizing x with
  | nil => rfl
  | cons op rest ih => exact ih (track x op)

theorem after_follows (hops : Fitting ({}, {}) ops) : (after ops).Follows (catalog ops) := by
  have hrun := follows_empty.run (x := ({}, {})) hops
  rw [foldl_track_fst] at hrun
  exact hrun

/-- A store has the codebases of its catalog, and for each the rows of its files there: one
file at a path, with its symbols and imports in order, and the call edges and annotations of
all files. -/
theorem after_matches_catalog (hops : Fitting ({}, {}) ops) :
    (after ops).Sound ∧ ((catalog ops).files.map Written.key).Nodup ∧
    (∀ c, (after ops).HasCodebase c ↔ c ∈ (catalog ops).codebases) ∧
    ∀ c, ((after ops).storedFiles c).Perm (((catalog ops).filesOf c).map Written.stored) ∧
      ((after ops).calls.ownedBy c).Perm
        (((catalog ops).filesOf c).flatMap fun w => w.outline.calls) ∧
      ((after ops).annotations.ownedBy c).Perm
        (((catalog ops).filesOf c).flatMap fun w => w.outline.annotations) := by
  have h := after_follows hops
  refine ⟨h.sound, h.tidy.nodup, h.represents.codebases, ?_⟩
  intro c
  exact ⟨h.represents.storedFiles_perm h.sound h.tidy c, h.calls c, h.annotations c⟩

namespace Sample

/-- Two codebases have a file at the same path; in the first one it is written over, and
another file comes and goes. -/
def written : List Operation :=
  [.upsertCodebase "/r" "java" "r", .upsertCodebase "/q" "java" "q",
    .replaceFile ⟨1, "A.java", "", "java", 1⟩ (Outline.sample "X"),
    .replaceFile ⟨2, "A.java", "", "java", 1⟩ (Outline.sample "X"),
    .replaceFile ⟨1, "B.java", "", "java", 1⟩ (Outline.sample "Z"),
    .replaceFile ⟨1, "A.java", "", "java", 2⟩ (Outline.sample "W"),
    .deleteFile 1 "B.java"]

end Sample

theorem after_matches_catalog_sample :
    (catalog Sample.written).filesOf 1 =
      [⟨⟨1, "A.java", "", "java", 2⟩, Outline.sample "W"⟩] ∧
    ((after Sample.written).storedFiles 1).Perm
      (((catalog Sample.written).filesOf 1).map Written.stored) ∧
    ((after Sample.written).calls.ownedBy 1).Perm
      (((catalog Sample.written).filesOf 1).flatMap fun w => w.outline.calls) ∧
    ((after Sample.written).annotations.ownedBy 1).Perm
      (((catalog Sample.written).filesOf 1).flatMap fun w => w.outline.annotations) := by
  have hops : Fitting ({}, {}) Sample.written := by decide +kernel
  refine ⟨by decide +kernel, ?_⟩
  exact (after_matches_catalog hops).2.2.2 1

end Store

end CodeAtlas
