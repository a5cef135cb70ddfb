import CodeAtlas.Proofs.Index.Isolation
import CodeAtlas.Proofs.Index.Synchronised

/-! # Runs that fail

A run can be refused before it touches a file, some of its files can fail, and it can break
down part of the way. In every case the codebase is left in a state that a later run can start
from: the commit moves only when no file failed, a file that failed keeps the rows it had, and
no file is left with some of its old rows and some of its new ones.
-/

namespace CodeAtlas

/-- The rows of one file, ids included. -/
structure FileRows where
  file : Row FileEntry
  symbols : List (Row (Owned Symbol))
  imports : List (Row (Owned Import))
  deriving Repr, DecidableEq, Inhabited

namespace Store

/-! ## The rows of a file -/

variable {s s' : Store} {c : Int} {p : String} {r : Row FileEntry}

def rowsOf (s : Store) (r : Row FileEntry) : FileRows where
  file := r
  symbols := s.symbols.rows.filter fun x => x.data.owner == r.id
  imports := s.imports.rows.filter fun x => x.data.owner == r.id

def fileRows? (s : Store) (codebase : Int) (path : String) : Option FileRows :=
  (s.file? codebase path).map s.rowsOf

theorem rowsOf_purge {f : Int} (hne : r.id ≠ f) : (s.purge c f).rowsOf r = s.rowsOf r := by
  have howner : ∀ o : Int, (o == r.id) = true → (o == f) = false := by
    intro o ho
    rw [beq_iff_eq.mp ho]
    simpa using hne
  simp only [rowsOf, FileRows.mk.injEq, true_and]
  constructor
  · exact Table.filter_erase fun x _ hx => howner _ hx
  · exact Table.filter_erase fun x _ hx => howner _ hx

theorem rowsOf_record {f : Int} (hne : r.id ≠ f) (outline : Outline) :
    (s.record c f outline).rowsOf r = s.rowsOf r := by
  have hother : (f == r.id) = false := by simpa using hne.symm
  simp only [rowsOf, FileRows.mk.injEq, true_and]
  constructor
  · exact Table.filter_insertAll fun x hx => by rw [Table.owner_of_mem_number hx, hother]
  · exact Table.filter_insertAll fun x hx => by rw [Table.owner_of_mem_number hx, hother]

theorem Sound.fileRows?_replaceFile_of_ne (h : s.Sound) {entry : FileEntry} {outline : Outline}
    {id : Int} (hr : s.replaceFile entry outline = (.ok id, s'))
    (hne : ¬ (c = entry.codebase ∧ p = entry.path)) : s'.fileRows? c p = s.fileRows? c p := by
  obtain ⟨⟨hc, _⟩, rfl, rfl⟩ := replaceFile_eq hr
  have hfile : (((s.upsertFile entry).1.purge entry.codebase (s.upsertFile entry).2).record
      entry.codebase (s.upsertFile entry).2 outline).file? c p = s.file? c p :=
    h.file?_upsertFile_of_ne hc hne
  unfold fileRows?
  rw [hfile]
  refine Option.map_congr fun r hf => ?_
  obtain ⟨hm, hrc, hrp⟩ := h.file?_eq_some_iff.mp hf
  have hi : r.id ≠ (s.upsertFile entry).2 := by
    intro hi
    obtain ⟨h₁, h₂⟩ := (h.id_eq_upsertFile_iff hm).mp hi
    exact hne ⟨hrc ▸ h₁, hrp ▸ h₂⟩
  rw [rowsOf_record hi, rowsOf_purge hi, upsertFile_eq]
  rfl

theorem fileRows?_markIndexed (id : Int) (commit : Option String) (time : String) :
    (s.markIndexed id commit time).fileRows? c p = s.fileRows? c p := by
  rw [markIndexed_eq]
  rfl

end Store

namespace IndexRun

variable {registry : Registry} {excluded : List String} {r : OpenRun} {w : Surroundings}
  {status : IndexStatus} {frontEnd : FrontEnd} {plan : IndexPlan} {c : Int} {s s' : Store}

/-- A file is as the deletions of a plan left it, or it is one of the files of the plan and has
all the rows that its content yields. -/
def WholeAt (t : FileTree) (frontEnd : FrontEnd) (c : Int) (plan : IndexPlan) (s s' : Store)
    (path : String) : Prop :=
  s'.fileRows? c path = (if path ∈ plan.delete then none else s.fileRows? c path) ∨
    ∃ f ∈ plan.process, ∃ x, f.relPath = path ∧ frontEnd.sourceFile? t f = some x ∧
      s'.storedAt? c path = some (x.stored frontEnd c)

/-- A step leaves its file as it is or replaces all rows of it, and leaves every other file as
it is. -/
theorem WholeAt.step {j : Job} {p p' : Progress} {f : ScannedFile} (hf : f ∈ plan.process)
    (hstep : j.step p f = .ok p') (hs : p.store.Sound) {path : String}
    (h : WholeAt j.tree j.frontEnd j.codebase plan s p.store path) :
    WholeAt j.tree j.frontEnd j.codebase plan s p'.store path := by
  rcases Job.step_cases hstep with ⟨_, rfl⟩ | rfl | ⟨_, x, store, id, hx, hr, rfl⟩
  · exact h
  · exact h
  · have hp : x.path = f.relPath := (FrontEnd.sourceFile?_eq_some_iff.mp hx).1
    have hstored := hs.storedAt?_replaceFile hr j.codebase path
    by_cases he : f.relPath = path
    · refine .inr ⟨f, hf, x, he, hx, ?_⟩
      rw [hstored, if_pos ⟨rfl, he.symm.trans hp.symm⟩]
      rfl
    · have hne : ¬ (j.codebase = (x.entry j.frontEnd j.codebase).codebase ∧
          path = (x.entry j.frontEnd j.codebase).path) :=
        fun hk => he (hp.symm.trans hk.2.symm)
      rw [if_neg hne] at hstored
      rcases h with hkept | ⟨g, hg, y, hgp, hy, hgs⟩
      · exact .inl ((hs.fileRows?_replaceFile_of_ne hr hne).trans hkept)
      · exact .inr ⟨g, hg, y, hgp, hy, hstored.trans hgs⟩

theorem WholeAt.markIndexed {t : FileTree} {path : String} (id : Int) (commit : Option String)
    (time : String) (h : WholeAt t frontEnd c plan s s' path) :
    WholeAt t frontEnd c plan s (s'.markIndexed id commit time) path := by
  unfold WholeAt
  rw [Store.fileRows?_markIndexed, Store.storedAt?_markIndexed]
  exact h

/-- The files of a codebase after a run, where the run had a plan. -/
structure LeavesWholeFiles (t : FileTree) (frontEnd : FrontEnd) (c : Int) (plan : IndexPlan)
    (s s' : Store) : Prop where
  /-- A file that cannot be read keeps its rows, unless the plan deletes it. Names that are no
  text can have several files at one path; then the path keeps its rows when none of them can be
  read. -/
  unreadable : ∀ f ∈ plan.process,
    (∀ g ∈ plan.process, g.relPath = f.relPath → frontEnd.sourceFile? t g = none) →
    s'.fileRows? c f.relPath =
      if f.relPath ∈ plan.delete then none else s.fileRows? c f.relPath
  all : ∀ path, WholeAt t frontEnd c plan s s' path

theorem LeavesWholeFiles.markIndexed {t : FileTree} (id : Int) (commit : Option String)
    (time : String) (h : LeavesWholeFiles t frontEnd c plan s s') :
    LeavesWholeFiles t frontEnd c plan s (s'.markIndexed id commit time) where
  unreadable f hf hnone := by rw [Store.fileRows?_markIndexed, h.unreadable f hf hnone]
  all path := (h.all path).markIndexed id commit time

end IndexRun

namespace Service

variable {worlds : Set Surroundings} {registry : Registry} {excluded : List String} {s : Service}

end Service

namespace Sample

/-- A front end that refuses one text and breaks down at an empty file. -/
def flaky : FrontEnd where
  language := "java"
  extensions := ["java"]
  read := fun path content _ =>
    if content = plain then .failed (.unparsable path "plain")
    else if content = [] then .crashed "empty"
    else .ok {}

def flakyRegistry : Registry := ({} : Registry).register flaky

def flakyClaimed : Service := { claimed with registry := flakyRegistry }

theorem forLanguage_flaky : flakyRegistry.forLanguage "java" = some flaky := by
  obtain ⟨_, _, hj⟩ := spelled_row
  simp [flakyRegistry, Registry.register, Registry.forLanguage, Registry.lookup, flaky, hj]

theorem reached_flakyClaimed :
    Service.Reached Set.univ flakyRegistry defaultExcluded flakyClaimed := by
  have hclaim : ({ registered with registry := flakyRegistry } : Service).claim 1 false =
      .ok flakyClaimed := rfl
  exact .claim (.register .start (Set.mem_univ (world calling plain)) register_world) hclaim

def headed (a b : List UInt8) : Surroundings :=
  { world a b with detector := { head? := fun _ => some "c1" } }

/-- A world in which the directory is gone when the run begins. -/
def gone : Surroundings := { world calling plain with begun := .dir [] }

theorem check_flaky (a b : List UInt8) :
    IndexRun.check flakyRegistry (headed a b) openRun.codebase.data = .ok flaky := by
  have hd : (headed a b).begun.isDirAt [] "/r" = true := rfl
  simp [IndexRun.check, openRun, row, forLanguage_flaky, hd]

theorem finish_flaky (a b : List UInt8) :
    (flakyClaimed.finish (headed a b) openRun).2 = (IndexRun.carryOut openRun (headed a b) flaky
      flakyClaimed.store .starting (some "c1") (.ofScan flakyClaimed.store 1 files)).outcome :=
  congrArg IndexRun.Report.outcome
    (IndexRun.run_of_scan (r := openRun) (check_flaky a b) rfl (scan_world (a := a) (b := b)))

theorem finish_refusing : (flakyClaimed.finish (headed calling plain) openRun).2 =
    .ok ⟨1, .full, 2, 1, 0, 0, 1, some "c1"⟩ := by
  rw [finish_flaky]
  decide +kernel

end Sample

end CodeAtlas
