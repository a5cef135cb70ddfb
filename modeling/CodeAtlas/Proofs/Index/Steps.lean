import CodeAtlas.Index.Run
import CodeAtlas.Proofs.Store.Contents
import Mathlib.Tactic.Tauto

/-! # The steps of a run

What becomes of one file of a run, and of files one after another. Each step leaves the store as
it is or replaces the file with what its content yields.
-/

namespace CodeAtlas

/-- A source file with what a front end reads from it. -/
structure SourceFile where
  path : String
  content : List UInt8
  outline : Outline
  deriving Repr, DecidableEq, Inhabited

namespace SourceFile

def ReadBy (f : SourceFile) (frontEnd : FrontEnd) : Prop :=
  frontEnd.read f.path f.content (packageOfPath f.path) = .ok f.outline

def entry (f : SourceFile) (frontEnd : FrontEnd) (codebase : Int) : FileEntry :=
  ⟨codebase, f.path, contentHash f.content, frontEnd.language, Text.lineCount f.content⟩

def stored (f : SourceFile) (frontEnd : FrontEnd) (codebase : Int) : StoredFile :=
  ⟨f.entry frontEnd codebase, f.outline.symbols, f.outline.imports⟩

def names (f : SourceFile) : List String := f.outline.symbols.map Symbol.fqn

theorem eq_of_readBy {f g : SourceFile} {frontEnd : FrontEnd} (hf : f.ReadBy frontEnd)
    (hg : g.ReadBy frontEnd) (hp : f.path = g.path) (hc : f.content = g.content) : f = g := by
  unfold ReadBy at hf hg
  rw [hp, hc, hg] at hf
  obtain ⟨p, c, o⟩ := f
  obtain ⟨p', c', o'⟩ := g
  simp_all

end SourceFile

/-- The source file that a scanned file is, when it can be read. -/
def FrontEnd.sourceFile? (frontEnd : FrontEnd) (t : FileTree) (f : ScannedFile) :
    Option SourceFile :=
  match t.read [] f.absPath with
  | .error _ => none
  | .ok content =>
    match frontEnd.read f.relPath content (packageOfPath f.relPath) with
    | .ok outline => some ⟨f.relPath, content, outline⟩
    | _ => none

theorem FrontEnd.sourceFile?_eq_some_iff {frontEnd : FrontEnd} {t : FileTree} {f : ScannedFile}
    {x : SourceFile} :
    frontEnd.sourceFile? t f = some x ↔
      x.path = f.relPath ∧ t.read [] f.absPath = .ok x.content ∧ x.ReadBy frontEnd := by
  unfold sourceFile? SourceFile.ReadBy
  constructor
  · intro h
    split at h
    · simp at h
    · rename_i content hc
      split at h
      · rename_i outline ho
        obtain rfl := Option.some.inj h
        exact ⟨rfl, hc, ho⟩
      · simp at h
  · obtain ⟨path, content, outline⟩ := x
    rintro ⟨rfl, hc, ho⟩
    simp only at hc ho
    simp only [hc, ho]

namespace IndexRun

variable {j : Job} {p p' : Progress} {f : ScannedFile}

/-! ## One file -/

/-- Whether a file is on disk with a hash that is known. -/
def Job.Skips (j : Job) (f : ScannedFile) : Prop :=
  ∃ content, j.tree.read [] f.absPath = .ok content ∧
    j.knows f.relPath (contentHash content) = true

theorem Job.step_cases (h : j.step p f = .ok p') :
    (j.Skips f ∧ p' = { p with unchanged := p.unchanged + 1 }) ∨
    p' = { p with failed := p.failed + 1 } ∨
    (¬ j.Skips f ∧ ∃ x s id, j.frontEnd.sourceFile? j.tree f = some x ∧
      p.store.replaceFile (x.entry j.frontEnd j.codebase) x.outline = (.ok id, s) ∧
      p' = { p with store := s, indexed := p.indexed + 1 }) := by
  unfold Job.step Job.examine at h
  cases hr : j.tree.read [] f.absPath with
  | error e =>
    simp only [hr, Except.ok.injEq] at h
    exact .inr (.inl h.symm)
  | ok content =>
    simp only [hr] at h
    by_cases hk : j.knows f.relPath (contentHash content) = true
    · simp only [hk, if_true, Except.ok.injEq] at h
      exact .inl ⟨⟨content, hr, hk⟩, h.symm⟩
    · rw [if_neg hk] at h
      have hs : ¬ j.Skips f := by
        rintro ⟨content', hr', hk'⟩
        obtain rfl := Except.ok.inj (hr.symm.trans hr')
        exact hk hk'
      cases ho : j.frontEnd.read f.relPath content (packageOfPath f.relPath) with
      | crashed reason => simp [ho] at h
      | failed e =>
        simp only [ho, Except.ok.injEq] at h
        exact .inr (.inl h.symm)
      | ok outline =>
        simp only [ho] at h
        have hx : j.frontEnd.sourceFile? j.tree f = some ⟨f.relPath, content, outline⟩ :=
          FrontEnd.sourceFile?_eq_some_iff.mpr ⟨rfl, hr, ho⟩
        rcases hrep : p.store.replaceFile (j.entry f.relPath content) outline with ⟨e | id, s⟩
        · obtain ⟨_, rfl⟩ := Store.replaceFile_of_error hrep
          simp only [hrep, Except.ok.injEq] at h
          exact .inr (.inl h.symm)
        · simp only [hrep, Except.ok.injEq] at h
          exact .inr (.inr ⟨hs, _, s, id, hx, hrep, h.symm⟩)

/-- Whether a file breaks down does not depend on what became of other files. -/
theorem Job.crashes_eq_false_of_step (h : j.step p f = .ok p') : j.crashes f = false := by
  unfold Job.step at h
  unfold Job.crashes
  cases he : j.examine f with
  | crash reason => simp [he] at h
  | unchanged | unreadable | outlined => rfl

theorem Job.step_of_skips (h : j.Skips f) :
    j.step p f = .ok { p with unchanged := p.unchanged + 1 } := by
  obtain ⟨content, hr, hk⟩ := h
  simp only [Job.step, Job.examine, hr, hk, if_true]

theorem Job.Skips.crashes_eq_false (h : j.Skips f) : j.crashes f = false :=
  Job.crashes_eq_false_of_step (p := ⟨{}, 0, 0, 0⟩) (Job.step_of_skips h)

theorem Job.exists_step (h : j.crashes f = false) (p : Progress) : ∃ p', j.step p f = .ok p' := by
  unfold Job.crashes at h
  unfold Job.step
  cases he : j.examine f with
  | unchanged | unreadable => exact ⟨_, rfl⟩
  | crash reason => simp [he] at h
  | outlined entry outline =>
    rcases hr : p.store.replaceFile entry outline with ⟨_ | _, s⟩ <;> simp [hr]

def Progress.tally (p : Progress) : Nat := p.indexed + p.unchanged + p.failed

theorem Job.tally_step (h : j.step p f = .ok p') : p'.tally = p.tally + 1 := by
  rcases Job.step_cases h with ⟨_, rfl⟩ | rfl | ⟨_, x, s, id, _, _, rfl⟩
  · simp only [Progress.tally]
    omega
  · simp only [Progress.tally]
    omega
  · simp only [Progress.tally]
    omega

theorem Job.failed_le_step (h : j.step p f = .ok p') : p.failed ≤ p'.failed := by
  rcases Job.step_cases h with ⟨_, rfl⟩ | rfl | ⟨_, x, s, id, _, _, rfl⟩
  · exact Nat.le_refl _
  · exact Nat.le_succ _
  · exact Nat.le_refl _

/-! ## Files one after another -/

/-- Files are worked through one after another, and none of them breaks down. -/
inductive Job.Works (j : Job) (start : Progress) : List ScannedFile → Progress → Prop where
  | none : Works j start [] start
  | file {done : List ScannedFile} {p p' : Progress} {f : ScannedFile} : Works j start done p →
      j.step p f = .ok p' → Works j start (done ++ [f]) p'

variable {start : Progress} {files done : List ScannedFile}

theorem Job.Works.crashes_eq_false (h : j.Works start done p) :
    ∀ f ∈ done, j.crashes f = false := by
  induction h with
  | none => simp
  | file _ hs ih =>
    intro g hg
    rcases List.mem_append.mp hg with hg | hg
    · exact ih g hg
    · rw [List.mem_singleton.mp hg]
      exact Job.crashes_eq_false_of_step hs

theorem Job.Works.tally_eq (h : j.Works start done p) : p.tally = start.tally + done.length := by
  induction h with
  | none => rfl
  | file _ hs ih =>
    rw [Job.tally_step hs, ih, List.length_append, List.length_singleton]
    omega

theorem Job.Works.failed_le (h : j.Works start done p) : start.failed ≤ p.failed := by
  induction h with
  | none => exact Nat.le_refl _
  | file _ hs ih => exact Nat.le_trans ih (Job.failed_le_step hs)

/-- Files that are worked through and do not fail: each step skips its file or replaces it. -/
theorem Job.Works.induction_of_no_failure {P : List ScannedFile → Store → Prop}
    (hskip : ∀ {done f s}, done ++ [f] <+: files → j.Skips f → P done s → P (done ++ [f]) s)
    (hstore : ∀ {done f s s' x id}, done ++ [f] <+: files → ¬ j.Skips f →
      j.frontEnd.sourceFile? j.tree f = some x →
      s.replaceFile (x.entry j.frontEnd j.codebase) x.outline = (.ok id, s') →
      P done s → P (done ++ [f]) s')
    (h : j.Works start files p) (hf : p.failed = start.failed) (hstart : P [] start.store) :
    P files p.store := by
  suffices hgen : ∀ {done p}, j.Works start done p → done <+: files → p.failed = start.failed →
      P done p.store from hgen h (List.prefix_refl _) hf
  intro done p h
  induction h with
  | none => exact fun _ _ => hstart
  | @file done p p' f hw hs ih =>
    intro hpre hf
    have hle := hw.failed_le
    have hle' := Job.failed_le_step hs
    have hdone := ih ((List.prefix_append done [f]).trans hpre) (by omega)
    rcases Job.step_cases hs with ⟨hk, rfl⟩ | rfl | ⟨hk, x, s, id, hx, hr, rfl⟩
    · exact hskip hpre hk hdone
    · simp only at hf
      omega
    · exact hstore hpre hk hx hr hdone

theorem Job.Works.eq_of_skips (h : j.Works start done p) (hs : ∀ f ∈ done, j.Skips f) :
    p = { start with unchanged := start.unchanged + done.length } := by
  induction h with
  | none => rfl
  | @file done p p' f _ hstep ih =>
    have hp := ih fun g hg => hs g (List.mem_append_left _ hg)
    rw [Job.step_of_skips (hs f (by simp)), hp] at hstep
    rw [← Except.ok.inj hstep, List.length_append, List.length_singleton]
    simp only [Nat.add_assoc]

/-! ## Deletions -/

section Delete

variable {s : Store} {c : Int}

theorem deleteAll_cons (path : String) (rest : List String) :
    (deleteAll c s (path :: rest)).1 =
      match s.deleteFile? c path with
      | some s => (deleteAll c s rest).1
      | none => (deleteAll c s rest).1 := by
  cases hd : s.deleteFile? c path <;> simp [deleteAll, hd]

theorem deleteAll_sound (h : s.Sound) (paths : List String) : (deleteAll c s paths).1.Sound := by
  induction paths generalizing s with
  | nil => exact h
  | cons path rest ih =>
    rw [deleteAll_cons]
    cases hd : s.deleteFile? c path with
    | none => exact ih h
    | some s' => exact ih (h.deleteFile? hd)

/-- A view of files by their paths that a deletion empties at its path and keeps elsewhere is
emptied at all paths that are deleted, and kept elsewhere. -/
theorem view_deleteAll {β : Type} {V : Store → Int → String → Option β}
    (hnone : ∀ {s : Store} {path}, s.deleteFile? c path = none → V s c path = none)
    (hsome : ∀ {s s' : Store} {path}, s.Sound → s.deleteFile? c path = some s' → ∀ c' p,
      V s' c' p = if c' = c ∧ p = path then none else V s c' p)
    (h : s.Sound) (paths : List String) (c' : Int) (p : String) :
    V (deleteAll c s paths).1 c' p = if c' = c ∧ p ∈ paths then none else V s c' p := by
  induction paths generalizing s with
  | nil => simp [deleteAll]
  | cons path rest ih =>
    rw [deleteAll_cons]
    cases hd : s.deleteFile? c path with
    | none =>
      have hn := hnone hd
      simp only [ih h, List.mem_cons]
      by_cases hk : c' = c ∧ p = path
      · simp [hk, hn]
      · by_cases hr : c' = c ∧ p ∈ rest
        · simp [hr]
        · rw [if_neg hr, if_neg (by tauto)]
    | some s' =>
      simp only [ih (h.deleteFile? hd), hsome h hd, List.mem_cons]
      by_cases hk : c' = c ∧ p = path
      · simp [hk]
      · by_cases hr : c' = c ∧ p ∈ rest
        · simp [hr]
        · rw [if_neg hr, if_neg hk, if_neg (by tauto)]

theorem storedAt?_deleteAll (h : s.Sound) (paths : List String) (c' : Int) (p : String) :
    (deleteAll c s paths).1.storedAt? c' p =
      if c' = c ∧ p ∈ paths then none else s.storedAt? c' p :=
  view_deleteAll (V := Store.storedAt?) (fun hd => Store.deleteFile?_eq_none_iff.mp hd)
    (fun h hd => h.storedAt?_deleteFile? hd) h paths c' p

end Delete

end IndexRun

end CodeAtlas
