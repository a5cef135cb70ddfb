import CodeAtlas.Proofs.Index.Steps
import Mathlib.Data.List.Induction
import Mathlib.Data.List.Perm.Basic

/-! # Runs by workers

Workers take turns on the files of a run in any order. What every step keeps is kept by the run,
also when it breaks down. A run that does not break down works all files through, each once and
in the order in which they are begun, so the store that it leaves depends on that order alone.
-/

namespace CodeAtlas.IndexRun

/-! ## Lists without repetitions -/

section Lists

variable {α : Type} [BEq α] [LawfulBEq α] {as bs : List α} {a : α}

theorem eraseDups_concat (as : List α) (a : α) :
    (as ++ [a]).eraseDups = as.eraseDups ++ if as.contains a then [] else [a] := by
  rw [List.eraseDups_append]
  by_cases ha : a ∈ as <;> simp [List.removeAll, List.eraseDups_cons, ha]

theorem nodup_eraseDups (as : List α) : as.eraseDups.Nodup := by
  induction as using List.reverseRecOn with
  | nil => simp
  | append_singleton as a ih =>
    rw [eraseDups_concat]
    by_cases ha : a ∈ as
    · simpa [ha] using ih
    · simpa [ha, List.nodup_append, ih] using fun b hb => ne_of_mem_of_not_mem hb ha

theorem eraseDups_eq_self (h : as.Nodup) : as.eraseDups = as := by
  induction as using List.reverseRecOn with
  | nil => simp
  | append_singleton as a ih =>
    obtain ⟨has, _, hne⟩ := List.nodup_append.mp h
    have ha : a ∉ as := fun ha => hne a ha a (by simp) rfl
    rw [eraseDups_concat, ih has]
    simp [ha]

theorem eraseDups_append_congr (h : as.eraseDups = bs.eraseDups) (cs : List α) :
    (as ++ cs).eraseDups = (bs ++ cs).eraseDups := by
  have hmem : ∀ c, c ∈ as ↔ c ∈ bs := fun c => by
    rw [← List.mem_eraseDups, h, List.mem_eraseDups]
  induction cs using List.reverseRecOn with
  | nil => simpa using h
  | append_singleton cs c ih =>
    rw [← List.append_assoc, ← List.append_assoc, eraseDups_concat, eraseDups_concat, ih]
    simp [hmem]

theorem eraseDups_append_flatMap_replicate (as bs : List α) (n : Nat) :
    (as ++ bs.flatMap (List.replicate (n + 1))).eraseDups = (as ++ bs).eraseDups := by
  have hrep : ∀ (as : List α) (b : α) (n : Nat),
      (as ++ List.replicate (n + 1) b).eraseDups = (as ++ [b]).eraseDups := by
    intro as b n
    induction n with
    | zero => rfl
    | succ n ih =>
      rw [List.replicate_succ', ← List.append_assoc, eraseDups_concat, ih]
      simp
  induction bs generalizing as with
  | nil => simp
  | cons b bs ih =>
    rw [List.flatMap_cons, ← List.append_assoc, eraseDups_append_congr (hrep as b n), ih,
      List.append_assoc, List.singleton_append]

omit [BEq α] [LawfulBEq α] in
theorem filterMap_getElem?_range (as : List α) :
    (List.range as.length).filterMap (fun i => as[i]?) = as := by
  induction as with
  | nil => rfl
  | cons a as ih =>
    rw [List.length_cons, List.range_succ_eq_map, List.filterMap_cons, List.filterMap_map]
    exact congrArg (a :: ·) ih

end Lists

/-! ## One turn -/

namespace Pool

variable {p : Pool}

theorem reason?_eq_none_iff :
    p.reason? = none ↔
      ∀ (i : Nat) f (stage : Stage), p.tasks[i]? = some (f, stage) → stage.reason? = none := by
  simp only [reason?, List.findSome?_eq_none_iff, List.mem_iff_getElem?]
  constructor
  · exact fun h i f stage hi => h (f, stage) ⟨i, hi⟩
  · rintro h ⟨f, stage⟩ ⟨i, hi⟩
    exact h i f stage hi

theorem getElem?_toStage {place : Nat} {f g : ScannedFile} {old : Stage}
    (h : p.tasks[place]? = some (g, old)) (stage : Stage) (i : Nat) :
    (p.toStage place f stage).tasks[i]? =
      if i = place then some (f, stage) else p.tasks[i]? := by
  have hlt : place < p.tasks.length := (List.getElem?_eq_some_iff.mp h).1
  simp only [toStage, List.getElem?_set, hlt, if_true, @eq_comm _ i]

theorem reason?_toStage {q : Pool} {place : Nat} {f g : ScannedFile} {old stage : Stage}
    (h : q.tasks[place]? = some (g, old)) (hq : q.reason? = none) (hs : stage.reason? = none) :
    (q.toStage place f stage).reason? = none := by
  rw [reason?_eq_none_iff] at hq ⊢
  intro i f' s hf
  rw [getElem?_toStage h] at hf
  split at hf
  · obtain ⟨_, rfl⟩ := Prod.mk.inj (Option.some.inj hf)
    exact hs
  · exact hq i f' s hf

theorem map_fst_toStage {place : Nat} {f : ScannedFile} {old : Stage}
    (h : p.tasks[place]? = some (f, old)) (stage : Stage) :
    (p.toStage place f stage).tasks.map Prod.fst = p.tasks.map Prod.fst := by
  apply List.ext_getElem?
  intro i
  rw [List.getElem?_map, List.getElem?_map, getElem?_toStage h]
  split
  · rename_i hi
    rw [hi, h]
    rfl
  · rfl

theorem getElem?_start {progress : Progress} {status : IndexStatus} {files : List ScannedFile}
    {i : Nat} {f : ScannedFile} {stage : Stage} :
    (start progress status files).tasks[i]? = some (f, stage) ↔
      files[i]? = some f ∧ stage = .waiting := by
  simp only [start, List.getElem?_map, Option.map_eq_some_iff, Prod.mk.injEq]
  constructor
  · rintro ⟨_, hf, rfl, rfl⟩
    exact ⟨hf, rfl⟩
  · rintro ⟨hf, rfl⟩
    exact ⟨f, hf, rfl, rfl⟩

end Pool

/-- Nothing is to be done in a turn on a file: it is done with, or it is too late to begin it. -/
def Pool.AtRest (p : Pool) (t : Turn) : Prop :=
  ∀ f stage, p.tasks[t.place]? = some (f, stage) →
    stage = .shown ∨ stage.reason?.isSome = true ∨
      stage = .waiting ∧ t.late = true ∧ p.reason?.isSome = true

/-- What a turn comes to. -/
inductive Job.Turned (j : Job) (p : Pool) (t : Turn) : Pool → Prop where
  | idle : p.AtRest t → Turned j p t p
  | worked {f : ScannedFile} {progress : Progress} : p.tasks[t.place]? = some (f, .waiting) →
      j.step p.progress f = .ok progress →
      Turned j p t ({ p with progress := progress }.toStage t.place f .worked)
  | broken {f : ScannedFile} {reason : String} : p.tasks[t.place]? = some (f, .waiting) →
      j.step p.progress f = .error reason →
      Turned j p t (p.toStage t.place f (.broken reason))
  | counted {f : ScannedFile} : p.tasks[t.place]? = some (f, .worked) →
      Turned j p t ({ p with done := p.done + 1 }.toStage t.place f (.counted (p.done + 1)))
  | shown {f : ScannedFile} {number : Nat} {status : IndexStatus} :
      p.tasks[t.place]? = some (f, .counted number) → status = p.status.withDone number →
      Turned j p t ({ p with status := status }.toStage t.place f .shown)

variable {j : Job} {p : Pool} {t : Turn} {ts : List Turn} {start : Progress} {status : IndexStatus}
  {files : List ScannedFile} {schedule : Schedule}

theorem Job.turned (j : Job) (p : Pool) (t : Turn) : j.Turned p t (j.turn p t) := by
  unfold Job.turn
  split
  · rename_i f hf
    split
    · rename_i hlate
      refine .idle fun g stage hg => .inr (.inr ?_)
      obtain ⟨rfl, rfl⟩ := Prod.mk.inj (Option.some.inj (hg.symm.trans hf))
      exact ⟨rfl, by simpa using hlate⟩
    · split
      · rename_i hs
        exact .worked hf hs
      · rename_i hs
        exact .broken hf hs
  · rename_i f hf
    exact .counted hf
  · rename_i f number hf
    exact .shown hf rfl
  · rename_i hwaiting hworked hcounted
    refine .idle fun f stage hf => ?_
    cases stage with
    | waiting => exact absurd hf (hwaiting f)
    | worked => exact absurd hf (hworked f)
    | counted number => exact absurd hf (hcounted f number)
    | shown => exact .inl rfl
    | broken reason => exact .inr (.inl rfl)

theorem Job.map_fst_turn : (j.turn p t).tasks.map Prod.fst = p.tasks.map Prod.fst := by
  have ht := j.turned p t
  generalize j.turn p t = p' at ht
  cases ht with
  | idle => rfl
  | worked hf => exact Pool.map_fst_toStage (p := { p with progress := _ }) hf _
  | broken hf => exact Pool.map_fst_toStage hf _
  | counted hf => exact Pool.map_fst_toStage (p := { p with done := _ }) hf _
  | shown hf _ => exact Pool.map_fst_toStage (p := { p with status := _ }) hf _

theorem Job.getElem?_turn_of_ne (j : Job) (p : Pool) {i : Nat} (h : i ≠ t.place) :
    (j.turn p t).tasks[i]? = p.tasks[i]? := by
  have hset : ∀ {q : Pool} {f : ScannedFile} {old stage : Stage}, q.tasks = p.tasks →
      p.tasks[t.place]? = some (f, old) → (q.toStage t.place f stage).tasks[i]? = p.tasks[i]? := by
    intro q f old stage hq hf
    rw [Pool.getElem?_toStage (hq ▸ hf), if_neg h, hq]
  have ht := j.turned p t
  generalize j.turn p t = p' at ht
  cases ht with
  | idle => rfl
  | worked hf => exact hset rfl hf
  | broken hf => exact hset rfl hf
  | counted hf => exact hset rfl hf
  | shown hf _ => exact hset rfl hf

theorem Job.reason?_of_turn (h : (j.turn p t).reason? = none) : p.reason? = none := by
  rw [Pool.reason?_eq_none_iff] at h ⊢
  intro i f stage hf
  by_cases hi : i = t.place
  · -- The stage that a turn changes was no breakdown.
    have hold : ∀ {g old}, p.tasks[t.place]? = some (g, old) → old.reason? = none →
        stage.reason? = none := by
      intro g old hg hnone
      obtain ⟨_, rfl⟩ := Prod.mk.inj (Option.some.inj (hg.symm.trans (hi ▸ hf)))
      exact hnone
    have ht := j.turned p t
    generalize j.turn p t = p' at ht h
    cases ht with
    | idle => exact h i f stage hf
    | worked hg => exact hold hg rfl
    | broken hg => exact hold hg rfl
    | counted hg => exact hold hg rfl
    | shown hg _ => exact hold hg rfl
  · rw [← j.getElem?_turn_of_ne p hi] at hf
    exact h i f stage hf

/-! ## What turns keep -/

theorem Job.map_fst_foldl (ts : List Turn) :
    (ts.foldl j.turn (.start start status files)).tasks.map Prod.fst = files := by
  induction ts using List.reverseRecOn with
  | nil => simp [Pool.start, Function.comp_def]
  | append_singleton ts t ih =>
    rw [List.foldl_concat, Job.map_fst_turn]
    exact ih

theorem Job.mem_of_getElem?_foldl {i : Nat} {f : ScannedFile} {stage : Stage}
    (hf : (ts.foldl j.turn (.start start status files)).tasks[i]? = some (f, stage)) :
    f ∈ files := by
  have hmem := List.mem_map_of_mem (f := Prod.fst) (List.mem_of_getElem? hf)
  rwa [Job.map_fst_foldl] at hmem

theorem Job.foldl_keeps_of_mem {P : Progress → Prop}
    (hstep : ∀ p p', ∀ f ∈ files, P p → j.step p f = .ok p' → P p') (h : P start)
    (ts : List Turn) : P (ts.foldl j.turn (.start start status files)).progress := by
  induction ts using List.reverseRecOn with
  | nil => exact h
  | append_singleton ts t ih =>
    rw [List.foldl_concat]
    have ht := j.turned (ts.foldl j.turn (.start start status files)) t
    generalize j.turn _ t = p' at ht
    cases ht with
    | idle | broken | counted | shown => exact ih
    | worked hf hs => exact hstep _ _ _ (Job.mem_of_getElem?_foldl hf) ih hs

/-- What the steps on some files keep is kept by a run of these files, also when it breaks
down. -/
theorem Job.all_keeps_of_mem {P : Progress → Prop}
    (hstep : ∀ p p', ∀ f ∈ files, P p → j.step p f = .ok p' → P p') (h : P start)
    (schedule : Schedule) (status : IndexStatus) :
    P (j.all schedule files start status).progress :=
  Job.foldl_keeps_of_mem hstep h _

theorem Job.all_keeps {P : Progress → Prop}
    (hstep : ∀ p p' f, P p → j.step p f = .ok p' → P p') (h : P start) (schedule : Schedule)
    (files : List ScannedFile) (status : IndexStatus) :
    P (j.all schedule files start status).progress :=
  Job.all_keeps_of_mem (fun p p' f _ => hstep p p' f) h schedule status

/-! ## Runs that do not break down -/

/-- The places of the first turns on each of a number of files. -/
def begunBy (ts : List Turn) (n : Nat) : List Nat :=
  ((ts.map Turn.place).filter (· < n)).eraseDups

theorem mem_begunBy {n i : Nat} : i ∈ begunBy ts n ↔ i < n ∧ ∃ t ∈ ts, t.place = i := by
  simp only [begunBy, List.mem_eraseDups, List.mem_filter, List.mem_map, decide_eq_true_eq]
  exact and_comm

theorem begunBy_concat (ts : List Turn) (t : Turn) (n : Nat) :
    begunBy (ts ++ [t]) n =
      begunBy ts n ++ if t.place < n ∧ t.place ∉ begunBy ts n then [t.place] else [] := by
  by_cases hlt : t.place < n
  · have hfilter : ((ts ++ [t]).map Turn.place).filter (· < n) =
        (ts.map Turn.place).filter (· < n) ++ [t.place] := by
      simp [List.filter_append, hlt]
    have hmem : t.place ∈ begunBy ts n ↔ t.place ∈ (ts.map Turn.place).filter (· < n) :=
      List.mem_eraseDups
    rw [begunBy, hfilter, eraseDups_concat, ← begunBy]
    by_cases hm : t.place ∈ begunBy ts n
    · rw [if_pos (List.contains_iff_mem.mpr (hmem.mp hm)), if_neg fun h => h.2 hm]
    · rw [if_neg fun h => hm (hmem.mpr (List.contains_iff_mem.mp h)), if_pos ⟨hlt, hm⟩]
  · simp [begunBy, List.filter_append, hlt]

theorem Job.reason?_all (h : ∀ f ∈ files, j.crashes f = false) :
    (j.all schedule files start status).reason? = none := by
  unfold Job.all
  induction j.turns schedule files using List.reverseRecOn with
  | nil =>
    refine Pool.reason?_eq_none_iff.mpr fun i f stage hf => ?_
    rw [(Pool.getElem?_start.mp hf).2]
    rfl
  | append_singleton ts t ih =>
    rw [List.foldl_concat]
    have ht := j.turned (ts.foldl j.turn (.start start status files)) t
    generalize j.turn _ t = p' at ht
    cases ht with
    | idle => exact ih
    | worked hf => exact Pool.reason?_toStage hf ih rfl
    | counted hf => exact Pool.reason?_toStage hf ih rfl
    | shown hf _ => exact Pool.reason?_toStage hf ih rfl
    | broken hf hs =>
      have hcrash := h _ (Job.mem_of_getElem?_foldl hf)
      obtain ⟨p', hp'⟩ := Job.exists_step hcrash (ts.foldl j.turn _).progress
      rw [hs] at hp'
      cases hp'

/-- Where a run stands that did not break down: some files are begun, in some order, and all
others wait. -/
structure Pool.Stands (j : Job) (start : Progress) (files : List ScannedFile) (begun : List Nat)
    (p : Pool) : Prop where
  files_eq : p.tasks.map Prod.fst = files
  works : j.Works start (begun.filterMap fun i => files[i]?) p.progress
  waiting_iff : ∀ i f stage, p.tasks[i]? = some (f, stage) → (stage = .waiting ↔ i ∉ begun)

namespace Pool.Stands

variable {begun : List Nat} {f : ScannedFile} {old stage : Stage} {q : Pool}

theorem lt_length (h : p.Stands j start files begun) (hf : p.tasks[t.place]? = some (f, old)) :
    t.place < files.length := by
  rw [← h.files_eq, List.length_map]
  exact (List.getElem?_eq_some_iff.mp hf).1

theorem getElem?_files (h : p.Stands j start files begun)
    (hf : p.tasks[t.place]? = some (f, old)) : files[t.place]? = some f := by
  rw [← h.files_eq, List.getElem?_map, hf]
  rfl

theorem go_on (h : p.Stands j start files begun) (hq : q.tasks = p.tasks)
    (hprogress : q.progress = p.progress) (hf : p.tasks[t.place]? = some (f, old))
    (hold : old ≠ .waiting) (hstage : stage ≠ .waiting) :
    (q.toStage t.place f stage).Stands j start files begun where
  files_eq := by rw [Pool.map_fst_toStage (hq ▸ hf), hq, h.files_eq]
  works := hprogress ▸ h.works
  waiting_iff i g s hg := by
    rw [Pool.getElem?_toStage (hq ▸ hf)] at hg
    split at hg
    · rename_i hi
      obtain ⟨_, rfl⟩ := Prod.mk.inj (Option.some.inj hg)
      subst hi
      exact iff_of_false hstage fun hn => hold ((h.waiting_iff _ _ _ hf).mpr hn)
    · exact h.waiting_iff i g s (hq ▸ hg)

theorem begin (h : p.Stands j start files begun) {progress : Progress}
    (hf : p.tasks[t.place]? = some (f, .waiting)) (hs : j.step p.progress f = .ok progress) :
    ({ p with progress := progress }.toStage t.place f .worked).Stands j start files
      (begun ++ [t.place]) where
  files_eq := by
    rw [Pool.map_fst_toStage (p := { p with progress := progress }) hf]
    exact h.files_eq
  works := by
    rw [List.filterMap_append, List.filterMap_cons, List.filterMap_nil, h.getElem?_files hf]
    exact .file h.works hs
  waiting_iff i g s hg := by
    rw [Pool.getElem?_toStage (p := { p with progress := progress }) hf] at hg
    split at hg
    · rename_i hi
      obtain ⟨_, rfl⟩ := Prod.mk.inj (Option.some.inj hg)
      simp [hi]
    · rename_i hi
      rw [h.waiting_iff i g s hg]
      simp [hi]

theorem turn (h : p.Stands j start files (begunBy ts files.length))
    (hreason : (j.turn p t).reason? = none) :
    (j.turn p t).Stands j start files (begunBy (ts ++ [t]) files.length) := by
  rw [begunBy_concat]
  have hbefore := Job.reason?_of_turn hreason
  -- Where the turn begins no file, its place was begun before or is none of a file.
  have hsame : ∀ {f stage}, p.tasks[t.place]? = some (f, stage) → stage ≠ .waiting →
      t.place ∈ begunBy ts files.length := by
    intro f stage hf hstage
    by_contra hn
    exact hstage ((h.waiting_iff _ _ _ hf).mpr hn)
  have ht := j.turned p t
  generalize j.turn p t = p' at ht hreason
  cases ht with
  | idle hidle =>
    rw [if_neg, List.append_nil]
    · exact h
    · rintro ⟨hlt, hn⟩
      have hlt' : t.place < p.tasks.length := by
        rw [← List.length_map (f := Prod.fst), h.files_eq]
        exact hlt
      obtain ⟨⟨f, stage⟩, hf⟩ : ∃ task, p.tasks[t.place]? = some task :=
        ⟨_, List.getElem?_eq_getElem hlt'⟩
      rcases hidle f stage hf with rfl | hs | ⟨_, _, hs⟩
      · exact hn (hsame hf (by simp))
      · refine hn (hsame hf ?_)
        rintro rfl
        cases hs
      · rw [hbefore] at hs
        cases hs
  | @worked f progress hf hs =>
    rw [if_pos ⟨h.lt_length hf, (h.waiting_iff _ _ _ hf).mp rfl⟩]
    exact h.begin hf hs
  | @broken f reason hf hs =>
    have hnone := Pool.reason?_eq_none_iff.mp hreason t.place f (.broken reason)
    rw [Pool.getElem?_toStage hf, if_pos rfl] at hnone
    cases hnone rfl
  | counted hf =>
    rw [if_neg fun hn => hn.2 (hsame hf (by simp)), List.append_nil]
    exact h.go_on rfl rfl hf (by simp) (by simp)
  | shown hf _ =>
    rw [if_neg fun hn => hn.2 (hsame hf (by simp)), List.append_nil]
    exact h.go_on rfl rfl hf (by simp) (by simp)

end Pool.Stands

/-- As long as nothing breaks down, the files that had their first turn are worked through, in
the order of these. -/
theorem Job.stands_foldl (ts : List Turn)
    (h : (ts.foldl j.turn (.start start status files)).reason? = none) :
    (ts.foldl j.turn (.start start status files)).Stands j start files
      (begunBy ts files.length) := by
  induction ts using List.reverseRecOn with
  | nil =>
    refine ⟨by simp [Pool.start, Function.comp_def], .none, ?_⟩
    intro i f stage hf
    simp [(Pool.getElem?_start.mp hf).2, begunBy]
  | append_singleton ts t ih =>
    rw [List.foldl_concat] at h ⊢
    exact (ih (Job.reason?_of_turn h)).turn h

/-! ## The order of a schedule -/

/-- The places of some files in the order in which a schedule begins them, when nothing breaks
down. -/
def Schedule.order : Schedule → Nat → List Nat
  | .oneWorker, n => List.range n
  | .picks places, n => ((places ++ List.range n).filter (· < n)).eraseDups

/-- Files in the order in which a schedule begins them. -/
def Schedule.arrange {α : Type} (schedule : Schedule) (files : List α) : List α :=
  (schedule.order files.length).filterMap fun i => files[i]?

theorem Schedule.order_perm (schedule : Schedule) (n : Nat) :
    (schedule.order n).Perm (List.range n) := by
  cases schedule with
  | oneWorker => exact .refl _
  | picks places =>
    refine (List.perm_ext_iff_of_nodup (nodup_eraseDups _) List.nodup_range).mpr fun i => ?_
    simp only [List.mem_eraseDups, List.mem_filter, List.mem_append, List.mem_range,
      decide_eq_true_eq]
    exact ⟨And.right, fun hi => ⟨.inr hi, hi⟩⟩

theorem Schedule.arrange_oneWorker {α : Type} (files : List α) :
    Schedule.oneWorker.arrange files = files :=
  filterMap_getElem?_range files

theorem Schedule.arrange_perm {α : Type} (schedule : Schedule) (files : List α) :
    (schedule.arrange files).Perm files := by
  have h := (schedule.order_perm files.length).filterMap fun i => files[i]?
  rwa [filterMap_getElem?_range] at h

theorem map_place_threeTurns (late : Bool) (places : List Nat) :
    (threeTurns late places).map Turn.place = places.flatMap (List.replicate 3) := by
  simp only [threeTurns, List.map_flatMap, List.map_replicate]

theorem Job.shares_of_not_crashes {spare : Nat} {takenOver : Bool}
    {files : List (ScannedFile × Nat)} (h : ∀ f ∈ files, j.crashes f.1 = false) :
    j.shares spare takenOver files = (files.map Prod.snd, false) := by
  fun_induction Job.shares j spare takenOver files with
  | case1 spare takenOver files hd spare' half first broken he second brokenLater he' ih₁ ih₂ =>
    have h₁ := ih₁ fun f hf => h f (List.mem_of_mem_take hf)
    rw [he] at h₁
    obtain ⟨rfl, rfl⟩ := Prod.mk.inj h₁
    have h₂ := ih₂ fun f hf => h f (List.mem_of_mem_drop hf)
    rw [he'] at h₂
    obtain ⟨rfl, rfl⟩ := Prod.mk.inj h₂
    rw [← List.map_append, List.take_append_drop]
    rfl
  | case2 spare takenOver files hd crashes =>
    have hidx : files.findIdx crashes = files.length :=
      List.findIdx_eq_length.mpr fun f hf => h f hf
    have hany : files.any crashes = false := List.any_eq_false.mpr fun f hf => by
      simpa using h f hf
    rw [hidx, hany, List.take_of_length_le (Nat.le_succ _)]

theorem Job.begunBy_turns (h : ∀ f ∈ files, j.crashes f = false) (schedule : Schedule) :
    begunBy (j.turns schedule files) files.length = schedule.order files.length := by
  have hall : (List.range files.length).filter (· < files.length) = List.range files.length :=
    List.filter_eq_self.mpr fun i hi => by simpa using hi
  have hfilter : ∀ places : List Nat, (places.flatMap (List.replicate 3)).filter
      (· < files.length) = (places.filter (· < files.length)).flatMap (List.replicate 3) := by
    intro places
    induction places with
    | nil => rfl
    | cons i places ih =>
      by_cases hi : i < files.length <;> simp [ih, hi]
  cases schedule with
  | oneWorker =>
    have hshares : (j.shares 1 false files.zipIdx).1 = List.range files.length := by
      rw [Job.shares_of_not_crashes fun f hf => h f.1 (List.fst_mem_of_mem_zipIdx hf)]
      simp [List.zipIdx_map_snd, List.range_eq_range']
    simp only [Job.turns, hshares, begunBy, List.map_append, map_place_threeTurns,
      List.filter_append, hfilter, hall]
    rw [eraseDups_append_flatMap_replicate, List.eraseDups_append]
    have hnone : (List.range files.length).removeAll
        ((List.range files.length).flatMap (List.replicate 3)) = [] := by
      simp [List.removeAll, List.filter_eq_nil_iff]
    have hself := eraseDups_append_flatMap_replicate [] (List.range files.length) 2
    rw [List.nil_append, List.nil_append, eraseDups_eq_self List.nodup_range] at hself
    rw [hnone, hself]
    simp [Schedule.order]
  | picks places =>
    simp only [Job.turns, begunBy, List.map_append, map_place_threeTurns, List.map_map,
      Function.comp_def, List.map_id', List.filter_append, hfilter, hall]
    rw [eraseDups_append_flatMap_replicate]
    simp only [Schedule.order, List.filter_append, hall]

/-- A run that does not break down works its files through in the order of its schedule. -/
theorem Job.all_works (h : (j.all schedule files start status).reason? = none) :
    j.Works start (schedule.arrange files) (j.all schedule files start status).progress := by
  have hworks := (Job.stands_foldl _ h).works
  have hall : ∀ i < files.length, i ∈ begunBy (j.turns schedule files) files.length := by
    intro i hi
    refine mem_begunBy.mpr ⟨hi, ⟨i, true⟩, ?_, rfl⟩
    refine List.mem_append_right _ (List.mem_flatMap.mpr ⟨i, List.mem_range.mpr hi, ?_⟩)
    exact List.mem_replicate.mpr ⟨by decide, rfl⟩
  have hcrash : ∀ f ∈ files, j.crashes f = false := by
    intro f hf
    obtain ⟨i, hi⟩ := List.mem_iff_getElem?.mp hf
    refine hworks.crashes_eq_false f (List.mem_filterMap.mpr ⟨i, hall i ?_, hi⟩)
    exact (List.getElem?_eq_some_iff.mp hi).1
  rwa [Job.begunBy_turns hcrash] at hworks

end CodeAtlas.IndexRun
