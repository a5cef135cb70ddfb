import CodeAtlas.Proofs.Index.Workers
import Mathlib.Data.List.Sort

/-! # The counts that a run shows

A worker counts a file and shows the count in turns of their own, so counts are shown in the
order of the second turns. Each count is shown once, whatever the order of turns, and the status
always has as many files done as the count that was shown last. A single worker shows the counts
in order.
-/

namespace CodeAtlas

open scoped List

theorem Binary64.ofFraction_zero (den : Nat) : ofFraction false 0 den = .zero := by
  have hpos : 0 < unitLimit := by decide +kernel
  have hlimit : ¬ unitLimit ≤ 0 := Nat.not_le.mpr hpos
  simp [ofFraction, roundUnits, divEven, bitLength, hlimit, zero]

namespace IndexStatus

variable {s : IndexStatus}

theorem filesDone_withDone (done : Nat) : (s.withDone done).filesDone = done := rfl

-- Taken apart, so that no progress is computed to compare the totals.
theorem filesTotal_withDone (done : Nat) : (s.withDone done).filesTotal = s.filesTotal := by
  obtain ⟨state, progress, total, old, message⟩ := s
  exact (rfl : (withDone ⟨state, progress, total, old, message⟩ done).filesTotal = total)

theorem withDone_withDone (done : Nat) : (s.withDone done).withDone = s.withDone := by
  funext more
  obtain ⟨state, progress, total, old, message⟩ := s
  have h : (withDone ⟨state, progress, total, old, message⟩ done).withDone more =
      ⟨state, .ofFraction false more (max total 1), total, more, message⟩ := rfl
  exact h

theorem withDone_planned (total : Nat) (message : String) :
    (s.planned total message).withDone 0 = s.planned total message := by
  have hzero : Binary64.ofFraction false 0 (max total 1) = .zero := Binary64.ofFraction_zero _
  simp only [withDone, planned, hzero]

end IndexStatus

namespace IndexRun

variable {j : Job} {p : Pool} {t : Turn} {files : List ScannedFile} {f : ScannedFile} {old : Stage}

/-! ## The counts of some turns -/

def Stage.number? : Stage → Option Nat
  | .counted number => some number
  | _ => none

def Pool.shows? (p : Pool) (t : Turn) : Option Nat :=
  (p.tasks[t.place]?).bind fun task => task.2.number?

def Job.counts (j : Job) (p : Pool) : List Turn → List Nat
  | [] => []
  | t :: ts => (p.shows? t).toList ++ j.counts (j.turn p t) ts

theorem Job.counts_append (ts us : List Turn) :
    j.counts p (ts ++ us) = j.counts p ts ++ j.counts (ts.foldl j.turn p) us := by
  induction ts generalizing p with
  | nil => rfl
  | cons t ts ih =>
    rw [List.cons_append, Job.counts, Job.counts, ih, List.append_assoc]
    rfl

theorem Pool.shows?_eq (h : p.tasks[t.place]? = some (f, old)) : p.shows? t = old.number? := by
  rw [shows?, h]
  rfl

theorem Pool.AtRest.shows? (h : p.AtRest t) : p.shows? t = none := by
  cases hf : p.tasks[t.place]? with
  | none => simp [Pool.shows?, hf]
  | some task =>
    obtain ⟨f, stage⟩ := task
    rw [Pool.shows?_eq hf]
    cases stage with
    | counted number => simpa [Stage.reason?] using h f _ hf
    | waiting | worked | shown | broken => rfl

theorem Job.filesDone_turn (j : Job) (p : Pool) (t : Turn) :
    (j.turn p t).status.filesDone = (p.shows? t).getD p.status.filesDone := by
  have ht := j.turned p t
  generalize j.turn p t = p' at ht
  cases ht with
  | idle hidle =>
    rw [hidle.shows?]
    rfl
  | worked hf => rw [Pool.shows?_eq hf]; rfl
  | broken hf => rw [Pool.shows?_eq hf]; rfl
  | counted hf => rw [Pool.shows?_eq hf]; rfl
  | shown hf hs =>
    rw [Pool.shows?_eq hf]
    exact (congrArg IndexStatus.filesDone hs).trans (IndexStatus.filesDone_withDone _)

theorem Job.filesDone_foldl (j : Job) (p : Pool) (ts : List Turn) :
    (ts.foldl j.turn p).status.filesDone =
      (j.counts p ts).getLast?.getD p.status.filesDone := by
  induction ts generalizing p with
  | nil => rfl
  | cons t ts ih =>
    rw [List.foldl_cons, ih, Job.filesDone_turn, Job.counts, List.getLast?_append]
    cases (j.counts (j.turn p t) ts).getLast? with
    | none => cases p.shows? t <;> rfl
    | some number => rfl

/-- No status of some turns has fewer files done than one before if and only if the counts that
are shown grow. -/
theorem Job.pairwise_filesDone_iff (j : Job) (p : Pool) (ts : List Turn) :
    (ts.scanl j.turn p).Pairwise (fun q q' => q.status.filesDone ≤ q'.status.filesDone) ↔
      (p.status.filesDone :: j.counts p ts).Pairwise (· ≤ ·) := by
  rw [← List.pairwise_map (f := fun q : Pool => q.status.filesDone) (R := (· ≤ ·)),
    ← List.isChain_iff_pairwise, ← List.isChain_iff_pairwise]
  induction ts generalizing p with
  | nil => simp [Job.counts]
  | cons t ts ih =>
    have hscan : ∃ rest, ts.scanl j.turn (j.turn p t) = j.turn p t :: rest := by
      cases ts with
      | nil => exact ⟨[], List.scanl_nil⟩
      | cons u ts => exact ⟨_, List.scanl_cons⟩
    obtain ⟨rest, hrest⟩ := hscan
    have hnext := ih (j.turn p t)
    rw [hrest, List.map_cons, Job.filesDone_turn] at hnext
    rw [List.scanl_cons, hrest, List.map_cons, List.map_cons, List.isChain_cons_cons,
      Job.filesDone_turn, hnext, Job.counts]
    cases p.shows? t with
    | none => simp
    | some number => simp

/-! ## Each count once -/

namespace Pool

/-- The counts of files that were counted and are not shown yet. -/
def pending (p : Pool) : List Nat := p.tasks.filterMap fun task => task.2.number?

def shownFiles (p : Pool) : Nat := p.tasks.countP fun task => task.2 = .shown

theorem exists_others (h : p.tasks[t.place]? = some (f, old)) :
    ∃ others, p.tasks.Perm ((f, old) :: others) ∧
      ∀ {q : Pool}, q.tasks = p.tasks → ∀ stage,
        (q.toStage t.place f stage).tasks.Perm ((f, stage) :: others) := by
  obtain ⟨hlt, hf⟩ := List.getElem?_eq_some_iff.mp h
  refine ⟨p.tasks.eraseIdx t.place, ?_, fun hq stage => ?_⟩
  · rw [← hf]
    exact (List.getElem_cons_eraseIdx_perm hlt).symm
  · rw [toStage, hq]
    exact List.set_perm_cons_eraseIdx hlt _

/-- The counts shown so far and the pending ones are all there are, each once, and the status
has the count that was shown last. -/
structure Books (p : Pool) (base : IndexStatus) (counts : List Nat) : Prop where
  status_eq : p.status = base.withDone (counts.getLast?.getD 0)
  numbers : (counts ++ p.pending).Perm (List.range' 1 p.done)
  shown : counts.length = p.shownFiles

variable {base : IndexStatus} {counts : List Nat} {q : Pool} {stage : Stage} {progress : Progress}

theorem pending_perm {others : List (ScannedFile × Stage)}
    (h : p.tasks.Perm ((f, stage) :: others)) :
    p.pending.Perm (stage.number?.toList ++ others.filterMap fun task => task.2.number?) := by
  refine (h.filterMap _).trans ?_
  cases hs : stage.number? <;> simp [hs]

theorem shownFiles_eq {others : List (ScannedFile × Stage)}
    (h : p.tasks.Perm ((f, stage) :: others)) :
    p.shownFiles =
      others.countP (fun task => task.2 = .shown) + if stage = .shown then 1 else 0 := by
  rw [shownFiles, h.countP_eq, List.countP_cons]
  simp

/-- A turn that neither counts a file nor shows one leaves the books alone. -/
theorem Books.go_on (h : p.Books base counts) (hq : q.tasks = p.tasks)
    (hstatus : q.status = p.status) (hdone : q.done = p.done)
    (hf : p.tasks[t.place]? = some (f, old)) (hold : old.number? = none ∧ old ≠ .shown)
    (hnew : stage.number? = none ∧ stage ≠ .shown) :
    (q.toStage t.place f stage).Books base counts := by
  obtain ⟨others, hbefore, hafter⟩ := exists_others hf
  refine ⟨hstatus.trans h.status_eq, ?_, ?_⟩
  · have hpending := pending_perm (hafter hq stage)
    rw [hnew.1, ← hold.1] at hpending
    have hnumbers := h.numbers
    rw [← hdone] at hnumbers
    exact ((hpending.trans (pending_perm hbefore).symm).append_left counts).trans hnumbers
  · rw [h.shown, shownFiles_eq hbefore, shownFiles_eq (hafter hq stage), if_neg hold.2,
      if_neg hnew.2]

theorem Books.count (h : p.Books base counts) (hf : p.tasks[t.place]? = some (f, .worked)) :
    ({ p with done := p.done + 1 }.toStage t.place f (.counted (p.done + 1))).Books base
      counts := by
  obtain ⟨others, hbefore, hafter⟩ := exists_others hf
  have hcounted := hafter (q := { p with done := p.done + 1 }) rfl (.counted (p.done + 1))
  refine ⟨h.status_eq, ?_, ?_⟩
  · have hpending := (pending_perm hcounted).trans
      (List.Perm.cons (p.done + 1) (pending_perm hbefore).symm)
    have hlast : List.range' 1 (p.done + 1) = List.range' 1 p.done ++ [p.done + 1] := by
      rw [List.range'_concat, Nat.one_mul, Nat.add_comm]
    calc counts ++ _
      _ ~ counts ++ (p.done + 1) :: p.pending := hpending.append_left counts
      _ ~ (p.done + 1) :: (counts ++ p.pending) := List.perm_middle
      _ ~ (p.done + 1) :: List.range' 1 p.done := h.numbers.cons _
      _ ~ List.range' 1 (p.done + 1) := by
        rw [hlast]
        exact (List.perm_append_singleton _ _).symm
  · rw [h.shown, shownFiles_eq hbefore, shownFiles_eq hcounted]
    simp

theorem Books.show (h : p.Books base counts) {number : Nat}
    (hf : p.tasks[t.place]? = some (f, .counted number)) {status : IndexStatus}
    (hs : status = p.status.withDone number) :
    ({ p with status := status }.toStage t.place f .shown).Books base (counts ++ [number]) := by
  obtain ⟨others, hbefore, hafter⟩ := exists_others hf
  have hshown := hafter (q := { p with status := status }) rfl .shown
  refine ⟨?_, ?_, ?_⟩
  · rw [List.getLast?_concat, Option.getD_some]
    refine hs.trans ?_
    rw [h.status_eq, IndexStatus.withDone_withDone]
  · have hpending := List.Perm.cons number (pending_perm hshown)
    refine List.Perm.trans ?_ h.numbers
    rw [List.append_assoc]
    exact ((hpending.trans (pending_perm hbefore).symm).append_left counts)
  · rw [List.length_append, h.shown, shownFiles_eq hbefore, shownFiles_eq hshown]
    simp

theorem Books.turn (h : p.Books base counts) (j : Job) (t : Turn) :
    (j.turn p t).Books base (counts ++ (p.shows? t).toList) := by
  have hnone : p.shows? t = none → counts ++ (p.shows? t).toList = counts := by
    intro hs
    rw [hs]
    exact List.append_nil _
  have ht := j.turned p t
  generalize j.turn p t = p' at ht
  cases ht with
  | idle hidle =>
    rw [hnone hidle.shows?]
    exact h
  | worked hf =>
    rw [hnone (shows?_eq hf)]
    exact h.go_on rfl rfl rfl hf (by simp [Stage.number?]) (by simp [Stage.number?])
  | broken hf =>
    rw [hnone (shows?_eq hf)]
    exact h.go_on rfl rfl rfl hf (by simp [Stage.number?]) (by simp [Stage.number?])
  | counted hf =>
    rw [hnone (shows?_eq hf)]
    exact h.count hf
  | shown hf hs =>
    rw [shows?_eq hf]
    exact h.show hf hs

theorem books_start (hbase : base.withDone 0 = base) :
    (start progress base files).Books base [] where
  status_eq := hbase.symm
  numbers := by simp [start, pending, Stage.number?, List.filterMap_map]
  shown := by simp [start, shownFiles, List.countP_map, Function.comp_def]

theorem Books.foldl (h : p.Books base counts) (j : Job) (ts : List Turn) :
    (ts.foldl j.turn p).Books base (counts ++ j.counts p ts) := by
  induction ts generalizing p counts with
  | nil => simpa [Job.counts] using h
  | cons t ts ih =>
    rw [List.foldl_cons, Job.counts, ← List.append_assoc]
    exact ih (h.turn j t)

theorem Books.done_le (h : p.Books base counts) : p.done ≤ p.tasks.length := by
  have hlength := h.numbers.length_eq
  rw [List.length_append, List.length_range', h.shown] at hlength
  have hpending : p.pending.length = p.tasks.countP fun task => task.2.number?.isSome :=
    List.length_filterMap_eq_countP
  have hdisjoint : p.shownFiles ≤ p.tasks.countP fun task => !task.2.number?.isSome := by
    refine List.countP_mono_left fun task _ hs => ?_
    rw [of_decide_eq_true hs]
    rfl
  have hall := List.length_eq_countP_add_countP (l := p.tasks)
    (p := fun task => task.2.number?.isSome)
  simp only [Bool.not_eq_true, Bool.decide_eq_false] at hall
  omega

theorem length_tasks_turn (j : Job) (p : Pool) (t : Turn) :
    (j.turn p t).tasks.length = p.tasks.length := by
  have h := congrArg List.length (j.map_fst_turn (p := p) (t := t))
  rwa [List.length_map, List.length_map] at h

theorem Books.scanl (h : p.Books base counts) (j : Job) (ts : List Turn) :
    ∀ q ∈ ts.scanl j.turn p,
      (∃ counts, q.Books base counts) ∧ q.tasks.length = p.tasks.length := by
  induction ts generalizing p counts with
  | nil => simpa using ⟨counts, h⟩
  | cons t ts ih =>
    intro q hq
    rw [List.scanl_cons, List.mem_cons] at hq
    rcases hq with rfl | hq
    · exact ⟨⟨counts, h⟩, rfl⟩
    · rw [← length_tasks_turn j p t]
      exact ih (h.turn j t) q hq

end Pool

/-! ## The end of a run -/

theorem Pool.AtRest.turn (h : p.AtRest t) (j : Job) : j.turn p t = p := by
  have ht := j.turned p t
  unfold Job.turn
  cases hf : p.tasks[t.place]? with
  | none => rfl
  | some task =>
    obtain ⟨f, stage⟩ := task
    rcases h f stage hf with rfl | hs | ⟨rfl, hlate, hreason⟩
    · rfl
    · cases stage with
      | broken => rfl
      | waiting | worked | counted | shown => cases hs
    · simp [hlate, hreason]

theorem Pool.AtRest.foldl_replicate (h : p.AtRest t) (j : Job) (n : Nat) :
    (List.replicate n t).foldl j.turn p = p := by
  induction n with
  | zero => rfl
  | succ n ih => rw [List.replicate_succ, List.foldl_cons, h.turn, ih]

theorem Pool.getElem?_toStage_self (h : p.tasks[t.place]? = some (f, old)) {stage : Stage} :
    (p.toStage t.place f stage).tasks[t.place]? = some (f, stage) := by
  rw [Pool.getElem?_toStage h, if_pos rfl]

theorem Pool.atRest_toStage {q : Pool} (hq : q.tasks = p.tasks)
    (hf : p.tasks[t.place]? = some (f, old)) {stage : Stage}
    (hs : stage = .shown ∨ stage.reason?.isSome = true) :
    (q.toStage t.place f stage).AtRest t := by
  intro g stage' hg
  rw [Pool.getElem?_toStage (hq ▸ hf), if_pos rfl] at hg
  obtain ⟨_, rfl⟩ := Prod.mk.inj (Option.some.inj hg)
  exact hs.imp_right .inl

theorem Job.turn_of_worked (h : p.tasks[t.place]? = some (f, .worked)) :
    (j.turn p t).tasks[t.place]? = some (f, .counted (p.done + 1)) ∧
      (j.turn p t).done = p.done + 1 := by
  have he : j.turn p t =
      { p with done := p.done + 1 }.toStage t.place f (.counted (p.done + 1)) := by
    simp only [Job.turn, h]
  rw [he]
  exact ⟨Pool.getElem?_toStage_self h, rfl⟩

theorem Job.turn_of_counted {number : Nat} (h : p.tasks[t.place]? = some (f, .counted number)) :
    (j.turn p t).AtRest t ∧ (j.turn p t).done = p.done := by
  obtain ⟨status, he⟩ : ∃ status, j.turn p t =
      { p with status := status }.toStage t.place f .shown :=
    ⟨p.status.withDone number, by simp only [Job.turn, h]⟩
  rw [he]
  exact ⟨Pool.atRest_toStage rfl h (.inl rfl), rfl⟩

theorem Job.foldl_three (j : Job) (p : Pool) (t : Turn) :
    (List.replicate 3 t).foldl j.turn p = j.turn (j.turn (j.turn p t) t) t := rfl

theorem Job.atRest_three (j : Job) (p : Pool) (t : Turn) :
    ((List.replicate 3 t).foldl j.turn p).AtRest t := by
  rw [j.foldl_three]
  have ht := j.turned p t
  generalize j.turn p t = p' at ht
  cases ht with
  | idle hrest => rwa [hrest.turn, hrest.turn]
  | @worked f progress hf _ =>
    have hw : ({ p with progress := progress }.toStage t.place f .worked).tasks[t.place]? =
        some (f, .worked) := Pool.getElem?_toStage_self hf
    exact (Job.turn_of_counted (Job.turn_of_worked hw).1).1
  | @broken f reason hf _ =>
    have hrest : (p.toStage t.place f (.broken reason)).AtRest t :=
      Pool.atRest_toStage rfl hf (.inr rfl)
    rwa [hrest.turn, hrest.turn]
  | @counted f hf =>
    have hc : ({ p with done := p.done + 1 }.toStage t.place f
        (.counted (p.done + 1))).tasks[t.place]? = some (f, .counted (p.done + 1)) :=
      Pool.getElem?_toStage_self hf
    have hrest := (Job.turn_of_counted (j := j) hc).1
    rwa [hrest.turn]
  | @shown f number status hf _ =>
    have hrest : ({ p with status := status }.toStage t.place f .shown).AtRest t :=
      Pool.atRest_toStage rfl hf (.inl rfl)
    rwa [hrest.turn, hrest.turn]

theorem Pool.AtRest.turn_of_ne (h : p.AtRest t) (j : Job) {u : Turn} (hne : t.place ≠ u.place) :
    (j.turn p u).AtRest t := by
  intro f stage hf
  rw [j.getElem?_turn_of_ne p hne] at hf
  rcases h f stage hf with hs | hs | ⟨hs, hlate, hreason⟩
  · exact .inl hs
  · exact .inr (.inl hs)
  · refine .inr (.inr ⟨hs, hlate, ?_⟩)
    by_contra hnone
    rw [Job.reason?_of_turn (Option.not_isSome_iff_eq_none.mp hnone)] at hreason
    cases hreason

theorem Pool.AtRest.foldl_of_ne (h : p.AtRest t) (j : Job) {us : List Turn}
    (hne : ∀ u ∈ us, t.place ≠ u.place) : (us.foldl j.turn p).AtRest t := by
  induction us generalizing p with
  | nil => exact h
  | cons u us ih =>
    exact ih (h.turn_of_ne j (hne u List.mem_cons_self)) fun v hv =>
      hne v (List.mem_cons_of_mem _ hv)

theorem threeTurns_concat (late : Bool) (places : List Nat) (i : Nat) :
    threeTurns late (places ++ [i]) = threeTurns late places ++ List.replicate 3 ⟨i, late⟩ := by
  simp [threeTurns]

theorem Job.atRest_range (j : Job) (p : Pool) (n : Nat) :
    ∀ i < n, ((threeTurns true (List.range n)).foldl j.turn p).AtRest ⟨i, true⟩ := by
  induction n with
  | zero => simp
  | succ n ih =>
    intro i hi
    rw [List.range_succ, threeTurns_concat, List.foldl_append]
    rcases Nat.lt_or_ge i n with hlt | hge
    · refine (ih i hlt).foldl_of_ne j fun u hu => ?_
      rw [List.eq_of_mem_replicate hu]
      exact Nat.ne_of_lt hlt
    · obtain rfl : i = n := by omega
      exact j.atRest_three _ _

variable {progress : Progress} {base : IndexStatus}

def Job.allCounts (j : Job) (schedule : Schedule) (files : List ScannedFile) (progress : Progress)
    (status : IndexStatus) : List Nat :=
  j.counts (.start progress status files) (j.turns schedule files)

theorem Job.exists_picked (j : Job) (schedule : Schedule) (files : List ScannedFile) :
    ∃ picked, j.turns schedule files = picked ++ threeTurns true (List.range files.length) := by
  cases schedule with
  | oneWorker => exact ⟨_, rfl⟩
  | picks places => exact ⟨_, rfl⟩

theorem Job.length_tasks_all (j : Job) (schedule : Schedule) :
    (j.all schedule files progress base).tasks.length = files.length := by
  have h : (j.all schedule files progress base).tasks.map Prod.fst = files :=
    Job.map_fst_foldl (j.turns schedule files)
  rw [← List.length_map, h]

theorem Job.all_atRest (j : Job) (schedule : Schedule) {stage : Stage}
    (hf : (f, stage) ∈ (j.all schedule files progress base).tasks) :
    stage = .shown ∨ stage.reason?.isSome = true ∨
      stage = .waiting ∧ (j.all schedule files progress base).reason?.isSome = true := by
  obtain ⟨i, hi⟩ := List.mem_iff_getElem?.mp hf
  have hlt : i < files.length := by
    rw [← j.length_tasks_all schedule]
    exact (List.getElem?_eq_some_iff.mp hi).1
  obtain ⟨picked, hpicked⟩ := j.exists_picked schedule files
  have hrest := j.atRest_range (picked.foldl j.turn (.start progress base files)) files.length i hlt
  rw [← List.foldl_append, ← hpicked] at hrest
  rcases hrest f stage hi with hs | hs | ⟨hs, _, hreason⟩
  · exact .inl hs
  · exact .inr (.inl hs)
  · exact .inr (.inr ⟨hs, hreason⟩)

theorem Job.books_all (hbase : base.withDone 0 = base) (j : Job) (schedule : Schedule)
    (files : List ScannedFile) (progress : Progress) :
    (j.all schedule files progress base).Books base (j.allCounts schedule files progress base) := by
  have hstart : (Pool.start progress base files).Books base [] := Pool.books_start hbase
  have h := hstart.foldl j (j.turns schedule files)
  rwa [List.nil_append] at h

theorem Job.allCounts_perm (hbase : base.withDone 0 = base) (j : Job) (schedule : Schedule)
    (files : List ScannedFile) (progress : Progress) :
    (j.allCounts schedule files progress base).Perm
      (List.range' 1 (j.all schedule files progress base).done) := by
  have hnone : (j.all schedule files progress base).pending = [] := by
    refine List.filterMap_eq_nil_iff.mpr fun task htask => ?_
    obtain ⟨f, stage⟩ := task
    rcases j.all_atRest schedule htask with rfl | hs | ⟨rfl, _⟩
    · rfl
    · cases stage with
      | broken => rfl
      | waiting | worked | counted | shown => cases hs
    · rfl
  have h := (j.books_all hbase schedule files progress).numbers
  rwa [hnone, List.append_nil] at h

theorem Job.length_allCounts (hbase : base.withDone 0 = base) {schedule : Schedule}
    (hreason : (j.all schedule files progress base).reason? = none) :
    (j.allCounts schedule files progress base).length = files.length := by
  rw [(j.books_all hbase schedule files progress).shown, ← j.length_tasks_all schedule]
  refine List.countP_eq_length.mpr fun task htask => ?_
  obtain ⟨f, stage⟩ := task
  rcases j.all_atRest schedule htask with hs | hs | ⟨_, hs⟩
  · simpa using hs
  · obtain ⟨i, hi⟩ := List.mem_iff_getElem?.mp htask
    rw [Pool.reason?_eq_none_iff.mp hreason i f stage hi] at hs
    cases hs
  · rw [hreason] at hs
    cases hs

theorem Pool.AtRest.counts_replicate (h : p.AtRest t) (j : Job) (n : Nat) :
    j.counts p (List.replicate n t) = [] := by
  induction n with
  | zero => rfl
  | succ n ih => rw [List.replicate_succ, Job.counts, h.turn, h.shows?, ih]; rfl

/-! ## One worker -/

def Pool.Tidy (p : Pool) : Prop :=
  ∀ (i : Nat) f stage, p.tasks[i]? = some (f, stage) →
    stage = .waiting ∨ stage = .shown ∨ stage.reason?.isSome = true

/-- Some turns show the next counts in order, and leave no file in the middle of its turns. -/
structure Pool.InOrder (j : Job) (p : Pool) (ts : List Turn) : Prop where
  counts_eq : j.counts p ts =
    List.range' (p.done + 1) ((ts.foldl j.turn p).done - p.done)
  done_le : p.done ≤ (ts.foldl j.turn p).done
  tidy : (ts.foldl j.turn p).Tidy

theorem Pool.InOrder.append {us ts : List Turn} (h : Pool.InOrder j p ts)
    (h' : Pool.InOrder j (ts.foldl j.turn p) us) : Pool.InOrder j p (ts ++ us) := by
  have hle := h.done_le
  have hle' := h'.done_le
  refine ⟨?_, ?_, ?_⟩
  · rw [Job.counts_append, h.counts_eq, h'.counts_eq, List.foldl_append]
    have hstart : (ts.foldl j.turn p).done + 1 =
        p.done + 1 + ((ts.foldl j.turn p).done - p.done) := by omega
    rw [hstart, List.range'_append_1]
    congr 1
    omega
  · rw [List.foldl_append]
    omega
  · rw [List.foldl_append]
    exact h'.tidy

theorem Pool.Tidy.three (h : p.Tidy) (j : Job) (t : Turn) :
    Pool.InOrder j p (List.replicate 3 t) := by
  have htidy : ((List.replicate 3 t).foldl j.turn p).Tidy := by
    intro i f stage hf
    by_cases hi : i = t.place
    · rcases j.atRest_three p t f stage (hi ▸ hf) with hs | hs | ⟨hs, _⟩
      · exact .inr (.inl hs)
      · exact .inr (.inr hs)
      · exact .inl hs
    · refine h i f stage ?_
      rwa [j.foldl_three, j.getElem?_turn_of_ne _ hi, j.getElem?_turn_of_ne _ hi,
        j.getElem?_turn_of_ne _ hi] at hf
  -- A pool in which the file is at rest shows nothing more.
  have hidle : ∀ {q : Pool} {n : Nat}, q.AtRest t → j.counts q (List.replicate n t) = [] ∧
      (List.replicate n t).foldl j.turn q = q :=
    fun hq => ⟨hq.counts_replicate j _, hq.foldl_replicate j _⟩
  have hthree : List.replicate 3 t = t :: List.replicate 2 t := rfl
  suffices hcounts : j.counts p (List.replicate 3 t) =
      List.range' (p.done + 1) (((List.replicate 3 t).foldl j.turn p).done - p.done) ∧
      p.done ≤ ((List.replicate 3 t).foldl j.turn p).done from
    ⟨hcounts.1, hcounts.2, htidy⟩
  rw [hthree, Job.counts, List.foldl_cons]
  have ht := j.turned p t
  generalize j.turn p t = p' at ht
  cases ht with
  | idle hrest =>
    obtain ⟨hcounts, hsame⟩ := hidle (n := 2) hrest
    rw [hrest.shows?, hcounts, hsame, Nat.sub_self]
    exact ⟨rfl, Nat.le_refl _⟩
  | @worked f progress hf _ =>
    obtain ⟨q, hq⟩ : ∃ q, q = { p with progress := progress }.toStage t.place f .worked := ⟨_, rfl⟩
    have hworked : q.tasks[t.place]? = some (f, .worked) := by
      rw [hq]
      exact Pool.getElem?_toStage_self hf
    have hdone : q.done = p.done := by rw [hq]; rfl
    obtain ⟨hcounted, hnext⟩ := Job.turn_of_worked (j := j) hworked
    obtain ⟨_, hlast⟩ := Job.turn_of_counted (j := j) hcounted
    have hend : ((List.replicate 2 t).foldl j.turn q).done = p.done + 1 := by
      rw [← hdone, ← hnext]
      exact hlast
    have hshown : j.counts q (List.replicate 2 t) = [p.done + 1] := by
      rw [List.replicate_succ, Job.counts, Pool.shows?_eq hworked, List.replicate_succ, Job.counts,
        Pool.shows?_eq hcounted, hdone]
      rfl
    rw [← hq, Pool.shows?_eq hf, hshown, hend]
    exact ⟨by simp [Stage.number?], Nat.le_succ _⟩
  | @broken f reason hf _ =>
    have hrest : (p.toStage t.place f (.broken reason)).AtRest t :=
      Pool.atRest_toStage rfl hf (.inr rfl)
    obtain ⟨hcounts, hsame⟩ := hidle (n := 2) hrest
    rw [Pool.shows?_eq hf, hcounts, hsame]
    exact ⟨by simp [Stage.number?, Pool.toStage], Nat.le_refl _⟩
  | counted hf =>
    rcases h _ _ _ hf with hs | hs | hs <;> cases hs
  | shown hf _ =>
    rcases h _ _ _ hf with hs | hs | hs <;> cases hs

theorem Pool.Tidy.threeTurns (h : p.Tidy) (j : Job) (late : Bool) (places : List Nat) :
    Pool.InOrder j p (threeTurns late places) := by
  induction places using List.reverseRecOn with
  | nil => exact ⟨by simp [IndexRun.threeTurns, Job.counts], Nat.le_refl _, h⟩
  | append_singleton places i ih =>
    rw [threeTurns_concat]
    exact ih.append (ih.tidy.three j _)

theorem Job.allCounts_oneWorker (j : Job) (files : List ScannedFile) (progress : Progress)
    (base : IndexStatus) :
    j.allCounts .oneWorker files progress base =
      List.range' 1 (j.all .oneWorker files progress base).done := by
  have hstart : (Pool.start progress base files).Tidy := fun i f stage hf =>
    .inl (Pool.getElem?_start.mp hf).2
  have hpicked := hstart.threeTurns j false (j.shares 1 false files.zipIdx).1
  have hall := hpicked.append (hpicked.tidy.threeTurns j true (List.range files.length))
  exact hall.counts_eq

end IndexRun

end CodeAtlas
