import CodeAtlas.Proofs.Index.Steps
import CodeAtlas.Proofs.Store.Attached

/-! # Records attached to names, in a run

How the records that a codebase holds by name change in a run, and which of them the files of
a tree have left after many runs.
-/

namespace CodeAtlas

open scoped List

namespace Attached

variable {α : Type} {v : Attached α} {s s' : Store} {c : Int}

/-! ## In the store -/

theorem held_deleteAll (h : s.Sound) (paths : List String) :
    v.held (IndexRun.deleteAll c s paths).1 c =
      v.without (paths.flatMap (s.namesAt c)) (v.held s c) := by
  induction paths generalizing s with
  | nil => exact without_nil.symm
  | cons path rest ih =>
    rw [IndexRun.deleteAll_cons, List.flatMap_cons]
    cases hd : s.deleteFile? c path with
    | none =>
      rw [Store.namesAt_eq_nil hd, List.nil_append]
      exact ih h
    | some s' =>
      -- A path that comes again has no names left, and those it had are dropped already.
      have hnames : ∀ n, n ∈ s.namesAt c path ++ rest.flatMap (s'.namesAt c) ↔
          n ∈ s.namesAt c path ++ rest.flatMap (s.namesAt c) := by
        intro n
        have hat : ∀ p, s'.namesAt c p = if p = path then [] else s.namesAt c p := by
          intro p
          simp only [h.namesAt_deleteFile? hd, true_and]
        simp only [List.mem_append, List.mem_flatMap, hat]
        constructor
        · rintro (hn | ⟨p, hp, hn⟩)
          · exact .inl hn
          · split at hn
            · simp at hn
            · exact .inr ⟨p, hp, hn⟩
        · rintro (hn | ⟨p, hp, hn⟩)
          · exact .inl hn
          · by_cases he : p = path
            · exact .inl (he ▸ hn)
            · exact .inr ⟨p, hp, by rwa [if_neg he]⟩
      simp only
      rw [ih (h.deleteFile? hd), v.held_deleteFile? hd, without_without]
      exact without_congr fun a _ => hnames _

end Attached

/-! ## Snapshots -/

/-- Source files at different paths, in the order in which a run works them through. -/
def Separate (files : List SourceFile) : Prop := (files.map SourceFile.path).Nodup

instance (files : List SourceFile) : Decidable (Separate files) :=
  inferInstanceAs (Decidable (files.map SourceFile.path).Nodup)

theorem Separate.ext {files : List SourceFile} (h : Separate files) {f g : SourceFile}
    (hf : f ∈ files) (hg : g ∈ files) (hp : f.path = g.path) : f = g :=
  List.inj_on_of_nodup_map h hf hg hp

theorem Separate.nodup {files : List SourceFile} (h : Separate files) : files.Nodup :=
  List.Nodup.of_map SourceFile.path h

theorem not_sublist_swap {α : Type} {as : List α} (h : as.Nodup) {a b : α} (hab : [a, b] <+ as) :
    ¬ [b, a] <+ as := by
  induction as with
  | nil => simp at hab
  | cons c as ih =>
    obtain ⟨hc, has⟩ := List.nodup_cons.mp h
    intro hba
    rcases List.sublist_cons_iff.mp hab with hab' | ⟨_, he, hb⟩
    · rcases List.sublist_cons_iff.mp hba with hba' | ⟨_, he, _⟩
      · exact ih has hab' hba'
      · obtain ⟨rfl, _⟩ := List.cons.inj he
        exact hc (hab'.subset (a := b) (by simp))
    · obtain ⟨rfl, rfl⟩ := List.cons.inj he
      rcases List.sublist_cons_iff.mp hba with hba' | ⟨_, he, _⟩
      · exact hc (hba'.subset (a := a) (by simp))
      · obtain ⟨rfl, _⟩ := List.cons.inj he
        exact hc (hb.subset (by simp))

namespace SourceFile

/-- The names that a run from one snapshot to the next takes from a file. These are the names
of the files that it gives up; from a file that it writes itself, only the names of those
that it writes over later. -/
def taken (f : SourceFile) (before after : List SourceFile) : List String :=
  (before.filter fun g => g ∉ after ∧
    (f ∈ before ∨ [f.path, g.path] <+ after.map path)).flatMap names

theorem mem_taken {f : SourceFile} {before after : List SourceFile} {n : String} :
    n ∈ f.taken before after ↔ ∃ g ∈ before, g ∉ after ∧
      (f ∈ before ∨ [f.path, g.path] <+ after.map path) ∧ n ∈ g.names := by
  simp only [taken, List.mem_flatMap, List.mem_filter, decide_eq_true_eq]
  constructor
  · rintro ⟨g, ⟨hg, hn, hc⟩, hm⟩
    exact ⟨g, hg, hn, hc, hm⟩
  · rintro ⟨g, hg, hn, hc, hm⟩
    exact ⟨g, ⟨hg, hn, hc⟩, hm⟩

/-- The names that other files took from a file of the latest snapshot since it was written.
The latest snapshot comes first. -/
def lost (f : SourceFile) : List (List SourceFile) → List String
  | after :: before :: earlier =>
    f.taken before after ++ if f ∈ before then f.lost (before :: earlier) else []
  | _ => []

/-- The names that a file of a snapshot declares at a path. -/
def namesIn (files : List SourceFile) (p : String) : List String :=
  ((files.find? fun g => g.path == p).map names).getD []

theorem mem_namesIn {files : List SourceFile} (h : Separate files) {p n : String} :
    n ∈ namesIn files p ↔ ∃ g ∈ files, g.path = p ∧ n ∈ g.names := by
  unfold namesIn
  constructor
  · intro hn
    cases hf : files.find? fun g => g.path == p with
    | none => simp [hf] at hn
    | some g =>
      simp only [hf, Option.map_some, Option.getD_some] at hn
      exact ⟨g, List.mem_of_find?_eq_some hf, by simpa using List.find?_some hf, hn⟩
  · rintro ⟨g, hg, rfl, hn⟩
    cases hf : files.find? fun g' => g'.path == g.path with
    | none =>
      have := List.find?_eq_none.mp hf g hg
      simp at this
    | some g' =>
      have hp : g'.path = g.path := by simpa using List.find?_some hf
      obtain rfl := h.ext (List.mem_of_find?_eq_some hf) hg hp
      simpa using hn

end SourceFile

namespace Attached

variable {α : Type} (v : Attached α)

/-- Files written one after another, each over what `old` says was there before. -/
def replay (old : SourceFile → List String) (files : List SourceFile) (as : List α) : List α :=
  files.foldl (fun as f => v.without (old f) as ++ v.items f.outline) as

/-- What is left of the records of files that are written one after another. -/
def leftOf (old : SourceFile → List String) : List SourceFile → List α
  | [] => []
  | f :: rest => v.without (rest.flatMap old) (v.items f.outline) ++ leftOf old rest

variable {v} {old : SourceFile → List String}

theorem replay_eq (files : List SourceFile) (as : List α) :
    v.replay old files as = v.without (files.flatMap old) as ++ v.leftOf old files := by
  induction files generalizing as with
  | nil => simp [replay, leftOf, without_nil]
  | cons f rest ih =>
    have hstep : v.replay old (f :: rest) as =
        v.replay old rest (v.without (old f) as ++ v.items f.outline) := rfl
    rw [hstep, ih, without_append, without_without, leftOf, List.flatMap_cons, List.append_assoc]

/-- The records of a file that no other file took since it was written. -/
def kept (v : Attached α) (history : List (List SourceFile)) (f : SourceFile) : List α :=
  v.without (f.lost history) (v.items f.outline)

section Run

variable {before after : List SourceFile}

/-- The names that a run drops: those of the files that it deletes, and those of the files
that it writes over. -/
def dropped (before after : List SourceFile) : List String :=
  (before.filter fun g => g.path ∉ after.map SourceFile.path).flatMap SourceFile.names ++
    (after.filter fun f => f ∉ before).flatMap fun f => SourceFile.namesIn before f.path

theorem mem_dropped (hb : Separate before) (ha : Separate after) {n : String} :
    n ∈ dropped before after ↔ ∃ g ∈ before, g ∉ after ∧ n ∈ g.names := by
  simp only [dropped, List.mem_append, List.mem_flatMap, List.mem_filter, decide_eq_true_eq,
    SourceFile.mem_namesIn hb]
  constructor
  · rintro (⟨g, ⟨hg, hp⟩, hn⟩ | ⟨f, ⟨hf, hfb⟩, g, hg, hp, hn⟩)
    · exact ⟨g, hg, fun hga => hp (List.mem_map_of_mem hga), hn⟩
    · exact ⟨g, hg, fun hga => hfb (ha.ext hga hf hp ▸ hg), hn⟩
  · rintro ⟨g, hg, hga, hn⟩
    by_cases hp : g.path ∈ after.map SourceFile.path
    · obtain ⟨f, hf, hfp⟩ := List.mem_map.mp hp
      have hfb : f ∉ before := fun hfb => hga (hb.ext hfb hg hfp ▸ hf)
      exact .inr ⟨f, ⟨hf, hfb⟩, g, hg, hfp.symm, hn⟩
    · exact .inl ⟨g, ⟨hg, hp⟩, hn⟩

theorem leftOf_eq (hb : Separate before) (ha : Separate after) :
    v.leftOf (fun f => SourceFile.namesIn before f.path) (after.filter fun f => f ∉ before) =
      (after.filter fun f => f ∉ before).flatMap fun f =>
        v.without (f.taken before after) (v.items f.outline) := by
  -- The induction is on a final part of the written files; those in front of it come first.
  suffices h : ∀ front rest, (after.filter fun f => f ∉ before) = front ++ rest →
      v.leftOf (fun f => SourceFile.namesIn before f.path) rest =
        rest.flatMap fun f => v.without (f.taken before after) (v.items f.outline) from
    h [] _ rfl
  intro front rest hsplit
  induction rest generalizing front with
  | nil => rfl
  | cons f rest ih =>
    rw [leftOf, List.flatMap_cons, ih (front ++ [f]) (by simpa using hsplit)]
    congr 1
    refine without_congr fun a _ => ?_
    have hsub : front ++ f :: rest <+ after := hsplit ▸ List.filter_sublist
    have hmem : ∀ g, g ∈ front ++ f :: rest ↔ g ∈ after ∧ g ∉ before := by
      intro g
      rw [← hsplit]
      simp
    have hf := (hmem f).mp (by simp)
    rw [SourceFile.mem_taken, List.mem_flatMap]
    simp only [SourceFile.mem_namesIn hb, hf.2, false_or]
    constructor
    · rintro ⟨g, hg, g', hg', hp, hn⟩
      have hga := (hmem g).mp (by simp [hg])
      have hlater : [f, g] <+ after :=
        (((List.singleton_sublist.mpr hg).cons_cons f).trans
          (List.sublist_append_right front _)).trans hsub
      refine ⟨g', hg', fun hc => hga.2 (ha.ext hc hga.1 hp ▸ hg'), ?_, hn⟩
      rw [hp]
      exact hlater.map SourceFile.path
    · rintro ⟨g', hg', hga', hlater, hn⟩
      obtain ⟨g, hg, hgp⟩ := List.mem_map.mp (hlater.subset (a := g'.path) (by simp))
      have hgb : g ∉ before := fun hgb => hga' (hb.ext hgb hg' hgp ▸ hg)
      refine ⟨g, ?_, g', hg', hgp.symm, hn⟩
      rw [← hgp] at hlater
      rcases List.mem_append.mp ((hmem g).mpr ⟨hg, hgb⟩) with hm | hm
      · -- A file in front is not written over later.
        have hearlier : [g, f] <+ after :=
          ((List.singleton_sublist.mpr hm).append
            (List.singleton_sublist.mpr List.mem_cons_self)).trans hsub
        exact absurd (hearlier.map SourceFile.path) (not_sublist_swap ha hlater)
      · rcases List.mem_cons.mp hm with rfl | hm
        · exact absurd hlater (List.nodup_iff_sublist.mp ha _)
        · exact hm

variable {earlier : List (List SourceFile)} {f : SourceFile}

theorem without_dropped_of_mem (hb : Separate before) (ha : Separate after) (hf : f ∈ before) :
    v.without (dropped before after) (v.kept (before :: earlier) f) =
      v.kept (after :: before :: earlier) f := by
  rw [kept, kept, without_without]
  refine without_congr fun a _ => ?_
  simp only [SourceFile.lost, List.mem_append, mem_dropped hb ha, SourceFile.mem_taken,
    hf, true_or, true_and]
  exact or_comm

theorem without_dropped_of_not_mem (hb : Separate before) (ha : Separate after) (hf : f ∈ before)
    (hfa : f ∉ after) (hclosed : ∀ a ∈ v.items f.outline, v.name a ∈ f.names) :
    v.without (dropped before after) (v.kept (before :: earlier) f) = [] :=
  without_eq_nil fun a ham =>
    (mem_dropped hb ha).mpr ⟨f, hf, hfa, hclosed a (mem_without.mp ham).1⟩

theorem kept_perm (hb : Separate before) (ha : Separate after)
    (hclosed : ∀ f ∈ before, ∀ a ∈ v.items f.outline, v.name a ∈ f.names) {as : List α}
    (has : as.Perm (before.flatMap (v.kept (before :: earlier)))) :
    (v.without (dropped before after) as ++
      v.leftOf (fun f => SourceFile.namesIn before f.path) (after.filter fun f => f ∉ before)).Perm
      (after.flatMap (v.kept (after :: before :: earlier))) := by
  have hold : v.without (dropped before after) (before.flatMap (v.kept (before :: earlier))) =
      (before.filter fun f => f ∈ after).flatMap (v.kept (after :: before :: earlier)) := by
    rw [without_flatMap, flatMap_eq_flatMap_filter (fun f => decide (f ∈ after))]
    · refine List.flatMap_congr fun f hf => ?_
      exact without_dropped_of_mem hb ha (List.mem_of_mem_filter hf)
    · intro f hf hfa
      exact without_dropped_of_not_mem hb ha hf (by simpa using hfa) (hclosed f hf)
  have hnew : v.leftOf (fun f => SourceFile.namesIn before f.path)
      (after.filter fun f => f ∉ before) =
        (after.filter fun f => f ∉ before).flatMap (v.kept (after :: before :: earlier)) := by
    rw [leftOf_eq hb ha]
    refine List.flatMap_congr fun f hf => ?_
    have hfb : f ∉ before := by simpa using (List.mem_filter.mp hf).2
    rw [kept, SourceFile.lost, if_neg hfb, List.append_nil]
  have hboth : (before.filter fun f => f ∈ after).Perm (after.filter fun f => f ∈ before) := by
    refine (List.perm_ext_iff_of_nodup (hb.nodup.filter _)
      (ha.nodup.filter _)).mpr fun f => ?_
    simp [and_comm]
  rw [hnew]
  calc v.without (dropped before after) as ++
        (after.filter fun f => f ∉ before).flatMap (v.kept (after :: before :: earlier))
    _ ~ (before.filter fun f => f ∈ after).flatMap (v.kept (after :: before :: earlier)) ++
        (after.filter fun f => f ∉ before).flatMap (v.kept (after :: before :: earlier)) := by
      rw [← hold]
      exact (without_perm has).append_right _
    _ ~ (after.filter fun f => f ∈ before).flatMap (v.kept (after :: before :: earlier)) ++
        (after.filter fun f => f ∉ before).flatMap (v.kept (after :: before :: earlier)) :=
      (hboth.flatMap_right _).append_right _
    _ ~ after.flatMap (v.kept (after :: before :: earlier)) := by
      rw [← List.flatMap_append]
      refine List.Perm.flatMap_right _ ?_
      simpa using List.filter_append_perm (fun f => decide (f ∈ before)) after

end Run

theorem length_flatMap_le {β γ : Type} {g h : β → List γ} {bs : List β}
    (hle : ∀ b ∈ bs, (g b).length ≤ (h b).length) :
    (bs.flatMap g).length ≤ (bs.flatMap h).length := by
  induction bs with
  | nil => exact Nat.le_refl _
  | cons b bs ih =>
    have hb := hle b List.mem_cons_self
    have hbs := ih fun c hc => hle c (List.mem_cons_of_mem _ hc)
    simp only [List.flatMap_cons, List.length_append]
    omega

theorem length_eq_of_flatMap {β γ : Type} {g h : β → List γ} {bs : List β}
    (hle : ∀ b ∈ bs, (g b).length ≤ (h b).length)
    (heq : (bs.flatMap g).length = (bs.flatMap h).length) :
    ∀ b ∈ bs, (g b).length = (h b).length := by
  induction bs with
  | nil => simp
  | cons b bs ih =>
    simp only [List.flatMap_cons, List.length_append] at heq
    have hb := hle b List.mem_cons_self
    have hbs : (bs.flatMap g).length ≤ (bs.flatMap h).length :=
      length_flatMap_le fun c hc => hle c (List.mem_cons_of_mem _ hc)
    intro c hc
    rcases List.mem_cons.mp hc with rfl | hc
    · omega
    · exact ih (fun d hd => hle d (List.mem_cons_of_mem _ hd)) (by omega) c hc

/-- Nothing is missing from what is kept exactly when no file lost a name it has records at. -/
theorem perm_items_iff {files : List SourceFile} {history : List (List SourceFile)} {as : List α}
    (has : as.Perm (files.flatMap (v.kept history))) :
    as.Perm (files.flatMap fun f => v.items f.outline) ↔
      ∀ f ∈ files, ∀ a ∈ v.items f.outline, v.name a ∉ f.lost history := by
  constructor
  · intro h f hf a ha
    have hlen := length_eq_of_flatMap (g := v.kept history) (h := fun f => v.items f.outline)
      (fun f _ => List.length_filter_le _ _) (has.symm.trans h).length_eq f hf
    have hall := List.length_filter_eq_length_iff.mp hlen a ha
    simpa using hall
  · intro h
    refine has.trans (List.Perm.of_eq (List.flatMap_congr fun f hf => ?_))
    exact List.filter_eq_self.mpr fun a ha => by simpa using h f hf a ha

end Attached

end CodeAtlas
