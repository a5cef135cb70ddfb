import CodeAtlas.Proofs.Index.Attached
import CodeAtlas.Proofs.Index.Synchronised
import CodeAtlas.Proofs.Java.Naming

/-! # Call edges and annotations after many runs

After full runs of a codebase that all went well, the call edges and annotations that it
holds are those of the files on disk, except for the records at names that another file took
from their file. So they are exactly those of the files on disk when no name was taken, and
this is the only case.
-/

namespace CodeAtlas

/-- The source files that a scan of a root finds and a front end can read, in the order in which
the workers begin them. -/
def FrontEnd.snapshot (frontEnd : FrontEnd) (excluded : List String) (root : String)
    (w : Surroundings) : List SourceFile :=
  match (Scanner.make frontEnd.extensions excluded true).scan w.tree [] root with
  | .ok found => (w.schedule.arrange found).filterMap (frontEnd.sourceFile? w.tree)
  | .error _ => []

/-- The snapshots that runs see, latest first, down to the empty one before them. -/
def FrontEnd.history (frontEnd : FrontEnd) (excluded : List String) (root : String)
    (ws : List Surroundings) : List (List SourceFile) :=
  (ws.map fun w => frontEnd.snapshot excluded root w) ++ [[]]

/-- A codebase holds the rows of some source files, and no others. -/
structure Store.Shows (s : Store) (c : Int) (frontEnd : FrontEnd) (files : List SourceFile) :
    Prop where
  separate : Separate files
  readBy : ∀ f ∈ files, f.ReadBy frontEnd
  mem_iff : ∀ x, x ∈ s.storedFiles c ↔ ∃ f ∈ files, x = f.stored frontEnd c

namespace Store.Shows

variable {s : Store} {c : Int} {frontEnd : FrontEnd} {files : List SourceFile}

theorem storedAt?_eq_some_iff (h : s.Shows c frontEnd files) (hs : s.Sound) {p : String}
    {x : StoredFile} :
    s.storedAt? c p = some x ↔ ∃ f ∈ files, f.path = p ∧ x = f.stored frontEnd c := by
  rw [hs.storedAt?_eq_some_iff, h.mem_iff]
  constructor
  · rintro ⟨⟨f, hf, rfl⟩, hp⟩
    exact ⟨f, hf, hp, rfl⟩
  · rintro ⟨f, hf, hp, rfl⟩
    exact ⟨⟨f, hf, rfl⟩, hp⟩

theorem mem_namesAt_iff (h : s.Shows c frontEnd files) (hs : s.Sound) {p n : String} :
    n ∈ s.namesAt c p ↔ n ∈ SourceFile.namesIn files p := by
  rw [SourceFile.mem_namesIn h.separate]
  unfold Store.namesAt
  constructor
  · intro hn
    cases hx : s.storedAt? c p with
    | none => simp [hx] at hn
    | some x =>
      obtain ⟨f, hf, hp, rfl⟩ := (h.storedAt?_eq_some_iff hs).mp hx
      rw [hx] at hn
      exact ⟨f, hf, hp, hn⟩
  · rintro ⟨f, hf, hp, hn⟩
    rw [(h.storedAt?_eq_some_iff hs).mpr ⟨f, hf, hp, rfl⟩]
    exact hn

end Store.Shows

namespace IndexRun

variable {α : Type} {v : Attached α} {r : OpenRun} {w : Surroundings} {frontEnd : FrontEnd}
  {s s' : Store} {before : List SourceFile} {found : List ScannedFile} {plan : IndexPlan}
  {contents : Set (List UInt8)}

/-- The deletions of a full run leave the paths that the scan found as they are. -/
theorem storedAt?_cleared_of_mem (hs : s.Sound) (hplan : plan = .ofScan s r.codebase.id found)
    {f : ScannedFile} (hf : f ∈ found) :
    (cleared r s plan).storedAt? r.codebase.id f.relPath =
      s.storedAt? r.codebase.id f.relPath := by
  rw [cleared, storedAt?_deleteAll hs, if_neg]
  rintro ⟨_, hd⟩
  exact ((IndexPlan.mem_delete_ofScan hs).mp (hplan ▸ hd)).2 f hf rfl

theorem skips_iff_mem (hinj : Set.InjOn contentHash contents) (hs : s.Sound)
    (hshows : s.Shows r.codebase.id frontEnd before) (hbefore : ∀ g ∈ before, g.content ∈ contents)
    (hw : ∀ content, w.tree.Holds content → content ∈ contents) (hforce : r.force = false)
    (hplan : plan = .ofScan s r.codebase.id found) {f : ScannedFile} (hf : f ∈ found)
    {y : SourceFile} (hy : frontEnd.sourceFile? w.tree f = some y) :
    (jobOf r w frontEnd s plan).Skips f ↔ y ∈ before := by
  obtain ⟨hp, hread, hby⟩ := FrontEnd.sourceFile?_eq_some_iff.mp hy
  have hknown : (jobOf r w frontEnd s plan).known =
      (cleared r s plan).fileHashes r.codebase.id := by
    simp [jobOf, hforce]
  have hknows : ∀ hash, (jobOf r w frontEnd s plan).knows f.relPath hash = true ↔
      ∃ x, (cleared r s plan).storedAt? r.codebase.id f.relPath = some x ∧ x.entry.hash = hash :=
    fun _ => knows_iff (deleteAll_sound hs _) hknown
  have hskips : (jobOf r w frontEnd s plan).Skips f ↔
      ∃ x, s.storedAt? r.codebase.id f.relPath = some x ∧ x.entry.hash = contentHash y.content := by
    rw [← storedAt?_cleared_of_mem hs hplan hf, ← hknows]
    constructor
    · rintro ⟨content, hr, hk⟩
      obtain rfl := Except.ok.inj (hread.symm.trans hr)
      exact hk
    · exact fun hk => ⟨y.content, hread, hk⟩
  rw [hskips]
  constructor
  · rintro ⟨x, hx, hh⟩
    obtain ⟨g, hg, hgp, rfl⟩ := (hshows.storedAt?_eq_some_iff hs).mp hx
    have hc : g.content = y.content :=
      hinj (hbefore g hg) (hw _ (FileTree.holds_of_read hread)) hh
    exact SourceFile.eq_of_readBy (hshows.readBy g hg) hby (hgp.trans hp.symm) hc ▸ hg
  · intro hm
    exact ⟨_, (hshows.storedAt?_eq_some_iff hs).mpr ⟨y, hm, hp, rfl⟩, rfl⟩

/-- The records of a run part of the way, where files are still as they were. -/
structure Replayed (v : Attached α) (r : OpenRun) (w : Surroundings) (frontEnd : FrontEnd)
    (s : Store) (plan : IndexPlan) (before : List SourceFile) (done : List ScannedFile)
    (s' : Store) : Prop where
  sound : s'.Sound
  others : ∀ q, q ∉ done.map ScannedFile.relPath →
    s'.storedAt? r.codebase.id q = (cleared r s plan).storedAt? r.codebase.id q
  held : v.held s' r.codebase.id =
    v.replay (fun f => SourceFile.namesIn before f.path)
      ((done.filterMap (frontEnd.sourceFile? w.tree)).filter fun f => f ∉ before)
      (v.held (cleared r s plan) r.codebase.id)

theorem Replayed.skip {done : List ScannedFile} {f : ScannedFile}
    (h : Replayed v r w frontEnd s plan before done s') {y : SourceFile}
    (hy : frontEnd.sourceFile? w.tree f = some y) (hm : y ∈ before) :
    Replayed v r w frontEnd s plan before (done ++ [f]) s' where
  sound := h.sound
  others q hq := h.others q fun hd => hq (by simp [List.map_append, hd])
  held := by
    rw [h.held]
    simp [List.filterMap_append, hy, hm]

theorem Replayed.store {done : List ScannedFile} {f : ScannedFile}
    (h : Replayed v r w frontEnd s plan before done s') {y : SourceFile}
    (hy : frontEnd.sourceFile? w.tree f = some y) (hm : y ∉ before)
    (hnames : ∀ n, n ∈ s'.namesAt r.codebase.id y.path ↔ n ∈ SourceFile.namesIn before y.path)
    {s'' : Store} {id : Int}
    (hr : s'.replaceFile (y.entry frontEnd r.codebase.id) y.outline = (.ok id, s'')) :
    Replayed v r w frontEnd s plan before (done ++ [f]) s'' where
  sound := h.sound.replaceFile hr
  others q hq := by
    have hp : y.path = f.relPath := (FrontEnd.sourceFile?_eq_some_iff.mp hy).1
    simp only [List.map_append, List.mem_append, List.map_cons, List.map_nil, List.mem_singleton,
      not_or] at hq
    rw [h.sound.storedAt?_replaceFile hr, if_neg, h.others q hq.1]
    rintro ⟨_, he⟩
    exact hq.2 (he.trans hp)
  held := by
    have hheld := v.held_replaceFile h.sound hr
    have hold : v.held s'' r.codebase.id =
        v.without (SourceFile.namesIn before y.path) (v.held s' r.codebase.id) ++
          v.items y.outline := by
      rw [← Attached.without_congr fun a _ => hnames (v.name a)]
      exact hheld
    rw [hold, h.held]
    simp [List.filterMap_append, hy, hm, Attached.replay, List.filter_append]

theorem map_path_filterMap {t : FileTree} {files : List ScannedFile}
    (hread : ∀ f ∈ files, ∃ y, frontEnd.sourceFile? t f = some y) :
    (files.filterMap (frontEnd.sourceFile? t)).map SourceFile.path =
      files.map ScannedFile.relPath := by
  induction files with
  | nil => rfl
  | cons f files ih =>
    obtain ⟨y, hy⟩ := hread f List.mem_cons_self
    rw [List.filterMap_cons_some hy, List.map_cons, List.map_cons,
      (FrontEnd.sourceFile?_eq_some_iff.mp hy).1,
      ih fun g hg => hread g (List.mem_cons_of_mem _ hg)]

theorem mem_names_delete {c : Int} (hs : s.Sound) (hshows : s.Shows c frontEnd before)
    {n : String} :
    n ∈ (IndexPlan.ofScan s c found).delete.flatMap (s.namesAt c) ↔
      n ∈ (before.filter fun g => g.path ∉ found.map ScannedFile.relPath).flatMap
        SourceFile.names := by
  simp only [List.mem_flatMap, IndexPlan.mem_delete_ofScan hs, hshows.mem_namesAt_iff hs,
    SourceFile.mem_namesIn hshows.separate, List.mem_filter, decide_eq_true_eq, List.mem_map]
  constructor
  · rintro ⟨p, ⟨_, hp⟩, g, hg, rfl, hn⟩
    exact ⟨g, ⟨hg, fun ⟨f, hf, he⟩ => hp f hf he⟩, hn⟩
  · rintro ⟨g, ⟨hg, hp⟩, hn⟩
    refine ⟨g.path, ⟨⟨g.stored frontEnd c, ?_⟩, fun f hf he => hp ⟨f, hf, he⟩⟩, g, hg, rfl, hn⟩
    exact (hshows.storedAt?_eq_some_iff hs).mpr ⟨g, hg, rfl, rfl⟩

/-- Up to a file the codebase holds at its path the names that it held before. -/
theorem Replayed.mem_namesAt {done : List ScannedFile} {f : ScannedFile}
    (h : Replayed v r w frontEnd s plan before done s') (hs : s.Sound)
    (hshows : s.Shows r.codebase.id frontEnd before) (hplan : plan = .ofScan s r.codebase.id found)
    (hf : f ∈ found) (hfresh : f.relPath ∉ done.map ScannedFile.relPath) {n : String} :
    n ∈ s'.namesAt r.codebase.id f.relPath ↔ n ∈ SourceFile.namesIn before f.relPath := by
  have hat : s'.storedAt? r.codebase.id f.relPath = s.storedAt? r.codebase.id f.relPath := by
    rw [h.others _ hfresh, storedAt?_cleared_of_mem hs hplan hf]
  rw [← hshows.mem_namesAt_iff hs, Store.namesAt, hat, Store.namesAt]

/-- A full run without failures writes the files that the codebase does not show. -/
theorem replayed_of_works (hinj : Set.InjOn contentHash contents) (hs : s.Sound)
    (hshows : s.Shows r.codebase.id frontEnd before) (hbefore : ∀ g ∈ before, g.content ∈ contents)
    (hw : ∀ content, w.tree.Holds content → content ∈ contents) (hforce : r.force = false)
    (hplan : plan = .ofScan s r.codebase.id found) (hn : (found.map ScannedFile.relPath).Nodup)
    (hread : ∀ f ∈ found, ∃ y, frontEnd.sourceFile? w.tree f = some y) {p : Progress}
    (hrun : (jobOf r w frontEnd s plan).Works (outset r s plan) (w.schedule.arrange found) p)
    (hf : p.failed = 0) :
    Replayed v r w frontEnd s plan before (w.schedule.arrange found) p.store := by
  have hperm := w.schedule.arrange_perm found
  have hmem : ∀ {done f}, done ++ [f] <+: w.schedule.arrange found → f ∈ found :=
    fun hpre => hperm.mem_iff.mp (hpre.subset (by simp))
  have hstart : Replayed v r w frontEnd s plan before [] (outset r s plan).store :=
    { sound := deleteAll_sound hs _, others := fun _ _ => rfl, held := rfl }
  refine hrun.induction_of_no_failure (P := Replayed v r w frontEnd s plan before)
    (fun hpre hskips h => ?_) (fun {done f s' s'' y id} hpre hskips hy hr h => ?_) hf hstart
  · obtain ⟨y, hy⟩ := hread _ (hmem hpre)
    exact h.skip hy
      ((skips_iff_mem hinj hs hshows hbefore hw hforce hplan (hmem hpre) hy).mp hskips)
  · have hfm := hmem hpre
    have hp : y.path = f.relPath := (FrontEnd.sourceFile?_eq_some_iff.mp hy).1
    have hfresh : f.relPath ∉ done.map ScannedFile.relPath := by
      have hnodup := ((hperm.map ScannedFile.relPath).nodup_iff.mpr hn).sublist
        (hpre.sublist.map ScannedFile.relPath)
      rw [List.map_append, List.map_singleton, List.nodup_append] at hnodup
      exact fun hd => hnodup.2.2 _ hd _ (List.mem_singleton_self _) rfl
    refine h.store hy (fun hm => hskips ?_) (fun n => ?_) hr
    · exact (skips_iff_mem hinj hs hshows hbefore hw hforce hplan hfm hy).mpr hm
    · rw [hp]
      exact h.mem_namesAt hs hshows hplan hfm hfresh

theorem Replayed.held_eq {files : List ScannedFile} (hfiles : files.Perm found)
    (h : Replayed v r w frontEnd s plan before files s') (hs : s.Sound)
    (hshows : s.Shows r.codebase.id frontEnd before) (hplan : plan = .ofScan s r.codebase.id found)
    (hread : ∀ f ∈ files, ∃ y, frontEnd.sourceFile? w.tree f = some y) :
    v.held s' r.codebase.id =
      v.without (Attached.dropped before (files.filterMap (frontEnd.sourceFile? w.tree)))
        (v.held s r.codebase.id) ++
      v.leftOf (fun f => SourceFile.namesIn before f.path)
        ((files.filterMap (frontEnd.sourceFile? w.tree)).filter fun f => f ∉ before) := by
  rw [h.held, Attached.replay_eq, cleared, Attached.held_deleteAll hs, Attached.without_without]
  congr 1
  refine Attached.without_congr fun a _ => ?_
  simp only [Attached.dropped, List.mem_append, map_path_filterMap hread,
    (hfiles.map ScannedFile.relPath).mem_iff]
  rw [hplan]
  exact or_congr_left (mem_names_delete hs hshows)

end IndexRun

/-! ## Histories -/

namespace FrontEnd

variable {frontEnd : FrontEnd} {excluded : List String} {root : String} {w : Surroundings}
  {found : List ScannedFile}

theorem snapshot_eq
    (h : (Scanner.make frontEnd.extensions excluded true).scan w.tree [] root = .ok found) :
    frontEnd.snapshot excluded root w =
      (w.schedule.arrange found).filterMap (frontEnd.sourceFile? w.tree) := by
  simp [snapshot, h]

theorem holds_of_mem_snapshot {f : SourceFile} (h : f ∈ frontEnd.snapshot excluded root w) :
    w.tree.Holds f.content := by
  unfold snapshot at h
  split at h
  · obtain ⟨g, _, hg⟩ := List.mem_filterMap.mp h
    exact FileTree.holds_of_read (sourceFile?_eq_some_iff.mp hg).2.1
  · simp at h

/-- Where all names are text, the files of a snapshot have different paths. -/
theorem separate_snapshot (ht : w.tree.Proper) (htext : w.tree.Textual) :
    Separate (frontEnd.snapshot excluded root w) := by
  cases hscan : (Scanner.make frontEnd.extensions excluded true).scan w.tree [] root with
  | error e => simp [snapshot, hscan, Separate]
  | ok found =>
    have hnodup : ((w.schedule.arrange found).map ScannedFile.relPath).Nodup :=
      ((w.schedule.arrange_perm found).map ScannedFile.relPath).nodup_iff.mpr
        (Scanner.scan_nodup ht htext hscan)
    rw [snapshot_eq hscan]
    refine List.pairwise_map.mpr (List.Pairwise.filterMap _ ?_ (List.pairwise_map.mp hnodup))
    intro f g hne y hy z hz
    rwa [(sourceFile?_eq_some_iff.mp hy).1, (sourceFile?_eq_some_iff.mp hz).1]

end FrontEnd

theorem Store.Mirrors.shows {s : Store} {c : Int} {frontEnd : FrontEnd} {t : FileTree}
    {found files : List ScannedFile} (h : s.Mirrors c frontEnd t found)
    (hfiles : files.Perm found)
    (hpaths : ∀ f ∈ found, ∀ g ∈ found, f.relPath = g.relPath → f = g)
    (hs : Separate (files.filterMap (frontEnd.sourceFile? t))) :
    s.Shows c frontEnd (files.filterMap (frontEnd.sourceFile? t)) where
  separate := hs
  readBy f hf := by
    obtain ⟨g, _, hg⟩ := List.mem_filterMap.mp hf
    exact (FrontEnd.sourceFile?_eq_some_iff.mp hg).2.2
  mem_iff x := by
    rw [h.mem_iff hpaths]
    simp only [List.mem_filterMap, hfiles.mem_iff]
    constructor
    · rintro ⟨f, hf, y, hy, rfl⟩
      exact ⟨y, ⟨f, hf, hy⟩, rfl⟩
    · rintro ⟨y, ⟨f, hf, hy⟩, rfl⟩
      exact ⟨f, hf, y, hy, rfl⟩

/-- A full run without failures shows the files on disk, and keeps what no file took. -/
theorem IndexRun.run_kept {α : Type} {v : Attached α} {registry : Registry}
    {excluded : List String} {r : OpenRun} {w : Surroundings} {frontEnd : FrontEnd} {s : Store}
    {status : IndexStatus} {contents : Set (List UInt8)} (hinj : Set.InjOn contentHash contents)
    (hs : s.Sound)
    (hlang : registry.forLanguage r.codebase.data.language = some frontEnd)
    (hv : s.Vouched contents frontEnd r.codebase.id) {before : List SourceFile}
    (hshows : s.Shows r.codebase.id frontEnd before) (hbefore : ∀ g ∈ before, g.content ∈ contents)
    (hw : ∀ content, w.tree.Holds content → content ∈ contents)
    (hseparate : Separate (frontEnd.snapshot excluded r.codebase.data.rootPath w))
    (hclosed : ∀ f : SourceFile, f.ReadBy frontEnd → ∀ a ∈ v.items f.outline, v.name a ∈ f.names)
    (hforce : r.force = false) {summary : IndexSummary}
    (hrun : (run registry excluded r w s status).outcome = .ok summary)
    (hm : summary.mode = .full) (hf : summary.failed = 0) {earlier : List (List SourceFile)}
    (hheld : (v.held s r.codebase.id).Perm (before.flatMap (v.kept (before :: earlier)))) :
    (run registry excluded r w s status).store.Shows r.codebase.id frontEnd
      (frontEnd.snapshot excluded r.codebase.data.rootPath w) ∧
    (v.held (run registry excluded r w s status).store r.codebase.id).Perm
      ((frontEnd.snapshot excluded r.codebase.data.rootPath w).flatMap
        (v.kept (frontEnd.snapshot excluded r.codebase.data.rootPath w :: before ::
          earlier))) := by
  have hvouched : ∀ fe, registry.forLanguage r.codebase.data.language = some fe →
      s.Vouched contents fe r.codebase.id := fun fe hfe =>
    Option.some.inj (hlang.symm.trans hfe) ▸ hv
  obtain ⟨fe, plan, hfe, hplan, hmode, hsettled⟩ := run_settled hinj hs hvouched hw hrun hf
  obtain ⟨fe', plan', p, hfe', hplan', hworks, _, hfail, hmark⟩ := run_ok hrun
  obtain rfl := Except.ok.inj (hfe.symm.trans hfe')
  obtain rfl := Except.ok.inj (hplan.symm.trans hplan')
  obtain rfl := Option.some.inj (hlang.symm.trans (check_ok hfe).1)
  obtain ⟨found, hscan, rfl⟩ :=
    IndexPlan.full_ok (IndexPlan.full_of_make hplan (hmode.symm.trans hm))
  have hmirrors := hsettled.mirrors hs
  have hperm := w.schedule.arrange_perm found
  have hread : ∀ f ∈ w.schedule.arrange found, ∃ y, frontEnd.sourceFile? w.tree f = some y :=
    fun f hf => hmirrors.readable f (hperm.mem_iff.mp hf)
  rw [FrontEnd.snapshot_eq hscan] at hseparate ⊢
  have hnodup : (found.map ScannedFile.relPath).Nodup := by
    rw [Separate, map_path_filterMap hread] at hseparate
    exact (hperm.map ScannedFile.relPath).nodup_iff.mp hseparate
  have hreplayed := replayed_of_works (v := v) hinj hs hshows hbefore hw hforce rfl hnodup
    hmirrors.readable hworks (hfail.symm.trans hf)
  refine ⟨hmirrors.shows hperm (fun f hf g hg => List.inj_on_of_nodup_map hnodup hf hg) hseparate,
    ?_⟩
  rw [hmark, v.held_markIndexed, hreplayed.held_eq hperm hs hshows rfl hread]
  exact Attached.kept_perm hshows.separate hseparate
    (fun f hf => hclosed f (hshows.readBy f hf)) hheld

/-- A codebase of which nothing was stored yet. -/
structure Store.HoldsNothing (s : Store) (c : Int) : Prop where
  files : s.storedFiles c = []
  calls : s.calls.ownedBy c = []
  annotations : s.annotations.ownedBy c = []

def Outline.usedNames (o : Outline) : List String :=
  o.calls.map CallEdge.caller ++ o.annotations.map Annotation.symbol

theorem FrontEnd.closed_of_readBy_java {f : SourceFile} (h : f.ReadBy .java) :
    f.outline.Closed := by
  have ho : Java.outlineOfBytes f.content (packageOfPath f.path) = f.outline := by
    simpa [SourceFile.ReadBy, FrontEnd.java] using h
  rw [← ho]
  exact Java.outlineOfBytes_closed _ _

theorem Registry.eq_java_of_forLanguage {language : String} {frontEnd : FrontEnd}
    (h : Registry.default.forLanguage language = some frontEnd) : frontEnd = .java := by
  obtain ⟨e, he, rfl⟩ := Option.map_eq_some_iff.mp h
  have hm := List.mem_of_find?_eq_some he
  have : e = (Text.asciiLower FrontEnd.java.language, FrontEnd.java) := by
    simpa [Registry.default, Registry.register, Registry.forLanguage, Registry.lookup] using hm
  rw [this]

namespace Service

/-- Full runs of a codebase one after another, not forced and none with a failure, with the
worlds that they saw, latest first. -/
inductive FullRuns (worlds : Set Surroundings) (id : Int) (s : Service) :
    List Surroundings → Service → Prop where
  | none : FullRuns worlds id s [] s
  | run {ws : List Surroundings} {s' : Service} {w : Surroundings} {summary : IndexSummary} :
      FullRuns worlds id s ws s' → w ∈ worlds → (s'.index w id false).2 = .ok summary →
      summary.mode = .full → summary.failed = 0 →
      FullRuns worlds id s (w :: ws) (s'.index w id false).1

variable {α : Type} {v : Attached α} {worlds : Set Surroundings} {registry : Registry}
  {excluded : List String} {s s' : Service} {c : Store.Registration} {frontEnd : FrontEnd}

/-- What holds between the runs of a history. -/
structure Carried (v : Attached α) (worlds : Set Surroundings) (registry : Registry)
    (excluded : List String) (c : Store.Registration) (frontEnd : FrontEnd)
    (latest : List SourceFile) (earlier : List (List SourceFile)) (s : Service) : Prop where
  reached : Reached worlds registry excluded s
  registered : c ∈ s.store.registrations
  shows : s.store.Shows c.id frontEnd latest
  contents : ∀ f ∈ latest, f.content ∈ contentsIn worlds
  held : (v.held s.store c.id).Perm (latest.flatMap (v.kept (latest :: earlier)))

theorem Carried.run (hinj : Set.InjOn contentHash (contentsIn worlds))
    (hlang : registry.forLanguage c.language = some frontEnd)
    (hclosed : ∀ f : SourceFile, f.ReadBy frontEnd → ∀ a ∈ v.items f.outline, v.name a ∈ f.names)
    {latest : List SourceFile} {earlier : List (List SourceFile)}
    (h : Carried v worlds registry excluded c frontEnd latest earlier s) {w : Surroundings}
    (hw : w ∈ worlds) (hseparate : Separate (frontEnd.snapshot excluded c.root w))
    {summary : IndexSummary} (hok : (s.index w c.id false).2 = .ok summary)
    (hm : summary.mode = .full) (hf : summary.failed = 0) :
    Carried v worlds registry excluded c frontEnd (frontEnd.snapshot excluded c.root w)
      (latest :: earlier) (s.index w c.id false).1 := by
  have hs := h.reached.faithful
  have hcontents : ∀ content, w.tree.Holds content → content ∈ contentsIn worlds :=
    fun _ hc => ⟨w, hw, hc⟩
  obtain ⟨row, status, hrow, hstore, hrun⟩ := hs.index_ok hok
  obtain rfl : c = Store.registrationOf row :=
    hs.sound.registration_ext h.registered (hs.sound.registration_of_codebase? hrow)
      (hs.sound.codebase?_eq_some_iff.mp hrow).2.symm
  obtain ⟨hshows, hheld⟩ := IndexRun.run_kept (r := ⟨row, false⟩) hinj hs.sound hlang
    (hs.vouched_codebase hrow hlang) h.shows h.contents hcontents hseparate hclosed rfl hrun hm hf
    h.held
  refine ⟨h.reached.index hw, ?_, hstore ▸ hshows, fun f hf => ?_, hstore ▸ hheld⟩
  · rw [hstore, IndexRun.run_registrations hs.sound]
    exact h.registered
  · exact hcontents _ (FrontEnd.holds_of_mem_snapshot hf)

theorem FullRuns.carried (h : Reached worlds registry excluded s)
    (hinj : Set.InjOn contentHash (contentsIn worlds))
    (hc : c ∈ s.store.registrations) (hlang : registry.forLanguage c.language = some frontEnd)
    (hclosed : ∀ f : SourceFile, f.ReadBy frontEnd → ∀ a ∈ v.items f.outline, v.name a ∈ f.names)
    (hfiles : s.store.storedFiles c.id = []) (hheld : v.held s.store c.id = [])
    {ws : List Surroundings} (hruns : FullRuns worlds c.id s ws s')
    (hseparate : ∀ files ∈ frontEnd.history excluded c.root ws, Separate files) :
    ∃ latest earlier, frontEnd.history excluded c.root ws = latest :: earlier ∧
      Carried v worlds registry excluded c frontEnd latest earlier s' := by
  induction hruns with
  | none =>
    refine ⟨[], [], rfl, h, hc, ⟨List.nodup_nil, by simp, by simp [hfiles]⟩, by simp, ?_⟩
    rw [hheld]
    exact List.Perm.refl _
  | run _ hw hok hm hf ih =>
    obtain ⟨latest, earlier, hhist, hcarried⟩ :=
      ih fun files hfiles => hseparate files (List.mem_cons_of_mem _ hfiles)
    refine ⟨_, _, ?_, hcarried.run hinj hlang hclosed hw (hseparate _ List.mem_cons_self) hok hm hf⟩
    rw [← hhist]
    rfl

theorem FullRuns.language (h : Reached worlds registry excluded s)
    (hc : c ∈ s.store.registrations) {ws : List Surroundings} (hne : ws ≠ [])
    (hruns : FullRuns worlds c.id s ws s') :
    ∃ frontEnd, registry.forLanguage c.language = some frontEnd := by
  have hkeep : ∀ {ws s'}, FullRuns worlds c.id s ws s' →
      Reached worlds registry excluded s' ∧ s'.store.registrations = s.store.registrations := by
    intro ws s' hruns
    induction hruns with
    | none => exact ⟨h, rfl⟩
    | run _ hw hok _ _ ih =>
      obtain ⟨row, status, _, hstore, _⟩ := ih.1.faithful.index_ok hok
      exact ⟨ih.1.index hw, by rw [hstore, IndexRun.run_registrations ih.1.faithful.sound, ih.2]⟩
  cases hruns with
  | none => exact absurd rfl hne
  | run hprev _ hok _ _ =>
    obtain ⟨hr, hreg⟩ := hkeep hprev
    obtain ⟨row, status, hrow, _, hrun⟩ := hr.faithful.index_ok hok
    obtain ⟨fe, _, _, hfe, _⟩ := IndexRun.run_ok hrun
    obtain rfl : c = Store.registrationOf row :=
      hr.faithful.sound.registration_ext (hreg ▸ hc)
        (hr.faithful.sound.registration_of_codebase? hrow)
        (hr.faithful.sound.codebase?_eq_some_iff.mp hrow).2.symm
    exact ⟨fe, (IndexRun.check_ok hfe).1⟩

/-- After full runs of a new codebase, it holds exactly the call edges and annotations of the
files on disk if and only if no file of these lost a name that it has records at: to a file
that was there with it and was given up later, or to one that the run that wrote it wrote
over after it. Each run takes the files in its own order; no two files that it finds may
share a path, which `FrontEnd.separate_snapshot` gives for names that are text. -/
theorem full_runs_keep_records_iff (h : Reached worlds .default excluded s)
    (hinj : Set.InjOn contentHash (contentsIn worlds))
    (hc : c ∈ s.store.registrations) (hnew : s.store.HoldsNothing c.id)
    {ws : List Surroundings} (hruns : FullRuns worlds c.id s ws s') {latest : List SourceFile}
    {earlier : List (List SourceFile)}
    (hhist : FrontEnd.java.history excluded c.root ws = latest :: earlier)
    (hseparate : ∀ files ∈ latest :: earlier, Separate files) :
    ((s'.store.calls.ownedBy c.id).Perm (latest.flatMap fun f => f.outline.calls) ∧
      (s'.store.annotations.ownedBy c.id).Perm (latest.flatMap fun f => f.outline.annotations)) ↔
    ∀ f ∈ latest, ∀ n ∈ f.outline.usedNames, n ∉ f.lost (latest :: earlier) := by
  by_cases hne : ws = []
  · subst hne
    obtain ⟨rfl, _⟩ := List.cons.inj hhist
    cases hruns
    simp [hnew.calls, hnew.annotations]
  obtain ⟨fe, hfe⟩ := FullRuns.language h hc hne hruns
  obtain rfl := Registry.eq_java_of_forLanguage hfe
  rw [← hhist] at hseparate
  obtain ⟨_, _, hhist', hcalls⟩ := FullRuns.carried (v := .calls) h hinj hc hfe
    (fun f hf => (FrontEnd.closed_of_readBy_java hf).callers) hnew.files hnew.calls hruns
    hseparate
  obtain ⟨rfl, rfl⟩ := List.cons.inj (hhist.symm.trans hhist')
  obtain ⟨_, _, hhist', hannotations⟩ := FullRuns.carried (v := .annotations) h hinj hc hfe
    (fun f hf => (FrontEnd.closed_of_readBy_java hf).annotated) hnew.files hnew.annotations hruns
    hseparate
  obtain ⟨rfl, rfl⟩ := List.cons.inj (hhist.symm.trans hhist')
  have hiff := and_congr (Attached.perm_items_iff hcalls.held)
    (Attached.perm_items_iff hannotations.held)
  refine hiff.trans ?_
  simp only [Outline.usedNames, List.mem_append, List.mem_map]
  constructor
  · rintro ⟨h₁, h₂⟩ f hf n (⟨e, he, rfl⟩ | ⟨a, ha, rfl⟩)
    · exact h₁ f hf e he
    · exact h₂ f hf a ha
  · intro h
    exact ⟨fun f hf e he => h f hf _ (.inl ⟨e, he, rfl⟩),
      fun f hf a ha => h f hf _ (.inr ⟨a, ha, rfl⟩)⟩

end Service

/-! ## A declaration that moves

The two files of the sample change places. The run that sees this writes the file with the
call first and then writes over the file that declared its names before. With the files taken
the other way round, the call stays.
-/

namespace Sample

def movedWorlds : Set Surroundings := {world plain calling, world calling plain}

def movedRow : Row Codebase := ⟨1, { row.data with indexedAt := some "" }⟩

/-- The service after a run that sees the files in one order. -/
def before : Service := (ran registered (world plain calling) row false).1

/-- The service after a run that sees them in the other order. -/
def after : Service := (ran before (world calling plain) movedRow false).1

def source (path : String) (content : List UInt8) : SourceFile :=
  ⟨path, content, Java.outlineOfBytes content (packageOfPath path)⟩

def snapshot (a b : List UInt8) : List SourceFile := [source "A.java" a, source "B.java" b]

theorem contents_movedWorlds :
    ∀ content ∈ contentsIn movedWorlds, content = calling ∨ content = plain := by
  rintro content ⟨w, rfl | rfl, hc⟩
  · exact (holds_world_iff.mp hc).symm
  · exact holds_world_iff.mp hc

theorem holdsNothing_registered : registered.store.HoldsNothing 1 := ⟨rfl, rfl, rfl⟩

theorem runs_moved :
    (ran registered (world plain calling) row false).2 = .ok ⟨1, .full, 2, 2, 0, 0, 0, none⟩ ∧
    before.store.codebase? movedRow.id = some movedRow ∧
    before.statuses.isIndexing movedRow.id = false ∧
    (ran before (world calling plain) movedRow false).2 = .ok ⟨1, .full, 2, 2, 0, 0, 0, none⟩ ∧
    (after.store.calls.ownedBy 1).length = 0 := by decide +kernel

theorem names_moved :
    (∀ files ∈ [snapshot calling plain, snapshot plain calling, []], Separate files) ∧
    (∀ f ∈ snapshot calling plain, ∀ g ∈ snapshot calling plain,
      f ≠ g → ∀ n ∈ f.names, n ∉ g.names) ∧
    ((snapshot calling plain).flatMap fun f => f.outline.calls).length = 1 := by
  decide +kernel

theorem fullRuns_moved : Service.FullRuns movedWorlds 1 registered
    [world calling plain, world plain calling] after := by
  have h₁ : registered.index (world plain calling) 1 false =
      ran registered (world plain calling) row false := index_registered rfl rfl
  obtain ⟨hran₁, hrow₂, hidle, hran₂, _⟩ := runs_moved
  have h₂ : before.index (world calling plain) 1 false =
      ran before (world calling plain) movedRow false :=
    index_eq_ran rfl rfl rfl rfl rfl hrow₂ rfl rfl hidle rfl
  have hfirst : (registered.index (world plain calling) 1 false).2 =
      .ok ⟨1, .full, 2, 2, 0, 0, 0, none⟩ := by
    rw [h₁]
    exact hran₁
  have hsecond : (before.index (world calling plain) 1 false).2 =
      .ok ⟨1, .full, 2, 2, 0, 0, 0, none⟩ := by
    rw [h₂]
    exact hran₂
  have hbefore : Service.FullRuns movedWorlds 1 registered [world plain calling] before := by
    rw [before, ← h₁]
    exact .run .none (.inl rfl) hfirst rfl rfl
  rw [after, ← h₂]
  exact .run hbefore (.inr rfl) hsecond rfl rfl

theorem snapshot_world {a b : List UInt8} :
    FrontEnd.java.snapshot defaultExcluded "/r" (world a b) = snapshot a b := by
  have horder : (world a b).schedule.arrange files = files :=
    IndexRun.Schedule.arrange_oneWorker files
  rw [FrontEnd.snapshot_eq scan_world, horder]
  rfl

theorem history_moved : FrontEnd.java.history defaultExcluded "/r"
    [world calling plain, world plain calling] =
      [snapshot calling plain, snapshot plain calling, []] := by
  simp [FrontEnd.history, snapshot_world]

end Sample

theorem Service.full_runs_keep_records_iff_sample :
    ((Sample.after.store.calls.ownedBy 1).Perm
        ((Sample.snapshot Sample.calling Sample.plain).flatMap fun f => f.outline.calls) ∧
      (Sample.after.store.annotations.ownedBy 1).Perm
        ((Sample.snapshot Sample.calling Sample.plain).flatMap fun f => f.outline.annotations)) ↔
    ∀ f ∈ Sample.snapshot Sample.calling Sample.plain, ∀ n ∈ f.outline.usedNames,
      n ∉ f.lost [Sample.snapshot Sample.calling Sample.plain,
        Sample.snapshot Sample.plain Sample.calling, []] :=
  full_runs_keep_records_iff (Sample.reached_registered (Or.inl rfl))
    (Sample.injOn_contents Sample.contents_movedWorlds)
    (c := Store.registrationOf Sample.row) List.mem_cons_self Sample.holdsNothing_registered
    Sample.fullRuns_moved Sample.history_moved Sample.names_moved.1

/-- No name is declared by two files on disk, and still the call is missing. -/
theorem Service.moved_declaration_loses_calls :
    Reached Sample.movedWorlds .default defaultExcluded Sample.registered ∧
    Sample.registered.store.HoldsNothing 1 ∧
    FullRuns Sample.movedWorlds 1 Sample.registered
      [Sample.world Sample.calling Sample.plain, Sample.world Sample.plain Sample.calling]
      Sample.after ∧
    FrontEnd.java.snapshot defaultExcluded "/r" (Sample.world Sample.calling Sample.plain) =
      Sample.snapshot Sample.calling Sample.plain ∧
    (∀ f ∈ Sample.snapshot Sample.calling Sample.plain,
      ∀ g ∈ Sample.snapshot Sample.calling Sample.plain, f ≠ g → ∀ n ∈ f.names, n ∉ g.names) ∧
    ¬ (Sample.after.store.calls.ownedBy 1).Perm
      ((Sample.snapshot Sample.calling Sample.plain).flatMap fun f => f.outline.calls) := by
  obtain ⟨_, _, _, _, hnone⟩ := Sample.runs_moved
  obtain ⟨_, hnames, hone⟩ := Sample.names_moved
  refine ⟨Sample.reached_registered (Or.inl rfl), Sample.holdsNothing_registered,
    Sample.fullRuns_moved, Sample.snapshot_world, hnames, fun h => ?_⟩
  have := h.length_eq
  omega

open Sample in
example : ((ran before { world calling plain with schedule := .picks [1, 0] } movedRow
    false).1.store.calls.ownedBy 1).length = 1 := by decide +kernel

end CodeAtlas
