import CodeAtlas.Proofs.CallChain.Distance
import CodeAtlas.Proofs.Index.History
import CodeAtlas.Proofs.Store.Attached
import CodeAtlas.Proofs.Store.Share
import CodeAtlas.Query.AnnotationSearch
import CodeAtlas.Query.SourceText
import CodeAtlas.Query.SymbolSearch

/-! # Isolation of codebases

A read that is restricted to a codebase depends on the share of that codebase alone, and a
write to another codebase, up to a whole run that ends well or not, leaves that share as it
is. So no write to one codebase is seen by a reader of another.
-/

namespace CodeAtlas

def Share.placed (x : Share) : List PlacedSymbol :=
  x.symbols.filterMap fun r =>
    (x.files.find? fun f => f.id == r.data.owner).map fun f => ⟨r.id, f, r.data.item⟩

namespace Store

variable {s s' : Store} {c : Int}

/-! ## What a restricted read depends on -/

theorem Sound.find?_share_files (h : s.Sound) (i : Int) :
    ((s.share c).files.find? fun f => f.id == i) =
      (s.files.get? i).filter fun f => f.data.codebase == c := by
  have hnodup : ((s.share c).files.map Row.id).Nodup :=
    h.files.nodup.sublist (List.filter_sublist.map _)
  ext f
  rw [find?_key_eq_some_iff hnodup, Option.filter_eq_some_iff, h.files.get?_eq_some_iff]
  simp only [share, List.mem_filter, beq_iff_eq]
  tauto

theorem contains_fileIds_of_find? {i : Int} {f : Row FileEntry}
    (hf : ((s.share c).files.find? fun f => f.id == i) = some f) :
    (s.fileIds c).contains i = true := by
  have hm := List.mem_of_find?_eq_some hf
  have hi : f.id = i := by simpa using List.find?_some hf
  rw [fileIds_eq, ← hi]
  simpa using ⟨f, hm, rfl⟩

theorem Sound.placed_eq (h : s.Sound) :
    (s.placedSymbols.filter fun p => p.file.data.codebase == c) = (s.share c).placed := by
  have hplace : ∀ r : Row (Owned Symbol),
      (s.place? r).filter (fun p => p.file.data.codebase == c) =
        ((s.share c).files.find? fun f => f.id == r.data.owner).map
          fun f => ⟨r.id, f, r.data.item⟩ := by
    intro r
    rw [h.find?_share_files, place?, Option.filter_map]
    rfl
  rw [placedSymbols, List.filter_filterMap, Share.placed]
  simp only [hplace]
  -- A symbol row outside the share has no file in it.
  simp only [share, List.filterMap_filter]
  refine List.filterMap_congr fun r _ => ?_
  split
  · rfl
  · rename_i hr
    rw [Option.map_eq_none_iff, Option.eq_none_iff_forall_ne_some]
    intro f hf
    exact hr (contains_fileIds_of_find? hf)

theorem Sound.placedSymbols_filter (h : s.Sound) (q : PlacedSymbol → Bool) :
    (s.placedSymbols.filter fun p => q p && p.file.data.codebase == c) =
      (s.share c).placed.filter q := by
  rw [← h.placed_eq, List.filter_filter]

theorem mem_files_of_mem_placedSymbols {p : PlacedSymbol} (hp : p ∈ s.placedSymbols) :
    p.file ∈ s.files.rows := by
  obtain ⟨r, _, hr⟩ := List.mem_filterMap.mp hp
  obtain ⟨f, hf, rfl⟩ := Option.map_eq_some_iff.mp hr
  exact List.mem_of_find?_eq_some hf

/-- Two stores that agree on the share of a codebase. -/
structure Agree (c : Int) (s s' : Store) : Prop where
  before : s.Sound
  after : s'.Sound
  share_eq : s'.share c = s.share c

namespace Agree

variable (h : Agree c s s')
include h

theorem codebase? : s'.codebase? c = s.codebase? c := by
  have hread : ∀ s : Store, s.codebase? c = (s.share c).codebase.head? := fun _ =>
    List.head?_filter.symm
  rw [hread, hread, h.share_eq]

theorem fileHashes : s'.fileHashes c = s.fileHashes c := by
  rw [fileHashes_eq_share, fileHashes_eq_share, h.share_eq]

theorem file? (path : String) : s'.file? c path = s.file? c path := by
  have hread : ∀ s : Store,
      s.file? c path = (s.share c).files.find? fun r => r.data.path == path := by
    intro s
    simp only [Store.file?, Table.find?, share, List.find?_filter, Bool.decide_and,
      Bool.decide_eq_true]
  rw [hread, hread, h.share_eq]

theorem codebaseStats : s'.codebaseStats c = s.codebaseStats c := by
  have hread : ∀ s : Store, s.codebaseStats c =
      ⟨(s.share c).codebase.length, (s.share c).files.length, (s.share c).symbols.length,
        (s.share c).calls.length, (s.share c).annotations.length,
        (s.share c).imports.length⟩ := by
    intro s
    simp only [Store.codebaseStats, Table.countWhere, List.countP_eq_length_filter, share]
  rw [hread, hread, h.share_eq]

theorem symbolsNamed (fqn : String) :
    s'.symbolsNamed fqn (some c) = s.symbolsNamed fqn (some c) := by
  simp only [Store.symbolsNamed, isOpenOr, h.before.placedSymbols_filter,
    h.after.placedSymbols_filter, h.share_eq]

theorem symbolsIn {row : Row FileEntry} (hrow : row ∈ s.files.rows)
    (hc : row.data.codebase = c) : s'.symbolsIn row.id = s.symbolsIn row.id := by
  have hread : ∀ s : Store, s.Sound → row ∈ s.files.rows → s.symbolsIn row.id =
      sortBy (thenBy (byKey fun p => p.symbol.lineStart) (byKey PlacedSymbol.id))
        ((s.share c).placed.filter fun p => p.file.id == row.id) := by
    intro s hs hrow
    rw [Store.symbolsIn, ← hs.placedSymbols_filter]
    congr 1
    refine List.filter_congr fun p hp => ?_
    by_cases hi : p.file.id = row.id
    · rw [hs.files.ext (mem_files_of_mem_placedSymbols hp) hrow hi, hc]
      simp
    · simp [beq_eq_false_iff_ne.mpr hi]
  have hshare : row ∈ (s'.share c).files := by
    rw [h.share_eq]
    exact List.mem_filter.mpr ⟨hrow, by simpa using hc⟩
  rw [hread s h.before hrow, hread s' h.after (List.mem_of_mem_filter hshare), h.share_eq]

theorem symbolsLike (pattern : String) {f : SymbolFilter} (hf : f.codebase = some c)
    (limit : Int) : s'.symbolsLike pattern f limit = s.symbolsLike pattern f limit := by
  have haccepts : ∀ p : PlacedSymbol,
      ((like p.symbol.name pattern || like p.symbol.fqn pattern) && f.accepts p) =
        ((like p.symbol.name pattern || like p.symbol.fqn pattern) &&
          (isOpenOr f.kind p.symbol.kind &&
            isOpenOr (f.language.map Text.asciiLower) p.file.data.language) &&
          p.file.data.codebase == c) := by
    intro p
    simp only [SymbolFilter.accepts, hf, isOpenOr, Bool.and_assoc]
  simp only [Store.symbolsLike, haccepts, h.before.placedSymbols_filter,
    h.after.placedSymbols_filter, h.share_eq]

theorem callsFrom (fqn : String) : s'.callsFrom fqn (some c) = s.callsFrom fqn (some c) := by
  have hread : ∀ s : Store,
      (s.calls.rows.filter fun r => r.data.item.caller == fqn && r.data.owner == c) =
        (s.share c).calls.filter fun r => r.data.item.caller == fqn := fun _ => by
    rw [share, List.filter_filter]
  simp only [Store.callsFrom, isOpenOr, hread, h.share_eq]

theorem callsTo (fqn : String) : s'.callsTo fqn (some c) = s.callsTo fqn (some c) := by
  have hread : ∀ s : Store,
      (s.calls.rows.filter fun r => r.data.item.callee == fqn && r.data.owner == c) =
        (s.share c).calls.filter fun r => r.data.item.callee == fqn := fun _ => by
    rw [share, List.filter_filter]
  simp only [Store.callsTo, isOpenOr, hread, h.share_eq]

theorem annotationsNamed (name : String) (scope : Option AnnotationScope) :
    s'.annotationsNamed name scope (some c) = s.annotationsNamed name scope (some c) := by
  have hread : ∀ s : Store,
      (s.annotations.rows.filter fun r => goesBy r.data.item.name name &&
        isOpenOr scope r.data.item.scope && r.data.owner == c) =
      (s.share c).annotations.filter fun r => goesBy r.data.item.name name &&
        isOpenOr scope r.data.item.scope := fun _ => by
    rw [share, List.filter_filter]
  unfold Store.annotationsNamed
  simp only [isOpenOr] at hread ⊢
  simp only [hread, h.share_eq]

/-! ## Queries -/

/-- Both walks are through the same calls; only the bounds on their steps differ, and either
bound is enough. -/
theorem walkOf {q : ChainQuery} (hq : q.codebase = some c) (direction : Direction)
    (mode : WalkMode) (root : String) :
    CallChain.walkOf s' q direction mode root = CallChain.walkOf s q direction mode root := by
  have hplan : CallChain.planOf s' q direction mode = CallChain.planOf s q direction mode := by
    unfold CallChain.planOf
    congr 1
    funext fqn
    cases direction with
    | callees => simp only [CallChain.callsAt, hq, h.callsFrom]
    | callers => simp only [CallChain.callsAt, hq, h.callsTo]
  have hdone := CallChain.walkOf_waiting s q direction mode root
  have hdone' := CallChain.walkOf_waiting s' q direction mode root
  unfold CallChain.walkOf at hdone hdone' ⊢
  rw [hplan] at hdone' ⊢
  exact CallChain.Plan.run_eq_of_waiting_nil hdone' hdone

theorem callChain {q : ChainQuery} (hq : q.codebase = some c) :
    s'.callChain q = s.callChain q := by
  have hfindings : ∀ root, CallChain.findings s' q root = CallChain.findings s q root := by
    intro root
    simp only [CallChain.findings, h.walkOf hq, hq, h.symbolsNamed]
  simp only [Store.callChain, hfindings]

theorem placeOf {a : Row (Owned Annotation)} (ha : a.data.owner = c) :
    AnnotationSearch.placeOf s' a = AnnotationSearch.placeOf s a := by
  rw [AnnotationSearch.placeOf, AnnotationSearch.placeOf, ha, h.symbolsNamed]

theorem searchAnnotations {q : AnnotationQuery} (hq : q.codebase = some c) :
    s'.searchAnnotations q = s.searchAnnotations q := by
  have hhits : ∀ name scope,
      AnnotationSearch.hits s' q name scope = AnnotationSearch.hits s q name scope := by
    intro name scope
    simp only [AnnotationSearch.hits, hq, h.annotationsNamed]
  have howner : ∀ name scope, ∀ a ∈ AnnotationSearch.hits s q name scope, a.data.owner = c := by
    intro name scope a ha
    have hm := mem_sortBy.mp (List.mem_of_mem_filter ha)
    simp only [hq, isOpenOr, List.mem_filter, Bool.and_eq_true, beq_iff_eq] at hm
    exact hm.2.2
  cases hscope : AnnotationSearch.scopeOf q with
  | error fault => simp only [Store.searchAnnotations, hscope]
  | ok scope =>
    have hplaced : ∀ a ∈ ((AnnotationSearch.hits s q (AnnotationSearch.nameOf q) scope).drop
        (q.offset.getD 0)).take
          (clampLimit q.limit AnnotationSearch.defaultLimit AnnotationSearch.maxLimit),
        (⟨a, AnnotationSearch.placeOf s' a⟩ : AnnotationHit) =
          ⟨a, AnnotationSearch.placeOf s a⟩ := by
      intro a ha
      rw [h.placeOf (howner _ _ a (List.mem_of_mem_drop (List.mem_of_mem_take ha)))]
    simp only [Store.searchAnnotations, hscope, hhits, List.map_congr_left hplaced]

theorem find? (fqn : String) :
    SourceText.find? s' fqn (some c) = SourceText.find? s fqn (some c) := by
  have hcodebase : ∀ p ∈ s.symbolsNamed fqn (some c), p.file.data.codebase = c := by
    intro p hp
    have hm := mem_sortBy.mp hp
    simp only [isOpenOr, List.mem_filter, Bool.and_eq_true, beq_iff_eq] at hm
    exact hm.2.2
  unfold SourceText.find?
  rw [h.symbolsNamed]
  cases hn : s.symbolsNamed fqn (some c) with
  | nil => rfl
  | cons first rest =>
    have hfirst := hcodebase first (hn ▸ List.mem_cons_self)
    simp only [hfirst, h.codebase?]

theorem readSource (t : FileTree) {q : SourceQuery} (hq : q.codebase = some c) :
    s'.readSource t q = s.readSource t q := by
  simp only [Store.readSource, hq, h.find?]

theorem searchSymbols {q : SymbolQuery} (hq : q.codebase = some c)
    (hw : hasWildcards (Text.trim q.pattern) = true) :
    s'.searchSymbols q = s.searchSymbols q := by
  have hcandidates : ∀ kind limit,
      SymbolSearch.candidates s' (Text.trim q.pattern)
        ⟨kind, SymbolSearch.languageOf q, some c⟩ limit =
      SymbolSearch.candidates s (Text.trim q.pattern)
        ⟨kind, SymbolSearch.languageOf q, some c⟩ limit := by
    intro kind limit
    simp only [SymbolSearch.candidates, hw, if_true]
    rw [h.symbolsLike _ rfl]
  simp only [Store.searchSymbols, hq, hcandidates]

end Agree

/-- The reads that are restricted to a codebase, in two stores. -/
structure SameReads (c : Int) (s s' : Store) : Prop where
  callChain : ∀ q : ChainQuery, q.codebase = some c → s'.callChain q = s.callChain q
  searchAnnotations : ∀ q : AnnotationQuery, q.codebase = some c →
    s'.searchAnnotations q = s.searchAnnotations q
  /-- Where the source of a name is, and what is read from it in any tree. -/
  source : ∀ fqn, SourceText.find? s' fqn (some c) = SourceText.find? s fqn (some c)
  readSource : ∀ t (q : SourceQuery), q.codebase = some c → s'.readSource t q = s.readSource t q
  searchSymbols : ∀ q : SymbolQuery, q.codebase = some c →
    hasWildcards (Text.trim q.pattern) = true → s'.searchSymbols q = s.searchSymbols q
  fileHashes : s'.fileHashes c = s.fileHashes c
  file : ∀ path, s'.file? c path = s.file? c path
  symbolsIn : ∀ row ∈ s.files.rows, row.data.codebase = c → s'.symbolsIn row.id = s.symbolsIn row.id
  codebaseStats : s'.codebaseStats c = s.codebaseStats c

theorem Agree.sameReads (h : Agree c s s') : SameReads c s s' where
  callChain _ hq := h.callChain hq
  searchAnnotations _ hq := h.searchAnnotations hq
  source := h.find?
  readSource t _ hq := h.readSource t hq
  searchSymbols _ hq hw := h.searchSymbols hq hw
  fileHashes := h.fileHashes
  file := h.file?
  symbolsIn _ hrow hc := h.symbolsIn hrow hc
  codebaseStats := h.codebaseStats

/-! ## Writes -/

/-- A write to a codebase: an operation on it or on one of its files, which may be refused,
or a run of it from its claim to its end, or from where it was claimed before. -/
inductive Write (c : Int) (s : Store) : Store → Prop where
  | operation (op : Operation) : op.target? = some c → Write c s (s.perform op).1
  | index (service : Service) (w : Surroundings) (force : Bool) : service.store = s →
      Write c s (service.index w c force).1.store
  | finish (service : Service) (w : Surroundings) (r : OpenRun) : service.store = s →
      r.codebase.id = c → Write c s (service.finish w r).1.store

/-- The stores that registrations and writes lead to. -/
inductive Reachable : Store → Prop where
  | empty : Reachable {}
  | register {s : Store} (rootPath language name : String) : Reachable s →
      Reachable (s.upsertCodebase rootPath language name).1
  | write {c : Int} {s s' : Store} : Reachable s → Write c s s' → Reachable s'

end Store

namespace IndexRun

variable {frontEnd : FrontEnd} {t : FileTree} {s s' : Store} {a b : Int}

theorem Writes.share_of_ne (h : Writes frontEnd t a s s') (hs : s.Sound) (hab : a ≠ b) :
    s'.share b = s.share b := by
  induction h with
  | done => rfl
  | delete hw hd ih => exact ((hw.sound hs).share_deleteFile? hd hab).trans ih
  | replace hw _ _ hr ih => exact ((hw.sound hs).share_replaceFile hr hab).trans ih
  | mark commit time _ ih => exact (Store.share_markIndexed commit time hab).trans ih

variable {registry : Registry} {excluded : List String} {r : OpenRun} {w : Surroundings}
  {status : IndexStatus}

theorem run_sound (hs : s.Sound) : (run registry excluded r w s status).store.Sound := by
  cases hf : check registry w r.codebase.data with
  | error e =>
    rw [run_store_of_error hf]
    exact hs
  | ok frontEnd => exact (run_writes hf).sound hs

theorem share_run (hs : s.Sound) (hab : r.codebase.id ≠ b) :
    (run registry excluded r w s status).store.share b = s.share b := by
  cases hf : check registry w r.codebase.data with
  | error e => rw [run_store_of_error hf]
  | ok frontEnd => exact (run_writes hf).share_of_ne hs hab

end IndexRun

/-- A whole run does nothing to the store, or is a run of the codebase it is asked for. -/
theorem Service.index_store (s : Service) (w : Surroundings) (id : Int) (force : Bool) :
    (s.index w id force).1.store = s.store ∨
      ∃ registry excluded r status, r.codebase.id = id ∧
        (s.index w id force).1.store =
          (IndexRun.run registry excluded r w s.store status).store := by
  unfold Service.index
  cases hc : s.claim id force with
  | error e => exact .inl rfl
  | ok s' =>
    obtain ⟨row, _, _, rfl⟩ := claim_ok hc
    simp only
    split
    · rename_i r hr
      have hid : r.codebase.id = id := by simpa using List.find?_some hr
      exact .inr ⟨_, _, r, _, hid, rfl⟩
    · exact .inl rfl

namespace Store

variable {s s' : Store} {a b : Int}

theorem Write.sound (hw : Write a s s') (hs : s.Sound) : s'.Sound := by
  cases hw with
  | operation op _ => exact hs.perform op
  | index service w force he =>
    subst he
    rcases service.index_store w a force with hsame | ⟨_, _, r, _, _, hrun⟩
    · rwa [hsame]
    · rw [hrun]
      exact IndexRun.run_sound hs
  | finish service w r he _ =>
    subst he
    exact IndexRun.run_sound hs

theorem Write.share_eq (hw : Write a s s') (hs : s.Sound) (hab : a ≠ b) :
    s'.share b = s.share b := by
  cases hw with
  | operation op ha => exact hs.share_perform ha hab
  | index service w force he =>
    subst he
    rcases service.index_store w a force with hsame | ⟨_, _, r, _, hid, hrun⟩
    · rw [hsame]
    · rw [hrun]
      exact IndexRun.share_run hs (hid ▸ hab)
  | finish service w r he hid =>
    subst he
    exact IndexRun.share_run hs (hid ▸ hab)

theorem Reachable.sound (h : Reachable s) : s.Sound := by
  induction h with
  | empty => exact sound_empty
  | register rootPath language name _ ih => exact ih.upsertCodebase rootPath language name
  | write _ hw ih => exact hw.sound ih

theorem after_reachable (ops : List Operation) : Reachable (after ops) := by
  apply after_induction (P := Reachable) .empty
  intro s op _ hs
  cases op with
  | upsertCodebase rootPath language name => exact hs.register rootPath language name
  | replaceFile entry outline => exact hs.write (.operation _ rfl)
  | deleteFile codebase path => exact hs.write (.operation _ rfl)
  | deleteCodebase id => exact hs.write (.operation _ rfl)
  | markIndexed id commit time => exact hs.write (.operation _ rfl)

/-- A write to one codebase changes no read that is restricted to another. -/
theorem writes_leave_other_codebases (hs : Reachable s) (hab : a ≠ b) (hw : Write a s s') :
    SameReads b s s' := by
  have hagree : Agree b s s' := ⟨hs.sound, hw.sound hs.sound, hw.share_eq hs.sound hab⟩
  exact hagree.sameReads

namespace Sample

/-- Two codebases with the same path and the same names. -/
def twins : List Operation :=
  [.upsertCodebase "/r" "java" "r", .upsertCodebase "/t" "java" "t",
    .replaceFile ⟨1, "A.java", "", "java", 1⟩ (.sample "X"),
    .replaceFile ⟨2, "A.java", "", "java", 1⟩ (.sample "X")]

end Sample

/-- One of two codebases with the same path and the same names loses its file, and the other
keeps what it has. -/
theorem twins_are_isolated :
    (after Sample.twins).codebaseStats 1 = ⟨1, 1, 1, 1, 1, 0⟩ ∧
    ((after Sample.twins).perform (.deleteFile 1 "A.java")).1.codebaseStats 1 =
      ⟨1, 0, 0, 0, 0, 0⟩ ∧
    (after Sample.twins).codebaseStats 2 = ⟨1, 1, 1, 1, 1, 0⟩ ∧
    SameReads 2 (after Sample.twins)
      ((after Sample.twins).perform (.deleteFile 1 "A.java")).1 := by
  refine ⟨by decide +kernel, by decide +kernel, by decide +kernel, ?_⟩
  exact writes_leave_other_codebases (after_reachable _) (by decide : (1 : Int) ≠ 2)
    (.operation _ rfl)

end Store

end CodeAtlas
