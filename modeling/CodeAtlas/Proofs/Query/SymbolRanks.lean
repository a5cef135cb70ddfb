import CodeAtlas.Proofs.Store.Integrity
import CodeAtlas.Proofs.Store.Lookup
import CodeAtlas.Query.SymbolSearch

/-! # What a search with wildcards leaves out

The store cuts the symbols that a pattern selects in one order, short names first, and the
search sorts what is left by another one, the score. So a symbol is returned by its place in
the first order alone, and the best one may be left out.
-/

namespace CodeAtlas

/-! ## Placed symbols -/

namespace Store

variable {s : Store}

theorem resultOrder_eq {codebase : Option Int} {a b : PlacedSymbol}
    (h : resultOrder codebase a b = .eq) : a.id = b.id := by
  have hid := (Ordering.then_eq_eq.mp (Ordering.then_eq_eq.mp h).2).2
  split at hid
  · exact Std.LawfulEqCmp.eq_of_compare (Ordering.then_eq_eq.mp hid).2
  · exact Std.LawfulEqCmp.eq_of_compare hid

instance (codebase : Option Int) : Std.TransCmp (resultOrder codebase) := by
  unfold resultOrder
  split <;> infer_instance

theorem id_of_place? {r : Row (Owned Symbol)} {p : PlacedSymbol} (h : s.place? r = some p) :
    p.id = r.id := by
  obtain ⟨f, -, rfl⟩ := Option.map_eq_some_iff.mp h
  rfl

theorem Sound.nodup_ids_placedSymbols (h : s.Sound) :
    s.placedSymbols.Pairwise fun p p' => p.id ≠ p'.id := by
  refine List.Pairwise.filterMap _ ?_ (List.pairwise_map.mp h.symbols.nodup)
  intro r r' hne p hp p' hp'
  rwa [id_of_place? hp, id_of_place? hp']

theorem Sound.placedSymbols_ext (h : s.Sound) {p p' : PlacedSymbol} (hp : p ∈ s.placedSymbols)
    (hp' : p' ∈ s.placedSymbols) (hid : p.id = p'.id) : p = p' := by
  obtain ⟨r, hr, hplace⟩ := List.mem_filterMap.mp hp
  obtain ⟨r', hr', hplace'⟩ := List.mem_filterMap.mp hp'
  rw [id_of_place? hplace, id_of_place? hplace'] at hid
  obtain rfl := h.symbols.ext hr hr' hid
  rw [hplace] at hplace'
  exact Option.some.inj hplace'

end Store

/-! ## Scores -/

namespace SymbolSearch

namespace Closeness

def all : List Closeness := [.exact, .leading, .inside, .elsewhere]

theorem mem_all : ∀ c : Closeness, c ∈ all := by
  intro c
  cases c <;> decide

def rank : Closeness → Nat
  | .exact => 3
  | .leading => 2
  | .inside => 1
  | .elsewhere => 0

theorem rank_le (c : Closeness) : c.rank ≤ 3 := by
  cases c <;> decide

theorem score_of_mem_all : ∀ c ∈ all, ∀ c' ∈ all,
    Binary64.le c.score c'.score = decide (c.rank ≤ c'.rank) ∧
      Binary64.lt c.score c'.score = decide (c.rank < c'.rank) ∧
      (c.score = .one ↔ c.rank = 3) := by
  decide +kernel

theorem le_score (c c' : Closeness) :
    Binary64.le c.score c'.score = decide (c.rank ≤ c'.rank) :=
  (score_of_mem_all c c.mem_all c' c'.mem_all).1

theorem lt_score (c c' : Closeness) :
    Binary64.lt c.score c'.score = decide (c.rank < c'.rank) :=
  (score_of_mem_all c c.mem_all c' c'.mem_all).2.1

theorem score_eq_one_iff (c : Closeness) : c.score = .one ↔ c.rank = 3 :=
  (score_of_mem_all c c.mem_all c c.mem_all).2.2

end Closeness

variable {needle : String} {ps : List PlacedSymbol} {p : PlacedSymbol}

def hitOf (needle : String) (p : PlacedSymbol) : SymbolHit := ⟨p, score p.symbol.name needle⟩

def rankOf (needle : String) (p : PlacedSymbol) : Nat := (closeness p.symbol.name needle).rank

/-- To sort the scored symbols is to sort the symbols by how close they come. -/
theorem scored_eq (needle : String) (ps : List PlacedSymbol) :
    scored needle ps =
      (ps.mergeSort fun p p' => decide (rankOf needle p' ≤ rankOf needle p)).map
        (hitOf needle) := by
  rw [List.map_mergeSort]
  · rfl
  · intro p _ p' _
    exact (Closeness.le_score _ _).symm

theorem mem_scored_iff {hit : SymbolHit} :
    hit ∈ scored needle ps ↔ ∃ p ∈ ps, hit = hitOf needle p := by
  rw [scored_eq, List.mem_map]
  simp [eq_comm]

theorem score_of_mem_scored {hit : SymbolHit} (h : hit ∈ scored needle ps) :
    hit.score = score hit.symbol.symbol.name needle := by
  obtain ⟨p, -, rfl⟩ := mem_scored_iff.mp h
  simp only [hitOf]

theorem exists_mem_scored_iff :
    (∃ hit ∈ scored needle ps, hit.symbol = p) ↔ p ∈ ps := by
  simp only [mem_scored_iff]
  constructor
  · rintro ⟨hit, ⟨p, hp, rfl⟩, rfl⟩
    exact hp
  · exact fun hp => ⟨hitOf needle p, ⟨p, hp, rfl⟩, rfl⟩

theorem pairwise_scored (needle : String) (ps : List PlacedSymbol) :
    (scored needle ps).Pairwise fun a b => Binary64.le b.score a.score = true := by
  have hsorted : (ps.mergeSort fun p p' => decide (rankOf needle p' ≤ rankOf needle p)).Pairwise
      fun p p' => decide (rankOf needle p' ≤ rankOf needle p) = true := by
    apply List.pairwise_mergeSort
    · intro a b c hab hbc
      simp only [decide_eq_true_eq] at hab hbc ⊢
      omega
    · intro a b
      simp only [Bool.or_eq_true, decide_eq_true_eq]
      omega
  rw [scored_eq, List.pairwise_map]
  exact hsorted.imp fun h => (Closeness.le_score _ _).trans h

theorem head?_scored_iff :
    (∃ hit, (scored needle ps).head? = some hit ∧ hit.score = .one) ↔
      ∃ p ∈ ps, score p.symbol.name needle = .one := by
  constructor
  · rintro ⟨hit, hhead, hone⟩
    obtain ⟨p, hp, rfl⟩ := mem_scored_iff.mp (List.mem_of_mem_head? hhead)
    exact ⟨p, hp, hone⟩
  · rintro ⟨p, hp, hone⟩
    have hmem : hitOf needle p ∈ scored needle ps := mem_scored_iff.mpr ⟨p, hp, rfl⟩
    have hsorted := pairwise_scored needle ps
    cases hhits : scored needle ps with
    | nil => rw [hhits] at hmem; cases hmem
    | cons first rest =>
      refine ⟨first, rfl, ?_⟩
      rw [hhits] at hmem hsorted
      rcases List.mem_cons.mp hmem with rfl | hrest
      · exact hone
      obtain ⟨p', -, rfl⟩ :=
        mem_scored_iff.mp (hhits ▸ List.mem_cons_self : first ∈ scored needle ps)
      have hle : decide (rankOf needle p ≤ rankOf needle p') = true :=
        (Closeness.le_score _ _).symm.trans ((List.pairwise_cons.mp hsorted).1 _ hrest)
      have hthree : rankOf needle p = 3 := (Closeness.score_eq_one_iff _).mp hone
      have hmost : rankOf needle p' ≤ 3 := Closeness.rank_le _
      rw [decide_eq_true_eq, hthree] at hle
      exact (Closeness.score_eq_one_iff _).mpr (Nat.le_antisymm hmost hle)

/-! ## Searches -/

variable {s : Store} {q : SymbolQuery} {kind : Option SymbolKind}

def filterOf (q : SymbolQuery) (kind : Option SymbolKind) : SymbolFilter :=
  ⟨kind, languageOf q, q.codebase⟩

def limitOf (q : SymbolQuery) : Nat := clampLimit q.limit defaultLimit maxLimit

/-- The symbols that a query with wildcards selects: the name or the qualified name is like the
pattern, and the filter accepts them. -/
def selected (s : Store) (q : SymbolQuery) (kind : Option SymbolKind) : List PlacedSymbol :=
  s.placedSymbols.filter fun p =>
    (like p.symbol.name (likeOfWildcard (Text.trim q.pattern)) ||
      like p.symbol.fqn (likeOfWildcard (Text.trim q.pattern))) && (filterOf q kind).accepts p

def scoreOf (q : SymbolQuery) (p : PlacedSymbol) : Binary64 :=
  score p.symbol.name (SymbolSearch.needle (Text.trim q.pattern))

/-- A selected symbol that the limit leaves: fewer selected symbols stand before it in the
order of name lengths. -/
def IsInFront (s : Store) (q : SymbolQuery) (kind : Option SymbolKind) (p : PlacedSymbol) : Prop :=
  p ∈ selected s q kind ∧
    countBefore (Store.resultOrder q.codebase) (selected s q kind) p < limitOf q

theorem pattern_ne_empty {pattern : String} (h : hasWildcards pattern = true) :
    pattern.isEmpty = false := by
  rw [String.isEmpty_eq_false_iff]
  rintro rfl
  simp [hasWildcards] at h

theorem searchSymbols_eq (hwild : hasWildcards (Text.trim q.pattern) = true)
    (hkind : kindOf q = .ok kind) :
    s.searchSymbols q = .ok {
      pattern := Text.trim q.pattern
      results := scored (SymbolSearch.needle (Text.trim q.pattern))
        ((sortBy (Store.resultOrder q.codebase) (selected s q kind)).take (limitOf q)) } := by
  have hlimit : ¬((limitOf q : Nat) : Int) < 0 := by omega
  have hlike : s.symbolsLike (likeOfWildcard (Text.trim q.pattern)) (filterOf q kind) (limitOf q) =
      (sortBy (Store.resultOrder q.codebase) (selected s q kind)).take (limitOf q) := by
    rw [Store.symbolsLike, takeLimit, if_neg hlimit, Int.toNat_natCast]
    rfl
  rw [← hlike]
  simp only [Store.searchSymbols, pattern_ne_empty hwild, hkind, candidates, hwild, if_true,
    Bool.false_eq_true, if_false]
  rfl

theorem mem_take_selected_iff (hs : s.Sound) :
    p ∈ (sortBy (Store.resultOrder q.codebase) (selected s q kind)).take (limitOf q) ↔
      IsInFront s q kind p := by
  apply mem_take_sortBy_iff
  · refine List.Nodup.filter _ (hs.nodup_ids_placedSymbols.imp ?_)
    rintro p p' hne rfl
    exact hne rfl
  · intro p hp p' hp' heq
    exact hs.placedSymbols_ext (List.mem_of_mem_filter hp) (List.mem_of_mem_filter hp')
      (Store.resultOrder_eq heq)

/-- A search with wildcards returns the selected symbols with fewer than the limit before them,
the best first. It leaves out no better symbol than it returns when none with a better score
stands behind the limit and one with a worse score before it. It starts with a symbol of the
best score when there is one before the limit. (Where the LIKE pattern is not `Like.IsShort`,
SQLite ends the search with an error; `like` has no limit.) -/
theorem search_returns_best_iff (hs : s.Sound) (hwild : hasWildcards (Text.trim q.pattern) = true)
    (hkind : kindOf q = .ok kind) :
    ∃ hits, s.searchSymbols q = .ok { pattern := Text.trim q.pattern, results := hits } ∧
      (∀ hit ∈ hits, hit.score = scoreOf q hit.symbol) ∧
      (∀ p, (∃ hit ∈ hits, hit.symbol = p) ↔ IsInFront s q kind p) ∧
      hits.Pairwise (fun a b => Binary64.le b.score a.score = true) ∧
      ((∀ p ∈ selected s q kind, (∀ hit ∈ hits, hit.symbol ≠ p) →
          ∀ hit ∈ hits, Binary64.lt hit.score (scoreOf q p) = false) ↔
        ∀ p ∈ selected s q kind, ¬IsInFront s q kind p →
          ∀ p', IsInFront s q kind p' → Binary64.lt (scoreOf q p') (scoreOf q p) = false) ∧
      ((∃ hit, hits.head? = some hit ∧ hit.score = .one) ↔
        ∃ p, IsInFront s q kind p ∧ scoreOf q p = .one) := by
  refine ⟨_, searchSymbols_eq hwild hkind, ?_⟩
  -- All five facts are about the symbols that the limit leaves, before they are scored.
  set front := (sortBy (Store.resultOrder q.codebase) (selected s q kind)).take (limitOf q)
  have hmem : ∀ p, p ∈ front ↔ IsInFront s q kind p := fun p => mem_take_selected_iff hs
  have hreturned : ∀ p,
      (∃ hit ∈ scored (SymbolSearch.needle (Text.trim q.pattern)) front, hit.symbol = p) ↔
        IsInFront s q kind p := fun p => exists_mem_scored_iff.trans (hmem p)
  have hscore : ∀ hit ∈ scored (SymbolSearch.needle (Text.trim q.pattern)) front,
      hit.score = scoreOf q hit.symbol := by
    intro hit hhit
    rw [score_of_mem_scored hhit, scoreOf]
  refine ⟨hscore, hreturned, pairwise_scored _ _, ⟨fun h p hp hcut p' hp' => ?_,
    fun h p hp hout hit hhit => ?_⟩, head?_scored_iff.trans ?_⟩
  · obtain ⟨hit, hhit, rfl⟩ := (hreturned p').mpr hp'
    rw [← hscore hit hhit]
    exact h p hp (fun other hother he => hcut ((hreturned p).mp ⟨other, hother, he⟩)) hit hhit
  · rw [hscore hit hhit]
    refine h p hp (fun hin => ?_) hit.symbol ((hreturned _).mp ⟨hit, hhit, rfl⟩)
    obtain ⟨other, hother, he⟩ := (hreturned p).mpr hin
    exact hout other hother he
  · simp only [hmem, scoreOf]

/-! ## A sample -/

namespace Sample

def fileRow : Row FileEntry := ⟨1, ⟨1, "A.java", "", "java", 1⟩⟩

/-- A type in a package that goes by the name of its method. -/
def typeRow : PlacedSymbol :=
  ⟨1, fileRow, ⟨"apply.A", "A", .classType, 1, 1, "class A", "", .packageAccess⟩⟩

def methodRow : PlacedSymbol :=
  ⟨2, fileRow, ⟨"apply.A.apply", "apply", .method, 1, 1, "void apply()", "apply.A",
    .packageAccess⟩⟩

def store : Store where
  codebases := ⟨[⟨1, { rootPath := "/a", language := "java", name := "a" }⟩], 1⟩
  files := ⟨[fileRow], 1⟩
  symbols := ⟨[⟨1, ⟨1, typeRow.symbol⟩⟩, ⟨2, ⟨1, methodRow.symbol⟩⟩], 2⟩

def query (limit : Nat) : SymbolQuery := { pattern := "*apply*", limit := some limit }

theorem sound_store : store.Sound where
  codebases := ⟨by decide, by decide⟩
  files := ⟨by decide, by decide⟩
  symbols := ⟨by decide, by decide⟩
  calls := Table.numbered_empty
  annotations := Table.numbered_empty
  imports := Table.numbered_empty
  roots := by decide
  keys := by decide
  file_owner := by simp [store, Store.HasCodebase, fileRow]
  symbol_owner := by simp [store, Store.HasFile, fileRow]
  call_owner := by simp [store]
  annotation_owner := by simp [store]
  import_owner := by simp [store]

/-- What the search makes of the pattern, and of the names of the two rows. -/
theorem texts_of_pattern :
    Text.trim "*apply*" = "*apply*" ∧ likeOfWildcard "*apply*" = "%apply%" ∧
      SymbolSearch.needle "*apply*" = "apply" ∧ closeness "A" "apply" = .elsewhere ∧
      closeness "apply" "apply" = .exact := by
  decide

theorem trim_pattern (limit : Nat) : Text.trim (query limit).pattern = "*apply*" :=
  texts_of_pattern.1

theorem hasWildcards_query (limit : Nat) :
    hasWildcards (Text.trim (query limit).pattern) = true := by
  rw [trim_pattern]
  decide

theorem selected_query (limit : Nat) :
    selected store (query limit) none = [typeRow, methodRow] := by
  have hfilter : filterOf (query limit) none = {} := rfl
  rw [selected, trim_pattern, texts_of_pattern.2.1, hfilter]
  decide

theorem needle_query (limit : Nat) :
    SymbolSearch.needle (Text.trim (query limit).pattern) = "apply" := by
  rw [trim_pattern, texts_of_pattern.2.2.1]

theorem scoreOf_method (limit : Nat) : scoreOf (query limit) methodRow = .one := by
  rw [scoreOf, needle_query, score, methodRow, texts_of_pattern.2.2.2.2, Closeness.score]

theorem resultOrder_rows : Store.resultOrder none typeRow methodRow = .lt := by
  decide

theorem sortBy_rows :
    sortBy (Store.resultOrder none) [typeRow, methodRow] = [typeRow, methodRow] :=
  List.mergeSort_of_pairwise (by simp [resultOrder_rows])

theorem isInFront_method : IsInFront store (query 2) none methodRow := by
  have hcount : countBefore (Store.resultOrder none) ([typeRow] ++ methodRow :: []) methodRow = 1 :=
    countBefore_append (by simp [resultOrder_rows])
  have hcodebase : (query 2).codebase = none := rfl
  have hlimit : limitOf (query 2) = 2 := by decide
  rw [IsInFront, selected_query, hcodebase, hlimit]
  exact ⟨by simp, lt_of_eq_of_lt hcount Nat.one_lt_two⟩

end Sample

open Sample in
/-- With room for both rows, the method comes first. -/
theorem search_returns_best_iff_apply :
    store.Sound ∧ hasWildcards (Text.trim (query 2).pattern) = true ∧
      kindOf (query 2) = .ok none ∧
      ∃ hits, store.searchSymbols (query 2) =
          .ok { pattern := Text.trim (query 2).pattern, results := hits } ∧
        ∃ hit, hits.head? = some hit ∧ hit.score = .one := by
  obtain ⟨hits, hanswer, -, -, -, -, hfirst⟩ :=
    search_returns_best_iff sound_store (hasWildcards_query 2) rfl
  exact ⟨sound_store, hasWildcards_query 2, rfl, hits, hanswer,
    hfirst.mpr ⟨methodRow, isInFront_method, scoreOf_method 2⟩⟩

open Sample in
/-- With room for one row, the type is returned, whose qualified name alone is like the pattern,
and the method is left out, which goes by the very name. -/
theorem exact_match_is_left_out :
    methodRow ∈ selected store (query 1) none ∧ scoreOf (query 1) methodRow = .one ∧
      store.searchSymbols (query 1) =
        .ok { pattern := "*apply*", results := [⟨typeRow, Closeness.elsewhere.score⟩] } ∧
      Binary64.lt Closeness.elsewhere.score .one = true := by
  have hscore : score "A" "apply" = Closeness.elsewhere.score := by
    rw [score, texts_of_pattern.2.2.2.1]
  refine ⟨by simp [selected_query], scoreOf_method 1, ?_, Closeness.lt_score .elsewhere .exact⟩
  have hkind : kindOf (query 1) = .ok none := rfl
  have hcodebase : (query 1).codebase = none := rfl
  have hlimit : limitOf (query 1) = 1 := by decide
  have hname : typeRow.symbol.name = "A" := rfl
  rw [searchSymbols_eq (hasWildcards_query 1) hkind, needle_query, trim_pattern, selected_query,
    hcodebase, sortBy_rows, hlimit, List.take_succ_cons, List.take_zero, scored, List.map_cons,
    List.map_nil, List.mergeSort_singleton, hname, hscore]

end SymbolSearch

end CodeAtlas
