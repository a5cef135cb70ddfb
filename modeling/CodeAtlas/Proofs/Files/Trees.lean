import CodeAtlas.Files.Scan
import CodeAtlas.Proofs.Text.Parts
import CodeAtlas.Proofs.Text.Utf8
import Mathlib.Data.List.Nodup
import Mathlib.Data.String.Basic

/-! # Trees and paths

A path that is made of names is taken apart into the same names, so a canonical path leads
to its own names only. In a proper tree, where names are as a file system has them, a scan
finds every file once. Where the names are texts besides, it finds every path once, and the
path of a file below a root can be put behind the root again.
-/

namespace CodeAtlas

namespace Text

theorem pieces_eq (sep : Char) (s : String) :
    pieces sep s = (s.toList.splitOn sep).map String.ofList := by
  rw [pieces, splitBy_eq_splitOnP, List.splitOn_eq_splitOnP]

theorem pieces_intercalate {names : List String} (hne : names ≠ [])
    (h : ∀ n ∈ names, '/' ∉ n.toList) : pieces '/' ("/".intercalate names) = names := by
  rw [pieces_eq, String.toList_intercalate, show "/".toList = ['/'] from rfl,
    List.splitOn_intercalate, List.map_map]
  · simp [Function.comp_def]
  · simpa using h
  · simpa using hne

theorem not_mem_of_mem_splitBy {p : Char → Bool} {cs w : List Char} (hw : w ∈ splitBy p cs)
    {c : Char} (hc : c ∈ w) : p c = false := by
  induction cs generalizing w with
  | nil =>
    obtain rfl := List.mem_singleton.mp hw
    simp at hc
  | cons d cs ih =>
    rw [splitBy] at hw
    split at hw
    · rcases List.mem_cons.mp hw with rfl | hw
      · simp at hc
      · exact ih hw hc
    · rename_i hd
      cases hs : splitBy p cs with
      | nil =>
        simp only [hs, List.mem_singleton] at hw
        subst hw
        obtain rfl := List.mem_singleton.mp hc
        simpa using hd
      | cons v vs =>
        simp only [hs, List.mem_cons] at hw
        rcases hw with rfl | hw
        · rcases List.mem_cons.mp hc with rfl | hc
          · simpa using hd
          · exact ih (hs ▸ List.mem_cons_self) hc
        · exact ih (hs ▸ List.mem_cons_of_mem _ hw) hc

theorem not_mem_of_mem_pieces {sep : Char} {s n : String} (hn : n ∈ pieces sep s) :
    sep ∉ n.toList := by
  obtain ⟨w, hw, rfl⟩ := List.mem_map.mp hn
  intro hc
  have := not_mem_of_mem_splitBy hw (by simpa using hc)
  simp at this

theorem beginsWith_slash_append {n : String} (hne : n ≠ "") (h : '/' ∉ n.toList) (s : String) :
    beginsWith (n ++ s) "/" = false := by
  cases hn : n.toList with
  | nil => exact absurd (String.toList_eq_nil_iff.mp hn) hne
  | cons c cs =>
    have hc : '/' ≠ c := fun hc => h (hn ▸ hc ▸ List.mem_cons_self)
    simp [beginsWith, afterPrefix?, hn, hc]

theorem finishesWith_slash_append {n : String} (hne : n ≠ "") (h : '/' ∉ n.toList) (s : String) :
    finishesWith (s ++ n) "/" = false := by
  cases hn : n.toList.reverse with
  | nil => exact absurd (String.toList_eq_nil_iff.mp (List.reverse_eq_nil_iff.mp hn)) hne
  | cons c cs =>
    have hc : '/' ≠ c := fun hc => h (List.mem_reverse.mp (hn ▸ hc ▸ List.mem_cons_self))
    simp [finishesWith, afterPrefix?, hn, hc]

end Text

/-- A text that an entry of a directory can have for a name. -/
structure IsName (n : String) : Prop where
  ne_empty : n ≠ ""
  ne_dot : n ≠ "."
  ne_dots : n ≠ ".."
  no_slash : '/' ∉ n.toList

instance (n : String) : Decidable (IsName n) :=
  decidable_of_iff (n ≠ "" ∧ n ≠ "." ∧ n ≠ ".." ∧ '/' ∉ n.toList)
    ⟨fun h => ⟨h.1, h.2.1, h.2.2.1, h.2.2.2⟩,
      fun h => ⟨h.ne_empty, h.ne_dot, h.ne_dots, h.no_slash⟩⟩

namespace FileName

def IsProper : FileName → Prop
  | .text s => IsName s
  | .raw bytes _ => Glob.separator ∉ bytes

instance : DecidablePred IsProper
  | .text s => inferInstanceAs (Decidable (IsName s))
  | .raw bytes _ => inferInstanceAs (Decidable (Glob.separator ∉ bytes))

def IsText (n : FileName) : Prop := ∃ s, n = .text s

theorem isText_iff {n : FileName} : n.IsText ↔ n = .text n.shown := by
  constructor
  · rintro ⟨s, rfl⟩
    rfl
  · exact fun h => ⟨_, h⟩

theorem map_text_shown {names : List FileName} (h : ∀ n ∈ names, n.IsText) :
    (names.map shown).map text = names := by
  rw [List.map_map]
  conv_rhs => rw [← List.map_id names]
  exact List.map_congr_left fun n hn => (isText_iff.mp (h n hn)).symm

theorem isName_shown {n : FileName} (h : n.IsProper) : IsName n.shown := by
  cases n with
  | text s => exact h
  | raw bytes ill =>
    have hne : ∀ ascii : List UInt8, (∀ b ∈ ascii, b ≠ 0 ∧ b < 0x80) →
        Text.decode? ascii ≠ none →
        Text.decode bytes ≠ String.ofList (ascii.map fun b => Char.ofNat b.toNat) := by
      intro ascii hascii hwell he
      obtain rfl : bytes = ascii :=
        Text.eq_of_decode hascii (by rw [he, String.toList_ofList])
      exact hwell ill
    refine ⟨hne [] (by simp) (by decide +kernel), hne [0x2E] (by simp) (by decide +kernel),
      hne [0x2E, 0x2E] (by simp) (by decide +kernel), fun hm => h ?_⟩
    exact (Text.mem_decode_iff (b := Glob.separator) (by decide) (by decide)).mp hm

theorem IsProper.ne_text {n : FileName} (h : n.IsProper) :
    n ≠ .text "" ∧ n ≠ .text "." ∧ n ≠ .text ".." := by
  have hname := isName_shown h
  refine ⟨?_, ?_, ?_⟩
  · rintro rfl
    exact hname.ne_empty rfl
  · rintro rfl
    exact hname.ne_dot rfl
  · rintro rfl
    exact hname.ne_dots rfl

end FileName

/-! ## Following paths -/

namespace FileTree

variable {t : FileTree} {here r : List FileName}

theorem follow_cons_ok {piece : FileName} {rest : List FileName}
    (h : t.follow here (piece :: rest) = .ok r) :
    ((piece = .text "" ∨ piece = .text ".") ∧ t.follow here rest = .ok r) ∨
    (piece = .text ".." ∧ t.follow here.dropLast rest = .ok r) ∨
    (piece ≠ .text "" ∧ piece ≠ .text "." ∧ piece ≠ .text ".." ∧
      t.follow (here ++ [piece]) rest = .ok r) := by
  unfold follow at h
  split at h
  · split at h
    · rename_i hp
      exact .inl ⟨hp, h⟩
    · rename_i hp
      push Not at hp
      split at h
      · rename_i hd
        exact .inr (.inl ⟨hd, h⟩)
      · rename_i hd
        split at h
        · simp at h
        · split at h
          · exact .inr (.inr ⟨hp.1, hp.2, hd, h⟩)
          · simp at h
  · simp at h

theorem follow_names {names : List FileName} (hn : ∀ n ∈ names, n.IsProper)
    (h : t.follow here names = .ok r) : r = here ++ names := by
  induction names generalizing here with
  | nil =>
    rw [follow] at h
    simpa using (Except.ok.inj h).symm
  | cons n rest ih =>
    obtain ⟨hempty, hdot, hdots⟩ := (hn n List.mem_cons_self).ne_text
    have hrest : ∀ m ∈ rest, m.IsProper := fun m hm => hn m (List.mem_cons_of_mem _ hm)
    rcases follow_cons_ok h with ⟨hp | hp, _⟩ | ⟨hp, _⟩ | ⟨_, _, _, h⟩
    · exact absurd hp hempty
    · exact absurd hp hdot
    · exact absurd hp hdots
    · simpa using ih hrest h

theorem isProper_of_follow {ps : List String} (hp : ∀ p ∈ ps, '/' ∉ p.toList)
    (hh : ∀ n ∈ here, n.IsProper) (h : t.follow here (ps.map .text) = .ok r) :
    ∀ n ∈ r, n.IsProper := by
  induction ps generalizing here with
  | nil =>
    rw [List.map_nil, follow] at h
    exact Except.ok.inj h ▸ hh
  | cons p rest ih =>
    have hrest : ∀ q ∈ rest, '/' ∉ q.toList := fun q hq => hp q (List.mem_cons_of_mem _ hq)
    rcases follow_cons_ok h with ⟨_, h⟩ | ⟨_, h⟩ | ⟨h₁, h₂, h₃, h⟩
    · exact ih hrest hh h
    · exact ih hrest (fun n hn => hh n (List.dropLast_subset _ hn)) h
    · refine ih hrest ?_ h
      have hname : IsName p :=
        ⟨fun he => h₁ (congrArg _ he), fun he => h₂ (congrArg _ he),
          fun he => h₃ (congrArg _ he), hp p List.mem_cons_self⟩
      simpa [or_imp, forall_and] using ⟨hh, hname⟩

theorem resolve_ok {cwd : List FileName} {path : DiskPath} (h : t.resolve cwd path = .ok r) :
    (∃ rest, path.pieces = .text "" :: rest ∧ t.follow [] rest = .ok r) ∨
    ((∀ rest, path.pieces ≠ .text "" :: rest) ∧ t.follow cwd path.pieces = .ok r) := by
  unfold resolve at h
  split at h
  · simp at h
  · split at h
    · simp at h
    · split at h
      · simp at h
      · split at h
        · rename_i rest hs
          exact .inl ⟨rest, hs, h⟩
        · rename_i hs
          exact .inr ⟨hs, h⟩

/-- A text leads to names, from a working directory that is given by names. -/
theorem isProper_of_resolve {cwd : List FileName} (hc : ∀ n ∈ cwd, n.IsProper) {path : String}
    (h : t.resolve cwd path = .ok r) : ∀ n ∈ r, n.IsProper := by
  have hp : ∀ p ∈ Text.pieces '/' path, '/' ∉ p.toList := fun _ => Text.not_mem_of_mem_pieces
  rcases resolve_ok h with ⟨rest, hs, h⟩ | ⟨_, h⟩
  · obtain ⟨first, pieces, hpieces, _, rfl⟩ := List.map_eq_cons_iff.mp hs
    refine isProper_of_follow (fun p hm => hp p ?_) (by simp) h
    exact hpieces ▸ List.mem_cons_of_mem _ hm
  · exact isProper_of_follow hp hc h

end FileTree

/-! ## Canonical paths -/

theorem DiskPath.resolve_absolute {names : List FileName} (hn : ∀ n ∈ names, n.IsProper)
    {t : FileTree} {r : List FileName} (h : t.resolve [] (absolute names) = .ok r) :
    r = names := by
  rcases FileTree.resolve_ok h with ⟨rest, hs, h⟩ | ⟨hs, _⟩
  · obtain rfl := (List.cons.inj hs).2
    cases names with
    | nil =>
      rcases FileTree.follow_cons_ok h with ⟨_, h⟩ | ⟨hp, _⟩ | ⟨hp, _⟩
      · exact (Except.ok.inj h).symm
      · simp at hp
      · simp at hp
    | cons n names => exact FileTree.follow_names hn h
  · exact absurd rfl (hs _)

namespace Path

variable {root names : List String}

theorem pieces_absolute (hn : ∀ n ∈ names, IsName n) :
    Text.pieces '/' (absolute names) = "" :: if names = [] then [""] else names := by
  by_cases he : names = []
  · subst he
    decide
  · rw [if_neg he, absolute, show "/" ++ "/".intercalate names = "/".intercalate ("" :: names) by
      rw [String.intercalate_cons_of_ne_nil he, String.empty_append]]
    refine Text.pieces_intercalate (by simp) ?_
    simpa [or_imp, forall_and] using fun n hm => (hn n hm).no_slash

theorem ofText_absolute (hn : ∀ n ∈ names, IsName n) :
    DiskPath.ofText (absolute names) = .absolute (names.map .text) := by
  rw [DiskPath.ofText, pieces_absolute hn, DiskPath.absolute]
  cases names <;> rfl

theorem isProper_map_text (hn : ∀ n ∈ names, IsName n) :
    ∀ n ∈ names.map FileName.text, n.IsProper := by
  intro n hm
  obtain ⟨s, hs, rfl⟩ := List.mem_map.mp hm
  exact hn s hs

theorem resolve_absolute (hn : ∀ n ∈ names, IsName n) {t : FileTree} {r : List FileName}
    (h : t.resolve [] (absolute names) = .ok r) : r = names.map .text := by
  rw [ofText_absolute hn] at h
  exact DiskPath.resolve_absolute (isProper_map_text hn) h

theorem absolute_append (hr : root ≠ []) (hn : names ≠ []) :
    absolute (root ++ names) = absolute root ++ "/" ++ "/".intercalate names := by
  simp [absolute, String.intercalate_append_of_ne_nil hr hn, String.append_assoc]

theorem intercalate_inj {a b : List String} (ha : ∀ n ∈ a, IsName n) (hb : ∀ n ∈ b, IsName n)
    (h : "/".intercalate a = "/".intercalate b) : a = b := by
  have habs : absolute a = absolute b := congrArg ("/" ++ ·) h
  have hp := (pieces_absolute ha).symm.trans (habs ▸ pieces_absolute hb)
  have key : ∀ {c : List String}, (∀ n ∈ c, IsName n) → c ≠ [""] := by
    rintro _ hc rfl
    exact (hc "" (by simp)).ne_empty rfl
  have hp := (List.cons.inj hp).2
  split at hp <;> split at hp
  · rename_i h₁ h₂
    rw [h₁, h₂]
  · exact absurd hp.symm (key hb)
  · exact absurd hp (key ha)
  · exact hp

theorem join_absolute (hr : ∀ n ∈ root, IsName n) (hn : ∀ n ∈ names, IsName n)
    (hne : names ≠ []) :
    join (absolute root) ("/".intercalate names) = absolute (root ++ names) := by
  have hb : Text.beginsWith ("/".intercalate names) "/" = false := by
    obtain ⟨n, rest, rfl⟩ := List.exists_cons_of_ne_nil hne
    have hname := hn n List.mem_cons_self
    rw [show n :: rest = (n ++ "") :: rest by simp, String.intercalate_cons_append]
    exact Text.beginsWith_slash_append hname.ne_empty hname.no_slash _
  have he : (absolute root).isEmpty = false := by simp [absolute]
  unfold join
  rw [hb, he]
  simp only [Bool.false_eq_true, if_false]
  rcases List.eq_nil_or_concat' root with rfl | ⟨init, n, rfl⟩
  · rw [if_pos (by decide)]
    simp [absolute]
  · have hname := hr n (by simp)
    have hf : Text.finishesWith (absolute (init ++ [n])) "/" = false := by
      obtain ⟨s, hs⟩ : ∃ s, absolute (init ++ [n]) = s ++ n := by
        by_cases hi : init = []
        · exact ⟨"/", by simp [absolute, hi]⟩
        · exact ⟨_, by rw [absolute_append hi (by simp), String.intercalate_singleton]⟩
      rw [hs]
      exact Text.finishesWith_slash_append hname.ne_empty hname.no_slash s
    rw [hf, if_neg (by simp), absolute_append (by simp) hne]

end Path

/-! ## Contents -/

/-- The contents of the files of a tree. -/
inductive FileTree.Holds : FileTree → List UInt8 → Prop where
  | file (content : List UInt8) : Holds (.file content) content
  | dir {es : List (FileName × FileTree)} {e : FileName × FileTree} {content : List UInt8} :
      e ∈ es → Holds e.2 content → Holds (.dir es) content

namespace FileTree

variable {t : FileTree} {content : List UInt8}

theorem holds_file_iff {content' : List UInt8} :
    (file content).Holds content' ↔ content' = content := by
  constructor
  · rintro ⟨⟩
    rfl
  · rintro rfl
    exact .file _

theorem holds_dir_iff {es : List (FileName × FileTree)} :
    (dir es).Holds content ↔ ∃ e ∈ es, e.2.Holds content := by
  constructor
  · rintro (_ | ⟨he, h⟩)
    exact ⟨_, he, h⟩
  · rintro ⟨e, he, h⟩
    exact .dir he h

theorem holds_of_at? {names : List FileName} (h : t.at? names = some (.file content)) :
    t.Holds content := by
  induction names generalizing t with
  | nil =>
    obtain rfl := Option.some.inj h
    exact .file content
  | cons name rest ih =>
    rw [at?] at h
    split at h
    · rename_i child hc
      obtain ⟨e, he, rfl⟩ := Option.map_eq_some_iff.mp hc
      have hm := List.mem_of_find?_eq_some he
      cases t with
      | file => simp [entries] at hm
      | dir es => exact .dir hm (ih h)
    · simp at h

theorem holds_of_read {cwd : List FileName} {path : DiskPath} (h : t.read cwd path = .ok content) :
    t.Holds content := by
  unfold read at h
  split at h
  · simp at h
  · split at h
    · rename_i hs
      exact holds_of_at? (Except.ok.inj h ▸ hs)
    · simp at h
    · simp at h

end FileTree

/-! ## Scans -/

/-- A tree whose names are as a file system has them: each directory has every name once. -/
inductive FileTree.Proper : FileTree → Prop where
  | file (content : List UInt8) : Proper (.file content)
  | dir {es : List (FileName × FileTree)} : (es.map Prod.fst).Nodup → (∀ e ∈ es, e.1.IsProper) →
      (∀ e ∈ es, Proper e.2) → Proper (.dir es)

/-- A tree with a property of all its names. -/
inductive FileTree.AllNames (P : FileName → Prop) : FileTree → Prop where
  | file (content : List UInt8) : AllNames P (.file content)
  | dir {es : List (FileName × FileTree)} : (∀ e ∈ es, P e.1) → (∀ e ∈ es, AllNames P e.2) →
      AllNames P (.dir es)

abbrev FileTree.Textual : FileTree → Prop := AllNames FileName.IsText

namespace FileTree

variable {t sub : FileTree} {names : List FileName} {P : FileName → Prop}

theorem Proper.allNames (h : t.Proper) : t.AllNames FileName.IsProper := by
  induction h with
  | file content => exact .file content
  | dir _ hn _ ih => exact .dir hn ih

theorem Proper.at? (h : t.Proper) (hs : t.at? names = some sub) : sub.Proper := by
  induction names generalizing t with
  | nil =>
    obtain rfl := Option.some.inj hs
    exact h
  | cons name rest ih =>
    rw [FileTree.at?] at hs
    split at hs
    · rename_i child hc
      refine ih ?_ hs
      obtain ⟨e, he, rfl⟩ := Option.map_eq_some_iff.mp hc
      have hm := List.mem_of_find?_eq_some he
      cases h with
      | file => simp [FileTree.entries] at hm
      | dir _ _ hsub => exact hsub e hm
    · simp at hs

theorem AllNames.at? (h : t.AllNames P) (hs : t.at? names = some sub) :
    (∀ n ∈ names, P n) ∧ sub.AllNames P := by
  induction names generalizing t with
  | nil =>
    obtain rfl := Option.some.inj hs
    exact ⟨by simp, h⟩
  | cons name rest ih =>
    rw [FileTree.at?] at hs
    split at hs
    · rename_i child hc
      obtain ⟨e, he, rfl⟩ := Option.map_eq_some_iff.mp hc
      have hm := List.mem_of_find?_eq_some he
      have hname : e.1 = name := by simpa using List.find?_some he
      cases h with
      | file => simp [FileTree.entries] at hm
      | dir hn hsub =>
        obtain ⟨hrest, hbelow⟩ := ih (hsub e hm) hs
        refine ⟨?_, hbelow⟩
        simpa using ⟨hname ▸ hn e hm, hrest⟩
    · simp at hs

end FileTree

namespace Scanner

variable {skip : List FileName → Bool → Bool} {names : List FileName}

mutual

theorem mem_walk : ∀ {t : FileTree} {here : List FileName}, names ∈ walk skip here t →
    ∃ rest, names = here ++ rest ∧ (t.isDir = true → rest ≠ []) ∧
      ∀ P, t.AllNames P → ∀ n ∈ rest, P n
  | .file _, _, h => by
    rw [walk, List.mem_singleton] at h
    exact ⟨[], by simpa using h, by simp [FileTree.isDir], by simp⟩
  | .dir es, _, h => by
    rw [walk] at h
    obtain ⟨e, he, rest, rfl, hrest⟩ := mem_walkEntries h
    refine ⟨e.1 :: rest, rfl, by simp, ?_⟩
    rintro P (_ | ⟨hnames, hsub⟩)
    simpa using ⟨hnames e he, hrest P (hsub e he)⟩

theorem mem_walkEntries : ∀ {es : List (FileName × FileTree)} {here : List FileName},
    names ∈ walkEntries skip here es →
    ∃ e ∈ es, ∃ rest, names = here ++ e.1 :: rest ∧ ∀ P, e.2.AllNames P → ∀ n ∈ rest, P n
  | [], _, h => by simp [walkEntries] at h
  | (name, t) :: es, here, h => by
    rw [walkEntries, List.mem_append] at h
    rcases h with h | h
    · split at h
      · simp at h
      · obtain ⟨rest, rfl, _, hrest⟩ := mem_walk h
        exact ⟨(name, t), List.mem_cons_self, rest, by simp, hrest⟩
    · obtain ⟨e, he, h⟩ := mem_walkEntries h
      exact ⟨e, List.mem_cons_of_mem _ he, h⟩

end

mutual

theorem walk_nodup : ∀ {t : FileTree} {here : List FileName}, t.Proper →
    (walk skip here t).Nodup
  | .file _, _, _ => by simp [walk]
  | .dir _, _, .dir hn _ hsub => walkEntries_nodup hn hsub

theorem walkEntries_nodup : ∀ {es : List (FileName × FileTree)} {here : List FileName},
    (es.map Prod.fst).Nodup → (∀ e ∈ es, e.2.Proper) → (walkEntries skip here es).Nodup
  | [], _, _, _ => by simp [walkEntries]
  | (name, t) :: es, here, hn, hsub => by
    rw [List.map_cons, List.nodup_cons] at hn
    rw [walkEntries, List.nodup_append]
    refine ⟨?_, walkEntries_nodup hn.2 fun e he => hsub e (List.mem_cons_of_mem _ he), ?_⟩
    · split
      · exact List.nodup_nil
      · exact walk_nodup (hsub _ List.mem_cons_self)
    · -- What is found below two entries differs in the name of the entry.
      intro a ha b hb hab
      split at ha
      · simp at ha
      · obtain ⟨rest, rfl, _⟩ := mem_walk ha
        obtain ⟨e, he, rest', rfl, _⟩ := mem_walkEntries hb
        simp only [List.append_assoc, List.singleton_append, List.append_cancel_left_eq,
          List.cons.injEq] at hab
        exact hn.1 (List.mem_map.mpr ⟨e, he, hab.1.symm⟩)

end

variable {s : Scanner} {t : FileTree} {root : List FileName} {f g : ScannedFile}

theorem mem_scanAt : f ∈ s.scanAt t root ↔
    s.accepts f.relPath = true ∧ ∃ sub names, t.at? root = some sub ∧
      names ∈ walk (s.skips t root) [] sub ∧ f = fileBelow root names := by
  unfold scanAt
  rw [List.mem_mergeSort, List.mem_filter, List.mem_map]
  constructor
  · rintro ⟨⟨names, hn, rfl⟩, ha⟩
    cases hs : t.at? root with
    | none => simp [hs] at hn
    | some sub => exact ⟨ha, sub, names, rfl, by simpa [hs] using hn, rfl⟩
  · rintro ⟨ha, sub, names, hs, hn, rfl⟩
    exact ⟨⟨names, by simpa [hs] using hn, rfl⟩, ha⟩

theorem fileBelow_inj {names names' : List FileName}
    (h : (fileBelow root names).absPath = (fileBelow root names').absPath)
    (hn : ∀ n ∈ root ++ names, n.IsProper) (hn' : ∀ n ∈ root ++ names', n.IsProper) :
    names = names' := by
  have hpieces := (List.cons.inj (DiskPath.mk.inj h)).2
  have hempty : ∀ {ns : List FileName}, (∀ n ∈ ns, n.IsProper) → ns ≠ [.text ""] := by
    rintro _ hns rfl
    exact (hns (.text "") (by simp)).ne_text.1 rfl
  cases hr : root ++ names with
  | nil =>
    cases hr' : root ++ names' with
    | nil => exact List.append_cancel_left (hr.trans hr'.symm)
    | cons n ns =>
      simp only [hr, hr', List.isEmpty_nil, List.isEmpty_cons, if_true] at hpieces
      exact absurd (hr'.trans hpieces.symm) (hempty hn')
  | cons n ns =>
    cases hr' : root ++ names' with
    | nil =>
      simp only [hr, hr', List.isEmpty_nil, List.isEmpty_cons, if_true] at hpieces
      exact absurd (hr.trans hpieces) (hempty hn)
    | cons n' ns' =>
      simp only [hr, hr', List.isEmpty_cons] at hpieces
      exact List.append_cancel_left (hr.trans (hpieces.trans hr'.symm))

theorem isName_map_shown {ns : List FileName} (h : ∀ n ∈ ns, n.IsProper) :
    ∀ n ∈ ns.map FileName.shown, IsName n := by
  intro n hn
  obtain ⟨m, hm, rfl⟩ := List.mem_map.mp hn
  exact FileName.isName_shown (h m hm)

/-- Where names are texts, the files below a root are told apart by their relative paths. -/
theorem eq_of_shownPath {a b : List FileName} (ha : ∀ n ∈ a, n.IsProper ∧ n.IsText)
    (hb : ∀ n ∈ b, n.IsProper ∧ n.IsText)
    (h : FileName.shownPath a = FileName.shownPath b) : a = b := by
  have hshown := Path.intercalate_inj (isName_map_shown fun n hn => (ha n hn).1)
    (isName_map_shown fun n hn => (hb n hn).1) h
  rw [← FileName.map_text_shown fun n hn => (ha n hn).2, hshown,
    FileName.map_text_shown fun n hn => (hb n hn).2]

section Textual

variable (ht : t.Proper) (htext : t.Textual)

include ht htext

theorem names_of_mem_walk {sub : FileTree} (hs : t.at? root = some sub)
    (hn : names ∈ walk (s.skips t root) [] sub) : ∀ n ∈ names, n.IsProper ∧ n.IsText := by
  obtain ⟨_, rfl, _, hnames⟩ := mem_walk hn
  intro n hm
  exact ⟨hnames _ (ht.at? hs).allNames n hm, hnames _ (htext.at? hs).2 n hm⟩

theorem scanAt_ext (hf : f ∈ s.scanAt t root) (hg : g ∈ s.scanAt t root)
    (h : f.relPath = g.relPath) : f = g := by
  obtain ⟨_, sub, names, hs, hn, rfl⟩ := mem_scanAt.mp hf
  obtain ⟨_, sub', names', hs', hn', rfl⟩ := mem_scanAt.mp hg
  obtain rfl := Option.some.inj (hs.symm.trans hs')
  rw [eq_of_shownPath (names_of_mem_walk ht htext hs hn) (names_of_mem_walk ht htext hs hn') h]

theorem scanAt_nodup : ((s.scanAt t root).map ScannedFile.relPath).Nodup := by
  refine List.Nodup.map_on (fun f hf g hg h => scanAt_ext ht htext hf hg h) ?_
  unfold scanAt
  rw [(List.mergeSort_perm _ _).nodup_iff]
  refine List.Nodup.filter _ ?_
  cases hs : t.at? root with
  | none => simp
  | some sub =>
    refine List.Nodup.map_on ?_ (walk_nodup (ht.at? hs))
    intro a ha b hb hab
    exact eq_of_shownPath (names_of_mem_walk ht htext hs ha) (names_of_mem_walk ht htext hs hb)
      (congrArg ScannedFile.relPath hab)

end Textual

theorem scanAt_pairwise_le :
    (s.scanAt t root).Pairwise fun f g => f.relPath ≤ g.relPath := by
  have hle : (s.scanAt t root).Pairwise fun f g => Text.bytesLe f.relPath g.relPath = true := by
    refine List.pairwise_mergeSort ?_ ?_ _
    · intro a b c hab hbc
      simp only [Text.bytesLe, Bool.not_eq_true', decide_eq_false_iff_not, not_lt] at hab hbc ⊢
      exact le_trans hab hbc
    · intro a b
      simp only [Text.bytesLe, Bool.or_eq_true, Bool.not_eq_true', decide_eq_false_iff_not, not_lt]
      exact le_total _ _
  refine hle.imp ?_
  intro f g h
  simpa only [Text.bytesLe, Bool.not_eq_true', decide_eq_false_iff_not, not_lt] using h

theorem scanAt_pairwise (hn : ((s.scanAt t root).map ScannedFile.relPath).Nodup) :
    (s.scanAt t root).Pairwise fun f g => f.relPath < g.relPath :=
  (scanAt_pairwise_le.and (List.pairwise_map.mp hn)).imp fun ⟨hle, hne⟩ => lt_of_le_of_ne hle hne

section Scan

variable {path : String} {found : List ScannedFile}

theorem scan_ok (h : s.scan t [] path = .ok found) :
    ∃ names, t.resolve [] path = .ok names ∧ found = s.scanAt t names := by
  unfold scan at h
  split at h
  · simp at h
  · rename_i names hn
    exact ⟨names, hn, (Except.ok.inj h).symm⟩

/-- A walk that comes by the accepted files in the order of their paths is a scan. -/
theorem scan_of_walk {root : List FileName} {names : List (List FileName)}
    (hr : t.resolve [] path = .ok root)
    (hwalk : ((t.at? root).map (walk (s.skips t root) [])).getD [] = names)
    (hfound : ((names.map (fileBelow root)).filter fun f => s.accepts f.relPath) = found)
    (hsorted : found.Pairwise fun f g => Text.bytesLe f.relPath g.relPath) :
    s.scan t [] path = .ok found := by
  rw [scan, hr]
  simp only [scanAt, hwalk, hfound]
  rw [List.mergeSort_of_pairwise hsorted]

theorem scan_nodup (ht : t.Proper) (htext : t.Textual) (h : s.scan t [] path = .ok found) :
    (found.map ScannedFile.relPath).Nodup := by
  obtain ⟨names, _, rfl⟩ := scan_ok h
  exact scanAt_nodup ht htext

theorem accepts_of_mem_scan (h : s.scan t [] path = .ok found) (hf : f ∈ found) :
    s.accepts f.relPath = true := by
  obtain ⟨names, _, rfl⟩ := scan_ok h
  exact (mem_scanAt.mp hf).1

/-- A scan of a canonical directory finds files at the places where their relative paths, put
behind the root, lead. -/
theorem absPath_of_mem_scan {root : List String} (ht : t.Proper) (htext : t.Textual)
    (hr : ∀ n ∈ root, IsName n) (hdir : t.isDirAt [] (Path.absolute root) = true)
    (h : s.scan t [] (Path.absolute root) = .ok found) (hf : f ∈ found) :
    f.absPath = DiskPath.ofText (Path.join (Path.absolute root) f.relPath) := by
  obtain ⟨names, hn, rfl⟩ := scan_ok h
  obtain rfl := Path.resolve_absolute hr hn
  simp only [FileTree.isDirAt, hn, beq_iff_eq, Option.map_eq_some_iff] at hdir
  obtain ⟨sub, hs, hd⟩ := hdir
  obtain ⟨_, sub', names, hs', hw, rfl⟩ := mem_scanAt.mp hf
  obtain rfl := Option.some.inj (hs.symm.trans hs')
  have hnames := names_of_mem_walk ht htext hs hw
  obtain ⟨_, rfl, hne, _⟩ := mem_walk hw
  have hshown := isName_map_shown fun n hn => (hnames n hn).1
  have hall : ∀ n ∈ root ++ names.map FileName.shown, IsName n := by
    intro n hn
    rcases List.mem_append.mp hn with hn | hn
    · exact hr n hn
    · exact hshown n hn
  simp only [fileBelow, FileName.shownPath]
  rw [Path.join_absolute hr hshown (by simpa using hne hd), Path.ofText_absolute hall,
    List.map_append, FileName.map_text_shown fun n hn => (hnames n hn).2]

end Scan

end Scanner

end CodeAtlas
