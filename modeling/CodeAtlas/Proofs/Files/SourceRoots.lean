import CodeAtlas.Proofs.Text.Parts
import CodeAtlas.Registry
import Mathlib.Data.String.Basic

/-! # Source roots

The package of a path is made of the directories below a source root. The root is looked for
in the text of the path with a separator behind it and none in front, so its last directory
is a whole one, but its first need only be the end of a directory's name.
-/

namespace CodeAtlas

/-! ## Directories below a root -/

/-- The names of the directories in a path, from the outermost in. -/
def directories (path : String) : List String := (Text.pieces '/' path).dropLast

/-- The source roots by the names of their directories. -/
def rootNames : List (List String) := [["src", "main", "java"], ["src", "test", "java"], ["java"]]

/-- Whether some names stand at the front of a list of directories. The first name is compared
as `same` says, the others are the directories' own. -/
def standAt (same : String → String → Bool) : List String → List String → Bool
  | name :: names, dir :: dirs => same name dir && names.isPrefixOf dirs
  | _, _ => false

/-- The directories below the first place where some names stand. -/
def below? (same : String → String → Bool) (names : List String) :
    List String → Option (List String)
  | [] => none
  | dir :: dirs =>
    if standAt same names (dir :: dirs) then some ((dir :: dirs).drop names.length)
    else below? same names dirs

/-- The directories of a path below its source root: the first of the roots that stands
somewhere in the path, at its first place. -/
def belowRoot (same : String → String → Bool) (path : String) : List String :=
  (rootNames.findSome? fun names => below? same names (directories path)).getD []

def packageBelow (path : String) : String := ".".intercalate (belowRoot (· == ·) path)

/-- Whether the name of a directory ends in a name. -/
def endsIn (name dir : String) : Bool := Text.finishesWith dir name

section

variable {word w more rest cs : List Char} {name : String} {names dirs : List String}

theorem directories_of_not_mem (h : '/' ∉ cs) : directories (String.ofList cs) = [] := by
  rw [directories, Text.pieces, String.toList_ofList, Text.splitBy_of_forall]
  · rfl
  · intro c hc
    simpa using ne_of_mem_of_not_mem hc h

theorem directories_append (h : '/' ∉ w) (rest : List Char) :
    directories (String.ofList (w ++ '/' :: rest)) =
      String.ofList w :: directories (String.ofList rest) := by
  have hw : ∀ c ∈ w, (c == '/') = false := fun c hc => by simpa using ne_of_mem_of_not_mem hc h
  rw [directories, directories, Text.pieces, Text.pieces, String.toList_ofList,
    String.toList_ofList, Text.splitBy_append_cons hw rfl, List.map_cons,
    List.dropLast_cons_of_ne_nil]
  simpa using Text.splitBy_ne_nil _ _

/-! ## Roots in texts -/

/-- The text of some directories, with a separator behind each. -/
def rootText (names : List String) : List Char := names.flatMap fun name => name.toList ++ ['/']

theorem sourceRoots_eq : sourceRoots.map String.toList = rootNames.map rootText := by decide

theorem rootText_cons (name : String) (names : List String) :
    rootText (name :: names) = name.toList ++ '/' :: rootText names := by
  simp [rootText]

theorem afterPrefix?_of_not_mem (h : '/' ∉ cs) :
    Text.afterPrefix? (word ++ '/' :: more) cs = none := by
  apply Text.afterPrefix?_eq_none
  intro hfront
  exact h (hfront.subset (by simp))

theorem afterPrefix?_append_slash (hword : '/' ∉ word) (hw : '/' ∉ w) (more rest : List Char) :
    Text.afterPrefix? (word ++ '/' :: more) (w ++ '/' :: rest) =
      if word = w then Text.afterPrefix? more rest else none := by
  induction word generalizing w with
  | nil =>
    cases w with
    | nil => simp [Text.afterPrefix?]
    | cons c w =>
      have hc : ('/' == c) = false := by simpa using List.ne_of_not_mem_cons hw
      simp [Text.afterPrefix?, hc]
  | cons a word ih =>
    cases w with
    | nil =>
      have ha : (a == '/') = false := by simpa using (List.ne_of_not_mem_cons hword).symm
      simp [Text.afterPrefix?, ha]
    | cons c w =>
      rw [List.cons_append, List.cons_append, Text.afterPrefix?,
        ih (List.not_mem_of_not_mem_cons hword) (List.not_mem_of_not_mem_cons hw)]
      by_cases hac : a = c <;> simp [hac]

theorem afterPrefix?_rootText (hnames : ∀ n ∈ names, '/' ∉ n.toList) (cs : List Char) :
    (Text.afterPrefix? (rootText names) cs).map (fun rest => directories (String.ofList rest)) =
      if names.isPrefixOf (directories (String.ofList cs)) then
        some ((directories (String.ofList cs)).drop names.length)
      else none := by
  induction names generalizing cs with
  | nil => simp [rootText, Text.afterPrefix?]
  | cons name names ih =>
    obtain ⟨hname, hnames⟩ := List.forall_mem_cons.mp hnames
    rw [rootText_cons]
    by_cases hslash : '/' ∈ cs
    · obtain ⟨w, rest, rfl, hw⟩ := List.eq_append_cons_of_mem hslash
      rw [afterPrefix?_append_slash hname hw, directories_append hw]
      by_cases he : name.toList = w
      · subst he
        simp [ih hnames]
      · have hne : name ≠ String.ofList w := fun h => he (by simp [h])
        simp [he, hne]
    · rw [afterPrefix?_of_not_mem hslash, directories_of_not_mem hslash]
      rfl

theorem afterFirst?_of_not_mem (h : '/' ∉ cs) :
    Text.afterFirst? (word ++ '/' :: more) cs = none := by
  induction cs with
  | nil => exact afterPrefix?_of_not_mem h
  | cons c cs ih =>
    rw [Text.afterFirst?, afterPrefix?_of_not_mem h]
    exact ih (List.not_mem_of_not_mem_cons h)

/-- The first directory of a root is found at the end of a directory's name. -/
theorem afterFirst?_append_slash (hword : '/' ∉ word) (hne : word ≠ []) (hw : '/' ∉ w) :
    Text.afterFirst? (word ++ '/' :: more) (w ++ '/' :: rest) =
      (if word <:+ w then Text.afterPrefix? more rest else none).or
        (Text.afterFirst? (word ++ '/' :: more) rest) := by
  induction w with
  | nil =>
    have hprefix := afterPrefix?_append_slash hword hw more rest
    rw [List.nil_append] at hprefix ⊢
    rw [Text.afterFirst?, hprefix, if_neg hne, if_neg (by simpa using hne)]
    rfl
  | cons c w ih =>
    have hw' := List.not_mem_of_not_mem_cons hw
    have hprefix := afterPrefix?_append_slash hword hw more rest
    rw [List.cons_append] at hprefix ⊢
    rw [Text.afterFirst?, hprefix, ih hw']
    by_cases he : word = c :: w
    · have hsuffix : ¬word <:+ w := fun h => by simpa [he] using h.length_le
      rw [if_pos he, if_neg hsuffix, if_pos (he ▸ List.suffix_rfl)]
      cases Text.afterPrefix? more rest <;> rfl
    · have hsuffix : word <:+ c :: w ↔ word <:+ w := by simp [List.suffix_cons_iff, he]
      simp only [if_neg he, hsuffix]

theorem endsIn_eq_true_iff {dir : String} :
    endsIn name dir = true ↔ name.toList <:+ dir.toList := Text.finishesWith_eq_true_iff

/-- What follows a root in a text are the directories below it, where the first directory of
the root need only be the end of a name. -/
theorem afterFirst?_rootText (hne : names ≠ []) (hnames : ∀ n ∈ names, n ≠ "" ∧ '/' ∉ n.toList)
    (cs : List Char) :
    (Text.afterFirst? (rootText names) cs).map (fun rest => directories (String.ofList rest)) =
      below? endsIn names (directories (String.ofList cs)) := by
  obtain ⟨name, names, rfl⟩ := List.exists_cons_of_ne_nil hne
  obtain ⟨⟨hname, hslash⟩, hnames⟩ := List.forall_mem_cons.mp hnames
  have hword : name.toList ≠ [] := by simpa using hname
  -- The text after the first separator is shorter, and its directories are the remaining ones.
  induction hsize : cs.length using Nat.strong_induction_on generalizing cs with
  | _ size ih =>
    by_cases hdirs : '/' ∈ cs
    · obtain ⟨w, rest, rfl, hw⟩ := List.eq_append_cons_of_mem hdirs
      have hshorter : rest.length < size := by
        rw [← hsize]
        simp only [List.length_append, List.length_cons]
        omega
      rw [rootText_cons, afterFirst?_append_slash hslash hword hw, Option.map_or,
        ← rootText_cons, ih _ hshorter rest rfl, directories_append hw, below?, standAt]
      by_cases hsuffix : name.toList <:+ w
      · have hends : endsIn name (String.ofList w) = true := by simpa [endsIn_eq_true_iff]
        rw [if_pos hsuffix, afterPrefix?_rootText fun n hn => (hnames n hn).2, hends, Bool.true_and]
        split
        · simp
        · rfl
      · have hends : endsIn name (String.ofList w) = false := by
          simpa [← Bool.not_eq_true, endsIn_eq_true_iff]
        rw [if_neg hsuffix, hends]
        rfl
    · rw [rootText_cons, afterFirst?_of_not_mem hdirs, directories_of_not_mem hdirs]
      rfl

theorem names_of_mem_rootNames : ∀ names ∈ rootNames,
    names ≠ [] ∧ ∀ n ∈ names, n ≠ "" ∧ '/' ∉ n.toList := by
  decide

/-- The package of a path is made of the directories below the first root that its text has,
where the first directory of the root need only be the end of a name. -/
theorem packageOfPath_eq (path : String) :
    packageOfPath path = ".".intercalate (belowRoot endsIn path) := by
  have hroots : (sourceRoots.findSome? fun root => Text.afterFirst? root.toList path.toList) =
      rootNames.findSome? fun names => Text.afterFirst? (rootText names) path.toList := by
    have h := congrArg (List.findSome? fun text => Text.afterFirst? text path.toList) sourceRoots_eq
    rwa [List.findSome?_map, List.findSome?_map] at h
  have hbelow : ((sourceRoots.findSome? fun root => Text.afterFirst? root.toList path.toList).map
      fun rest => directories (String.ofList rest)) =
        rootNames.findSome? fun names => below? endsIn names (directories path) := by
    rw [hroots, List.map_findSome?, ← List.head?_filterMap, ← List.head?_filterMap]
    congr 1
    apply List.filterMap_congr
    intro names hnames
    obtain ⟨hne, hplain⟩ := names_of_mem_rootNames names hnames
    have h := afterFirst?_rootText hne hplain path.toList
    rwa [String.ofList_toList] at h
  rw [belowRoot, ← hbelow, packageOfPath]
  cases sourceRoots.findSome? fun root => Text.afterFirst? root.toList path.toList with
  | none => rfl
  | some rest => rfl

/-! ## Whole directories -/

theorem below?_suffix {same : String → String → Bool} {below : List String}
    (h : below? same names dirs = some below) : below <:+ dirs := by
  induction dirs with
  | nil => simp [below?] at h
  | cons dir dirs ih =>
    rw [below?] at h
    split at h
    · exact Option.some.inj h ▸ List.drop_suffix _ _
    · exact (ih h).trans (List.suffix_cons _ _)

theorem belowRoot_suffix (same : String → String → Bool) (path : String) :
    belowRoot same path <:+ directories path := by
  rw [belowRoot]
  cases h : rootNames.findSome? fun names => below? same names (directories path) with
  | none => exact List.nil_suffix
  | some below =>
    obtain ⟨names, _, hbelow⟩ := List.exists_of_findSome?_eq_some h
    exact below?_suffix hbelow

theorem intercalate_dot_eq_empty_iff : ".".intercalate names = "" ↔ names = [] ∨ names = [""] := by
  match names with
  | [] => simp
  | [name] => simp
  | name :: next :: names =>
    rw [String.intercalate_cons_of_ne_nil (by simp)]
    simp [String.append_eq_empty_iff]

/-- Directories that are left of the same path give the same package only when they are the
same, up to one that has no name. -/
theorem intercalate_dot_eq_iff {as bs : List String} (h : bs <:+ as) :
    ".".intercalate as = ".".intercalate bs ↔ as = bs ∨ as ++ bs = [""] := by
  obtain ⟨front, rfl⟩ := h
  rcases eq_or_ne front [] with rfl | hfront
  · simp
  · have hne : front ++ bs ≠ bs := by simpa using hfront
    rw [or_iff_right hne]
    rcases eq_or_ne bs [] with rfl | hbs
    · simp [intercalate_dot_eq_empty_iff, hfront]
    · have hlonger : ".".intercalate (front ++ bs) ≠ ".".intercalate bs := by
        intro he
        have hlength := congrArg String.length he
        rw [String.intercalate_append_of_ne_nil hfront hbs, String.length_append,
          String.length_append] at hlength
        simp at hlength
      have hmany : front ++ bs ++ bs ≠ [""] := by
        intro he
        have hlength := congrArg List.length he
        have hfront := List.length_pos_iff.mpr hfront
        have hbs := List.length_pos_iff.mpr hbs
        simp only [List.length_append, List.length_singleton] at hlength
        omega
      exact iff_of_false hlonger hmany

theorem packageOfPath_eq_packageBelow_iff (path : String) :
    packageOfPath path = packageBelow path ↔
      belowRoot endsIn path = belowRoot (· == ·) path ∨
        belowRoot endsIn path ++ belowRoot (· == ·) path = [""] := by
  rw [packageOfPath_eq, packageBelow]
  rcases List.suffix_or_suffix_of_suffix (belowRoot_suffix (· == ·) path)
    (belowRoot_suffix endsIn path) with h | h
  · exact intercalate_dot_eq_iff h
  · -- One of two lists that make a single name is empty, so their order does not matter.
    have hswap : ∀ as bs : List String, as ++ bs = [""] ↔ bs ++ as = [""] := by
      simp [List.append_eq_singleton_iff, or_comm, and_comm]
    rw [eq_comm, intercalate_dot_eq_iff h, eq_comm, hswap]

theorem below?_congr {same same' : String → String → Bool}
    (h : ∀ dir ∈ dirs, ∀ name ∈ names.head?, same name dir = same' name dir) :
    below? same names dirs = below? same' names dirs := by
  induction dirs with
  | nil => rfl
  | cons dir dirs ih =>
    obtain ⟨hdir, hdirs⟩ := List.forall_mem_cons.mp h
    have hstand : standAt same names (dir :: dirs) = standAt same' names (dir :: dirs) := by
      cases names with
      | nil => rfl
      | cons name names => rw [standAt, standAt, hdir name rfl]
    rw [below?, below?, hstand, ih hdirs]

theorem head?_of_mem_rootNames : ∀ names ∈ rootNames, ∀ n ∈ names.head?, n ∈ ["src", "java"] := by
  decide

/-- Where a directory whose name ends as the first of a root is that directory, the roots that
are found are the ones that stand there. -/
theorem belowRoot_endsIn {path : String}
    (h : ∀ dir ∈ directories path, ∀ name ∈ ["src", "java"], endsIn name dir = true → dir = name) :
    belowRoot endsIn path = belowRoot (· == ·) path := by
  rw [belowRoot, belowRoot, ← List.head?_filterMap, ← List.head?_filterMap]
  congr 2
  apply List.filterMap_congr
  intro names hnames
  apply below?_congr
  intro dir hdir name hname
  rw [Bool.eq_iff_iff, beq_iff_eq]
  constructor
  · intro hends
    exact (h dir hdir name (head?_of_mem_rootNames names hnames name hname) hends).symm
  · rintro rfl
    exact endsIn_eq_true_iff.mpr List.suffix_rfl

/-- The package of a path is the one by whole directories, but for the first directory of a
source root: a directory whose name only ends as it does is taken for it. It is the package by
whole directories exactly where both leave the same directories, up to one that has no name,
and so for every path none of whose directories has a longer name that ends so. -/
theorem packageOfPath_reads_ends_of_names (path : String) :
    packageOfPath path = ".".intercalate (belowRoot endsIn path) ∧
      (packageOfPath path = packageBelow path ↔
        belowRoot endsIn path = belowRoot (· == ·) path ∨
          belowRoot endsIn path ++ belowRoot (· == ·) path = [""]) ∧
      ((∀ dir ∈ directories path, ∀ name ∈ ["src", "java"],
          endsIn name dir = true → dir = name) → packageOfPath path = packageBelow path) := by
  refine ⟨packageOfPath_eq path, packageOfPath_eq_packageBelow_iff path, fun hwhole => ?_⟩
  rw [packageOfPath_eq, packageBelow, belowRoot_endsIn hwhole]

theorem test_path_keeps_whole_directories :
    packageOfPath "module/src/test/java/com/acme/AppTest.java" =
        packageBelow "module/src/test/java/com/acme/AppTest.java" ∧
      packageOfPath "module/src/test/java/com/acme/AppTest.java" = "com.acme" :=
  ⟨(packageOfPath_reads_ends_of_names "module/src/test/java/com/acme/AppTest.java").2.2
    (by decide +kernel), by decide +kernel⟩

/-- A directory that is no source root, and gives its files a package. -/
theorem myjava_taken_for_root :
    packageOfPath "myjava/com/App.java" = "com" ∧ packageBelow "myjava/com/App.java" = "" := by
  decide +kernel

end

end CodeAtlas
