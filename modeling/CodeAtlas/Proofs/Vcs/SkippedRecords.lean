import CodeAtlas.Proofs.Vcs.Records

/-! # Records that are skipped

A status that lists no change is passed over, but not the path that belongs to it: that path
is read as the next status. The rest of the listing keeps its meaning when the path begins
with no status letter or stands at the end, and else, one case apart, the next status is
listed as a path.
-/

namespace CodeAtlas

namespace Listing

/-- What a status letter says that lists no change. -/
inductive Skip where
  | unmerged
  | unknown
  | broken
  deriving Repr, DecidableEq

def Skip.letter : Skip → Char
  | .unmerged => 'U'
  | .unknown => 'X'
  | .broken => 'B'

/-- A record that lists no change, with its path. -/
structure SkippedEntry where
  kind : Skip
  score : Score
  path : Field

def SkippedEntry.status (u : SkippedEntry) : Field :=
  u.score.after u.kind.letter (by cases u.kind <;> decide)

def SkippedEntry.fields (u : SkippedEntry) : List Field := [u.status, u.path]

/-- Whether a field would be read as a status with paths. -/
def Field.LooksLikeStatus (f : Field) : Prop :=
  (∃ kind : Edit, f.Begins kind.letter) ∨ ∃ kind : Move, f.Begins kind.letter

/-- When the records after a skipped one are read as they are written: its path looks like no
status, nothing follows, or the path looks like the status of a copy and an addition follows,
which then is what the copy adds. -/
def StaysInStep (path : Field) (later : List Entry) : Prop :=
  ¬ path.LooksLikeStatus ∨ later = [] ∨
    (path.Begins Move.copied.letter ∧
      ∃ score added rest, later = .edit .added score added :: rest)

namespace Entry

def status : Entry → Field
  | .edit kind score _ => kind.status score
  | .move kind score _ _ => kind.status score

def paths : Entry → List Field
  | .edit _ _ path => [path]
  | .move _ _ old new => [old, new]

theorem fields_eq (e : Entry) : e.fields = e.status :: e.paths := by
  cases e <;> rfl

end Entry

/-- No path reads the same as a status, and no file moves to where it was. -/
structure Plain (entries : List Entry) : Prop where
  statuses : ∀ e ∈ entries, ∀ e' ∈ entries, ∀ path ∈ e'.paths, path.text ≠ e.status.text
  moves : ∀ kind score old new, .move kind score old new ∈ entries → old.text ≠ new.text

def listed (c : ChangeSet) : List String := c.added ++ c.modified ++ c.deleted

theorem mem_listed_append {a b : ChangeSet} {t : String} :
    t ∈ listed (a.append b) ↔ t ∈ listed a ∨ t ∈ listed b := by
  simp only [listed, ChangeSet.append, List.mem_append]
  tauto

theorem exists_path_of_mem_listed {entries : List Entry} {t : String}
    (h : t ∈ listed (changes entries)) : ∃ e ∈ entries, ∃ path ∈ e.paths, path.text = t := by
  induction entries with
  | nil => simp [listed, changes] at h
  | cons e rest ih =>
    rw [changes_cons, mem_listed_append] at h
    rcases h with h | h
    · refine ⟨e, List.mem_cons_self, ?_⟩
      rcases e with ⟨_ | _ | _ | _, score, path⟩ | ⟨_ | _, score, old, new⟩ <;>
        simp_all [listed, changes, Entry.added, Entry.modified, Entry.deleted, Entry.paths,
          eq_comm]
      tauto
    · obtain ⟨e', he', hpath⟩ := ih h
      exact ⟨e', List.mem_cons_of_mem _ he', hpath⟩

section Misread

variable {path : Field}

/-! ## A path in the place of a status -/

theorem ofFields_skipped (u : SkippedEntry) (rest : List String) :
    ChangeSet.ofFields (u.fields.map Field.text ++ rest) =
      ChangeSet.ofFields (u.path.text :: rest) := by
  cases hk : u.kind <;>
    simp [SkippedEntry.fields, SkippedEntry.status, Score.after, Skip.letter, hk,
      ChangeSet.ofFields]

theorem ofFields_of_not_looksLikeStatus (h : ¬ path.LooksLikeStatus) (rest : List String) :
    ChangeSet.ofFields (path.text :: rest) = ChangeSet.ofFields rest := by
  simp only [Field.LooksLikeStatus, Field.Begins, not_or, not_exists] at h
  obtain ⟨hedit, hmove⟩ := h
  have hadded := hedit .added
  have hmodified := hedit .modified
  have hretyped := hedit .retyped
  have hdeleted := hedit .deleted
  have hrenamed := hmove .renamed
  have hcopied := hmove .copied
  rw [ChangeSet.ofFields.eq_def]
  simp only
  split <;> simp_all [Edit.letter, Move.letter]

theorem ofFields_singleton (text : String) : ChangeSet.ofFields [text] = {} := by
  rw [ChangeSet.ofFields.eq_def]
  simp only
  split <;> rfl

/-- A path that looks like a status, except that of a copy, lists the status after it. -/
theorem status_mem_listed (hpath : path.LooksLikeStatus)
    (hcopy : ¬ path.Begins Move.copied.letter) (e : Entry) (rest : List String) :
    e.status.text ∈ listed
      (ChangeSet.ofFields (path.text :: (e.fields.map Field.text ++ rest))) := by
  rw [Entry.fields_eq, List.map_cons, List.cons_append]
  rcases hpath with ⟨kind, hkind⟩ | ⟨kind, hkind⟩
  · rw [ofFields_edit hkind {}]
    cases kind <;> simp [listed, changes, ChangeSet.append, Entry.added, Entry.modified,
      Entry.deleted]
  · cases kind with
    | copied => exact absurd hkind hcopy
    | renamed =>
      obtain ⟨first, more, hpaths⟩ : ∃ first more, e.paths = first :: more := by
        cases e <;> exact ⟨_, _, rfl⟩
      rw [hpaths, List.map_cons, List.cons_append, ofFields_move hkind {}]
      simp [listed, changes, ChangeSet.append, Entry.deleted]

theorem ofFields_fields (entries : List Entry) :
    ChangeSet.ofFields ((fields entries).map Field.text) = changes entries := by
  have h := ofFields_fields_append entries []
  rwa [List.append_nil, show ChangeSet.ofFields [] = {} from rfl, ChangeSet.append_empty] at h

/-- Where the path looks like the status of a copy, the status after it is taken for the file
that was copied. A record with one path then is an addition of it. -/
theorem ofFields_copied_edit (hcopy : path.Begins Move.copied.letter) (kind : Edit)
    (score : Score) (only : Field) (rest : List Entry) :
    ChangeSet.ofFields (path.text :: (fields (.edit kind score only :: rest)).map Field.text) =
      changes (.edit .added score only :: rest) := by
  rw [changes_cons, ← ofFields_fields rest]
  exact ofFields_move hcopy score (kind.status score) only _

theorem head?_added_copied_move (hcopy : path.Begins Move.copied.letter) (kind : Move)
    (score : Score) (old new : Field) (rest : List Entry) :
    (ChangeSet.ofFields (path.text ::
      (fields (.move kind score old new :: rest)).map Field.text)).added.head? = some old.text := by
  have h := ofFields_move hcopy score (kind.status score) old
    (new.text :: (fields rest).map Field.text)
  exact (congrArg (fun c => c.added.head?) h).trans rfl

end Misread

section InStep

variable {path : Field} {later : List Entry}

theorem ofFields_of_staysInStep (h : StaysInStep path later) :
    ChangeSet.ofFields (path.text :: (fields later).map Field.text) = changes later := by
  rcases h with h | rfl | ⟨hcopy, score, added, rest, rfl⟩
  · rw [ofFields_of_not_looksLikeStatus h, ofFields_fields]
  · exact ofFields_singleton path.text
  · exact ofFields_copied_edit hcopy .added score added rest

theorem staysInStep_of_eq (hplain : Plain later)
    (h : ChangeSet.ofFields (path.text :: (fields later).map Field.text) = changes later) :
    StaysInStep path later := by
  by_contra hout
  simp only [StaysInStep, not_or, not_not, not_and, not_exists] at hout
  obtain ⟨hstatus, hne, hadded⟩ := hout
  obtain ⟨e, rest, rfl⟩ := List.exists_cons_of_ne_nil hne
  by_cases hcopy : path.Begins Move.copied.letter
  · cases e with
    | edit kind score only =>
      rw [ofFields_copied_edit hcopy, changes_cons, changes_cons (.edit kind score only)] at h
      -- Only an addition lists its path where it is listed now.
      have hlength := congrArg (fun c => c.added.length) h
      cases kind <;> simp [changes, ChangeSet.append, Entry.added] at hlength
      exact hadded hcopy score only rest rfl
    | move kind score old new =>
      have hhead := head?_added_copied_move hcopy kind score old new rest
      rw [h] at hhead
      exact hplain.moves kind score old new List.mem_cons_self (Option.some.inj hhead).symm
  · have hmem := status_mem_listed hstatus hcopy e ((fields rest).map Field.text)
    rw [← List.map_append, show e.fields ++ fields rest = fields (e :: rest) from rfl, h] at hmem
    obtain ⟨e', he', p, hp, heq⟩ := exists_path_of_mem_listed hmem
    exact hplain.statuses e List.mem_cons_self e' he' p hp heq

/-- A skipped record between two others changes nothing when its path keeps the rest in step;
in a plain listing it changes nothing only then. -/
theorem skipped_entry_changes_nothing_iff (earlier later : List Entry) (u : SkippedEntry) :
    (StaysInStep u.path later →
      ChangeSet.ofNameStatus (encode (fields earlier ++ u.fields ++ fields later)) =
        ChangeSet.ofNameStatus (encode (fields earlier ++ fields later))) ∧
    (Plain later →
      ChangeSet.ofNameStatus (encode (fields earlier ++ u.fields ++ fields later)) =
        ChangeSet.ofNameStatus (encode (fields earlier ++ fields later)) →
      StaysInStep u.path later) := by
  have hiff : ChangeSet.ofNameStatus (encode (fields earlier ++ u.fields ++ fields later)) =
      ChangeSet.ofNameStatus (encode (fields earlier ++ fields later)) ↔
        ChangeSet.ofFields (u.path.text :: (fields later).map Field.text) = changes later := by
    rw [ofNameStatus_encode, ofNameStatus_encode, List.append_assoc, List.map_append,
      List.map_append, List.map_append, ofFields_fields_append, ofFields_fields_append,
      ofFields_skipped, ofFields_fields, ChangeSet.append_right_inj]
  rw [hiff]
  exact ⟨ofFields_of_staysInStep, staysInStep_of_eq⟩

end InStep

/-! ## Samples

A modified file and an added one, with an unmerged file between them.
-/

def changedFile : Entry := .edit .modified {} { text := "p/A.java" }

def newFile : Entry := .edit .added {} { text := "p/B.java" }

def unmerged (path : Field) : SkippedEntry := ⟨.unmerged, {}, path⟩

/-- An unmerged file whose path looks like the status of a copy, in front of an addition. -/
theorem unmerged_copy_changes_nothing :
    StaysInStep { text := "Copy.java" } [newFile] ∧ Plain [newFile] ∧
      ChangeSet.ofNameStatus (encode (fields [changedFile] ++
        (unmerged { text := "Copy.java" }).fields ++ fields [newFile])) =
          ChangeSet.ofNameStatus (encode (fields [changedFile] ++ fields [newFile])) ∧
      StaysInStep (unmerged { text := "Copy.java" }).path [newFile] := by
  have hstays : StaysInStep { text := "Copy.java" } [newFile] :=
    .inr (.inr ⟨by decide, _, _, _, rfl⟩)
  have hplain : Plain [newFile] :=
    ⟨by simp [newFile, Entry.paths, Entry.status, Edit.status, Score.after, ← String.toList_inj,
      Edit.letter], by simp [newFile]⟩
  obtain ⟨hkeeps, honly⟩ :=
    skipped_entry_changes_nothing_iff [changedFile] [newFile] (unmerged { text := "Copy.java" })
  exact ⟨hstays, hplain, hkeeps hstays, honly hplain (hkeeps hstays)⟩

/-- An unmerged file whose path looks like the status of a modification hides an addition. -/
theorem unmerged_main_hides_addition :
    ¬ ∀ (earlier later : List Entry) (u : SkippedEntry),
      ChangeSet.ofNameStatus (encode (fields earlier ++ u.fields ++ fields later)) =
        ChangeSet.ofNameStatus (encode (fields earlier ++ fields later)) := by
  intro h
  have hsame := h [changedFile] [newFile] (unmerged { text := "Main.java" })
  have hread : ChangeSet.ofNameStatus (encode (fields [changedFile] ++
      (unmerged { text := "Main.java" }).fields ++ fields [newFile])) =
        ⟨[], ["p/A.java", "A"], []⟩ := by decide +kernel
  have hmeant : ChangeSet.ofNameStatus (encode (fields [changedFile] ++ fields [newFile])) =
      ⟨["p/B.java"], ["p/A.java"], []⟩ := by decide +kernel
  rw [hread, hmeant] at hsame
  simp at hsame

end Listing

end CodeAtlas
