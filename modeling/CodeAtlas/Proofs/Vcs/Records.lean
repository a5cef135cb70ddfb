import CodeAtlas.Proofs.Text.Parts
import CodeAtlas.Vcs.ChangeSet
import Mathlib.Data.List.Basic

/-! # Records of a diff

A diff is listed as a row of fields that end in NUL characters. Each record is a status and
the paths that its first letter calls for. Reading a listing gives the paths of its records,
whatever letters they begin with; a listing that is cut off after some field gives those of
the records that are there in full.
-/

namespace CodeAtlas

namespace ChangeSet

theorem append_empty (a : ChangeSet) : a.append {} = a := by simp [append]

theorem append_assoc (a b c : ChangeSet) : (a.append b).append c = a.append (b.append c) := by
  simp [append]

theorem append_right_inj (a : ChangeSet) {b c : ChangeSet} : a.append b = a.append c ↔ b = c := by
  obtain ⟨_, _, _⟩ := b
  obtain ⟨_, _, _⟩ := c
  simp [append]

end ChangeSet

namespace Listing

/-! ## Fields -/

def nul : Char := Char.ofNat 0

/-- A text that can stand between two NUL characters. -/
structure Field where
  text : String
  ne_empty : text ≠ "" := by decide
  nul_not_mem : nul ∉ text.toList := by decide

def Field.Begins (f : Field) (letter : Char) : Prop := f.text.toList.head? = some letter

instance (f : Field) (letter : Char) : Decidable (f.Begins letter) :=
  inferInstanceAs (Decidable (_ = _))

def encode (fields : List Field) : String :=
  String.ofList (fields.flatMap fun f => f.text.toList ++ [nul])

theorem pieces_encode (fields : List Field) :
    Text.pieces nul (encode fields) = fields.map Field.text ++ [""] := by
  simp only [Text.pieces, encode, String.toList_ofList]
  induction fields with
  | nil => simp [Text.splitBy]
  | cons f fields ih =>
    have hf : ∀ c ∈ f.text.toList, (c == nul) = false := fun c hc =>
      beq_eq_false_iff_ne.mpr fun he => f.nul_not_mem (he ▸ hc)
    rw [List.flatMap_cons, List.append_assoc, List.singleton_append,
      Text.splitBy_append_cons hf (beq_self_eq_true nul), List.map_cons, String.ofList_toList, ih,
      List.map_cons, List.cons_append]

theorem fieldsOf_encode (fields : List Field) :
    ChangeSet.fieldsOf (encode fields) = fields.map Field.text := by
  have hkeep : (fields.map Field.text).filter (fun t => !t.isEmpty) = fields.map Field.text := by
    refine List.filter_eq_self.mpr fun t ht => ?_
    obtain ⟨f, _, rfl⟩ := List.mem_map.mp ht
    simpa [String.isEmpty_iff] using f.ne_empty
  rw [ChangeSet.fieldsOf, show Char.ofNat 0 = nul from rfl, pieces_encode, List.filter_append,
    hkeep]
  simp

/-! ## Records -/

/-- What a status letter with one path says. -/
inductive Edit where
  | added
  | modified
  | retyped
  | deleted
  deriving Repr, DecidableEq

def Edit.letter : Edit → Char
  | .added => 'A'
  | .modified => 'M'
  | .retyped => 'T'
  | .deleted => 'D'

/-- What a status letter with two paths says. -/
inductive Move where
  | renamed
  | copied
  deriving Repr, DecidableEq

def Move.letter : Move → Char
  | .renamed => 'R'
  | .copied => 'C'

/-- What follows the letter of a status: nothing, or how alike two files are. -/
structure Score where
  text : String := ""
  nul_not_mem : nul ∉ text.toList := by decide

def Score.after (score : Score) (letter : Char) (h : nul ≠ letter) : Field where
  text := String.ofList (letter :: score.text.toList)
  ne_empty := by simp [← String.toList_inj]
  nul_not_mem := by simpa using ⟨h, score.nul_not_mem⟩

def Edit.status (kind : Edit) (score : Score) : Field :=
  score.after kind.letter (by cases kind <;> decide)

def Move.status (kind : Move) (score : Score) : Field :=
  score.after kind.letter (by cases kind <;> decide)

inductive Entry where
  | edit (kind : Edit) (score : Score) (path : Field)
  | move (kind : Move) (score : Score) (old new : Field)

namespace Entry

def fields : Entry → List Field
  | .edit kind score path => [kind.status score, path]
  | .move kind score old new => [kind.status score, old, new]

/-- The paths that a record adds: a copy and a renamed file appear at their new path. -/
def added : Entry → List Field
  | .edit .added _ path => [path]
  | .edit _ _ _ => []
  | .move _ _ _ new => [new]

def modified : Entry → List Field
  | .edit .modified _ path | .edit .retyped _ path => [path]
  | _ => []

/-- The paths that a record deletes: a renamed file disappears from its old path. -/
def deleted : Entry → List Field
  | .edit .deleted _ path => [path]
  | .move .renamed _ old _ => [old]
  | _ => []

end Entry

def fields (entries : List Entry) : List Field := entries.flatMap Entry.fields

/-- What some records list, each path as often and in the order in which they list it. -/
def changes (entries : List Entry) : ChangeSet where
  added := (entries.flatMap Entry.added).map Field.text
  modified := (entries.flatMap Entry.modified).map Field.text
  deleted := (entries.flatMap Entry.deleted).map Field.text

/-- The records that the first `n` fields hold in full. -/
def complete : (n : Nat) → List Entry → List Entry
  | _, [] => []
  | n, e :: rest =>
    if e.fields.length ≤ n then e :: complete (n - e.fields.length) rest else []

theorem complete_length (entries : List Entry) :
    complete (fields entries).length entries = entries := by
  induction entries with
  | nil => rfl
  | cons e rest ih =>
    have hlength : (fields (e :: rest)).length = e.fields.length + (fields rest).length := by
      simp [fields]
    simp [complete, hlength, ih]

theorem changes_cons (e : Entry) (rest : List Entry) :
    changes (e :: rest) = (changes [e]).append (changes rest) := by
  simp [changes, ChangeSet.append]

/-! ## Reading -/

theorem begins_after (score : Score) (letter : Char) (h : nul ≠ letter) :
    (score.after letter h).Begins letter := by
  simp [Field.Begins, Score.after]

theorem ofFields_edit {status : Field} {kind : Edit} (h : status.Begins kind.letter)
    (score : Score) (path : Field) (rest : List String) :
    ChangeSet.ofFields (status.text :: path.text :: rest) =
      (changes [.edit kind score path]).append (ChangeSet.ofFields rest) := by
  unfold Field.Begins at h
  cases kind <;> rw [Edit.letter] at h <;>
    simp [ChangeSet.ofFields, h, changes, Entry.added, Entry.modified, Entry.deleted]

theorem ofFields_move {status : Field} {kind : Move} (h : status.Begins kind.letter)
    (score : Score) (old new : Field) (rest : List String) :
    ChangeSet.ofFields (status.text :: old.text :: new.text :: rest) =
      (changes [.move kind score old new]).append (ChangeSet.ofFields rest) := by
  unfold Field.Begins at h
  cases kind <;> rw [Move.letter] at h <;>
    simp [ChangeSet.ofFields, h, changes, Entry.added, Entry.modified, Entry.deleted]

theorem ofFields_entry (e : Entry) (rest : List String) :
    ChangeSet.ofFields (e.fields.map Field.text ++ rest) =
      (changes [e]).append (ChangeSet.ofFields rest) := by
  cases e with
  | edit kind score path => exact ofFields_edit (begins_after score _ _) score path rest
  | move kind score old new => exact ofFields_move (begins_after score _ _) score old new rest

theorem ofFields_cut (e : Entry) {n : Nat} (h : n < e.fields.length) :
    ChangeSet.ofFields ((e.fields.take n).map Field.text) = {} := by
  cases e with
  | edit kind score path =>
    match n, h with
    | 0, _ => rfl
    | 1, _ =>
      cases kind <;> simp [Entry.fields, Edit.status, Score.after, Edit.letter, ChangeSet.ofFields]
  | move kind score old new =>
    match n, h with
    | 0, _ => rfl
    | 1, _ | 2, _ =>
      cases kind <;> simp [Entry.fields, Move.status, Score.after, Move.letter, ChangeSet.ofFields]

theorem ofFields_fields_append (entries : List Entry) (rest : List String) :
    ChangeSet.ofFields ((fields entries).map Field.text ++ rest) =
      (changes entries).append (ChangeSet.ofFields rest) := by
  induction entries with
  | nil => simp [fields, changes, ChangeSet.append]
  | cons e entries ih =>
    rw [fields, List.flatMap_cons, List.map_append, List.append_assoc, ofFields_entry, ← fields, ih,
      changes_cons e entries, ChangeSet.append_assoc]

theorem ofFields_take (entries : List Entry) (n : Nat) :
    ChangeSet.ofFields (((fields entries).take n).map Field.text) =
      changes (complete n entries) := by
  induction entries generalizing n with
  | nil => simp [fields, complete, changes, ChangeSet.ofFields]
  | cons e rest ih =>
    rw [fields, List.flatMap_cons, ← fields, List.take_append, complete]
    by_cases hn : e.fields.length ≤ n
    · rw [if_pos hn, List.take_of_length_le hn, List.map_append, ofFields_entry, ih,
        changes_cons e (complete _ _)]
    · rw [if_neg hn, Nat.sub_eq_zero_of_le (by omega), List.take_zero, List.append_nil,
        ofFields_cut e (by omega)]
      rfl

theorem ofNameStatus_encode (fields : List Field) :
    ChangeSet.ofNameStatus (encode fields) = ChangeSet.ofFields (fields.map Field.text) := by
  rw [ChangeSet.ofNameStatus, fieldsOf_encode]

/-- Reading undoes writing, and a listing that is cut off after `n` fields gives the records
that are there in full. -/
theorem ofNameStatus_reads_entries (entries : List Entry) :
    ChangeSet.ofNameStatus (encode (fields entries)) = changes entries ∧
      ∀ n, ChangeSet.ofNameStatus (encode ((fields entries).take n)) =
        changes (complete n entries) := by
  have htake : ∀ n, ChangeSet.ofNameStatus (encode ((fields entries).take n)) =
      changes (complete n entries) := fun n => by
    rw [ofNameStatus_encode, ofFields_take]
  refine ⟨?_, htake⟩
  have hall := htake (fields entries).length
  rwa [List.take_length, complete_length] at hall

/-- Paths that begin with status letters. -/
example : ChangeSet.ofNameStatus (encode (fields [.move .renamed ⟨"087", by decide⟩
      ⟨"Main.java", by decide, by decide⟩ ⟨"Data.java", by decide, by decide⟩,
    .edit .modified ⟨"", by decide⟩ ⟨"A.java", by decide, by decide⟩])) =
      ⟨["Data.java"], ["A.java"], ["Main.java"]⟩ := by decide +kernel

end Listing

end CodeAtlas
