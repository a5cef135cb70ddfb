import CodeAtlas.Text.Blank

/-! # Change sets

The paths that changed since a commit, and how they are read from a diff that lists a
status and one or two paths in fields that end in NUL characters.
-/

namespace CodeAtlas

structure ChangeSet where
  added : List String := []
  modified : List String := []
  deleted : List String := []
  deriving Repr, DecidableEq, Inhabited

namespace ChangeSet

def isEmpty (c : ChangeSet) : Bool := c.added.isEmpty && c.modified.isEmpty && c.deleted.isEmpty

def changed (c : ChangeSet) : List String := c.added ++ c.modified

/-- The changes of one record in front of later ones. -/
def append (a b : ChangeSet) : ChangeSet :=
  ⟨a.added ++ b.added, a.modified ++ b.modified, a.deleted ++ b.deleted⟩

/-- The changes that a list of fields describes. The first letter of a status tells how
many paths follow. A record without its paths ends the list, and a field that is no known
status is skipped alone. -/
def ofFields : List String → ChangeSet
  | [] => {}
  | status :: fields =>
    match status.toList.head? with
    | some 'A' =>
      match fields with
      | path :: rest => append { added := [path] } (ofFields rest)
      | [] => {}
    | some 'D' =>
      match fields with
      | path :: rest => append { deleted := [path] } (ofFields rest)
      | [] => {}
    | some 'M' | some 'T' =>
      match fields with
      | path :: rest => append { modified := [path] } (ofFields rest)
      | [] => {}
    | some 'R' =>
      match fields with
      | old :: new :: rest => append { added := [new], deleted := [old] } (ofFields rest)
      | _ => {}
    | some 'C' =>
      match fields with
      | _ :: new :: rest => append { added := [new] } (ofFields rest)
      | _ => {}
    | _ => ofFields fields

/-- The fields of a text: what stands between NUL characters, empty ones left out. -/
def fieldsOf (output : String) : List String :=
  (Text.pieces (Char.ofNat 0) output).filter fun f => !f.isEmpty

/-- The changes that a name-status listing describes. -/
def ofNameStatus (output : String) : ChangeSet := ofFields (fieldsOf output)

/-- Paths that are not under version control count as added, each once. -/
def addUntracked (c : ChangeSet) (paths : List String) : ChangeSet :=
  paths.foldl
    (fun c p => if c.added.contains p then c else { c with added := c.added ++ [p] }) c

end ChangeSet

end CodeAtlas
