/-! # Tables

A table numbers its rows. Ids are handed out in increasing order and never again, also
when the row they were meant for is not written or is erased later.
-/

namespace CodeAtlas

structure Row (α : Type) where
  id : Int
  data : α
  deriving Repr, DecidableEq, Inhabited

structure Table (α : Type) where
  /-- The rows, oldest first. -/
  rows : List (Row α) := []
  /-- The last id that was handed out. -/
  lastId : Int := 0
  deriving Repr, DecidableEq, Inhabited

namespace Table

variable {α : Type}

/-- Rows numbered from the id after `last`. -/
def number (last : Int) : List α → List (Row α)
  | [] => []
  | a :: as => ⟨last + 1, a⟩ :: number (last + 1) as

def insertAll (t : Table α) (as : List α) : Table α :=
  ⟨t.rows ++ number t.lastId as, t.lastId + as.length⟩

def insert (t : Table α) (a : α) : Table α := t.insertAll [a]

/-- The table after an id was handed out to no row. -/
def skipId (t : Table α) : Table α := ⟨t.rows, t.lastId + 1⟩

/-- The table without the rows that satisfy `p`. -/
def erase (t : Table α) (p : Row α → Bool) : Table α :=
  ⟨t.rows.filter fun r => !p r, t.lastId⟩

/-- The table with the content of one row replaced. -/
def set (t : Table α) (id : Int) (a : α) : Table α :=
  ⟨t.rows.map fun r => if r.id == id then ⟨id, a⟩ else r, t.lastId⟩

def get? (t : Table α) (id : Int) : Option (Row α) := t.rows.find? fun r => r.id == id

/-- The first row whose content satisfies `p`. -/
def find? (t : Table α) (p : α → Bool) : Option (Row α) := t.rows.find? fun r => p r.data

/-- The number of rows that satisfy `p`. -/
def countWhere (t : Table α) (p : Row α → Bool) : Nat := t.rows.countP p

def size (t : Table α) : Nat := t.rows.length

end Table

end CodeAtlas
