/-! # Name bindings

A finite map from names to texts. A later binding of a name replaces the earlier one.
-/

namespace CodeAtlas.Java

structure Bindings where
  entries : List (String × String) := []
  deriving Repr, DecidableEq, Inhabited

namespace Bindings

def find? (b : Bindings) (name : String) : Option String :=
  (b.entries.find? fun e => e.1 == name).map fun e => e.2

def insert (b : Bindings) (name value : String) : Bindings :=
  ⟨(name, value) :: b.entries.filter fun e => e.1 != name⟩

theorem find?_insert (b : Bindings) (name value key : String) :
    (b.insert name value).find? key = if name = key then some value else b.find? key := by
  by_cases h : name = key
  · simp [insert, find?, h]
  · have hfilter : ((b.entries.filter fun e => e.1 != name).find? fun e => e.1 == key) =
        b.entries.find? fun e => e.1 == key := by
      rw [List.find?_filter]
      congr 1
      funext e
      by_cases he : e.1 = key
      · simp [he, Ne.symm h]
      · simp [he]
    simp [insert, find?, h, hfilter]

def insertNew (b : Bindings) (name value : String) : Bindings :=
  if (b.find? name).isSome then b else b.insert name value

def insertAll (b : Bindings) (entries : List (String × String)) : Bindings :=
  entries.foldl (fun b e => b.insert e.1 e.2) b

end Bindings

end CodeAtlas.Java
