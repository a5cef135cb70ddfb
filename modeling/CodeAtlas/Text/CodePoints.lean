/-! # Ranges of code points

Tables of a character property are sorted arrays of ranges. A range with a step
holds every `step`-th code point from its first to its last.
-/

namespace CodeAtlas.Text

def inRanges (table : Array (Nat × Nat)) (n : Nat) : Bool :=
  table.any fun r => decide (r.1 ≤ n) && decide (n ≤ r.2)

def inStep (lo hi step n : Nat) : Bool :=
  decide (lo ≤ n) && decide (n ≤ hi) && (n - lo) % step == 0

def inSteps (table : Array (Nat × Nat × Nat)) (n : Nat) : Bool :=
  table.any fun r => inStep r.1 r.2.1 r.2.2 n

/-- The value attached to the stepped range that holds `n`. -/
def stepValue? {α : Type} (table : Array (Nat × Nat × Nat × α)) (n : Nat) : Option α :=
  (table.find? fun r => inStep r.1 r.2.1 r.2.2.1 n).map fun r => r.2.2.2

/-- A code point moved by the difference its range carries. -/
def shifted (table : Array (Nat × Nat × Nat × Int)) (n : Nat) : Nat :=
  match stepValue? table n with
  | some d => (n + d).toNat
  | none => n

end CodeAtlas.Text
