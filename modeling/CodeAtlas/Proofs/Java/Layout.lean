import CodeAtlas.Java.Rule
import CodeAtlas.Proofs.Java.Declarations

/-! # Trees that are laid out in order

The children of a node stand one after the other inside it. A name is a word of the text, or
nothing at all where it is missing. Both follow from how the rules of a grammar put nodes
together, whatever the grammar is.
-/

namespace CodeAtlas.Java

/-! ## Ranges in order -/

/-- Ranges that stand one after the other between two offsets. -/
def Spread : Nat → List (Nat × Nat) → Nat → Prop
  | lo, [], hi => lo ≤ hi
  | lo, r :: rs, hi => lo ≤ r.1 ∧ r.1 ≤ r.2 ∧ Spread r.2 rs hi

namespace Spread

variable {lo lo' mid hi hi' : Nat} {r : Nat × Nat} {rs rs' : List (Nat × Nat)}

theorem le (h : Spread lo rs hi) : lo ≤ hi := by
  induction rs generalizing lo with
  | nil => exact h
  | cons r rs ih => exact Nat.le_trans (Nat.le_trans h.1 h.2.1) (ih h.2.2)

theorem mono_left (h : Spread lo rs hi) (hle : lo' ≤ lo) : Spread lo' rs hi := by
  cases rs with
  | nil => exact Nat.le_trans hle h
  | cons r rs => exact ⟨Nat.le_trans hle h.1, h.2⟩

theorem mono_right (h : Spread lo rs hi) (hle : hi ≤ hi') : Spread lo rs hi' := by
  induction rs generalizing lo with
  | nil => exact Nat.le_trans h hle
  | cons r rs ih => exact ⟨h.1, h.2.1, ih h.2.2⟩

theorem append_iff : Spread lo (rs ++ rs') hi ↔ ∃ mid, Spread lo rs mid ∧ Spread mid rs' hi := by
  induction rs generalizing lo with
  | nil =>
    constructor
    · exact fun h => ⟨lo, Nat.le_refl lo, h⟩
    · rintro ⟨mid, hle, h⟩
      exact h.mono_left hle
  | cons r rs ih => simp [Spread, ih, and_assoc]

theorem append (h : Spread lo rs mid) (h' : Spread mid rs' hi) : Spread lo (rs ++ rs') hi :=
  append_iff.mpr ⟨mid, h, h'⟩

theorem singleton (hlo : lo ≤ r.1) (hr : r.1 ≤ r.2) (hhi : r.2 ≤ hi) : Spread lo [r] hi :=
  ⟨hlo, hr, hhi⟩

theorem of_mem (h : Spread lo rs hi) (hr : r ∈ rs) : lo ≤ r.1 ∧ r.1 ≤ r.2 ∧ r.2 ≤ hi := by
  obtain ⟨before, after, rfl⟩ := List.append_of_mem hr
  obtain ⟨mid, hbefore, hle, hr, hafter⟩ := append_iff.mp h
  exact ⟨Nat.le_trans hbefore.le hle, hr, hafter.le⟩

theorem sublist (h : Spread lo rs hi) (hs : rs'.Sublist rs) : Spread lo rs' hi := by
  induction hs generalizing lo with
  | slnil => exact h
  | cons r _ ih => exact (ih h.2.2).mono_left (Nat.le_trans h.1 h.2.1)
  | cons_cons r _ ih => exact ⟨h.1, h.2.1, ih h.2.2⟩

/-- Ranges in order stand between the start of the first and the end of the last. -/
theorem between (h : Spread lo rs hi) (hmid : lo ≤ mid) (hmid' : mid ≤ hi) :
    lo ≤ (rs.head?.map Prod.fst).getD mid ∧
      Spread ((rs.head?.map Prod.fst).getD mid) rs ((rs.getLast?.map Prod.snd).getD mid) ∧
      (rs.getLast?.map Prod.snd).getD mid ≤ hi := by
  rcases List.eq_nil_or_concat rs with rfl | ⟨front, last, rfl⟩
  · exact ⟨hmid, Nat.le_refl _, hmid'⟩
  · obtain ⟨m, hfront, hle, hlast, hhi⟩ := append_iff.mp (List.concat_eq_append ▸ h)
    rw [List.concat_eq_append, List.getLast?_concat, Option.map_some, Option.getD_some]
    cases front with
    | nil => exact ⟨Nat.le_trans hfront.le hle, ⟨Nat.le_refl _, hlast, Nat.le_refl _⟩, hhi⟩
    | cons r rs =>
      refine ⟨hfront.1, append ⟨Nat.le_refl _, hfront.2⟩ ⟨hle, hlast, Nat.le_refl _⟩, hhi⟩

end Spread

/-! ## Nodes -/

def Lexeme.range (l : Lexeme) : Nat × Nat := (l.start, l.stop)

def Node.range (n : Node) : Nat × Nat := (n.start, n.stop)

@[simp] theorem Node.range_withRole (role : Role) (n : Node) :
    (n.withRole role).range = n.range := by
  cases n
  rfl

def Kind.bearsName (k : Kind) : Bool := isDeclaration k || k == .variableDeclarator

variable (W : Nat → Nat → Prop)

/-- A node that stands for a word, or for nothing at all. `W` holds of the ranges of words. -/
def Node.IsWord (n : Node) : Prop := n.start = n.stop ∨ W n.start n.stop

def Node.IsDeclarator (n : Node) : Prop := n.kind = .variableDeclarator

/-- A node that can play the role it has: a name is a word, and what declares a variable has
a name of its own. -/
def Node.Fits (n : Node) : Prop :=
  (n.role = some .name → n.IsWord W) ∧ (n.role = some .declarator → n.IsDeclarator)

/-- A tree that is laid out in order, with the names of its declarations. -/
inductive Node.Sound : Node → Prop
  | mk {k : Kind} {r : Option Role} {a b : Nat} {cs : List Node} :
      Spread a (cs.map Node.range) b → (k.bearsName = true → ∀ c ∈ cs, c.Fits W) →
      (∀ c ∈ cs, Sound c) → Sound (.mk k r a b cs)

end CodeAtlas.Java
