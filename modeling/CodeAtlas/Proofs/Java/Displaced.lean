import CodeAtlas.Proofs.Java.Rules
import Mathlib.Data.List.Forall2

/-! # Displaced lexemes

A rule looks at the kinds and the texts of lexemes, and only copies their offsets. So it reads
lexemes alike wherever they stand. This is stated as a class of pairs of rules, with one instance
for each way to put rules together, so that a rule of a grammar has it because of how it is
written.
-/

namespace CodeAtlas.Java

/-- How offsets in one source and in another belong together: any two of them, and those that one
lexeme stands between or nothing at all. -/
structure Displacement where
  pos : Nat → Nat → Prop
  span : (start stop start' stop' : Nat) → Prop
  span_self {a a' : Nat} : pos a a' → span a a a' a'

variable {d : Displacement}

/-- The same lexeme at another place. -/
inductive Lexeme.Displaced (d : Displacement) : Lexeme → Lexeme → Prop
  | mk {k : LexemeKind} {t : String} {a b a' b' : Nat} : d.pos a a' → d.pos b b' →
      d.span a b a' b' → Displaced d ⟨k, t, a, b⟩ ⟨k, t, a', b'⟩

/-- The same node at another place, with leaves for lexemes or for nothing at all. -/
inductive Node.Displaced (d : Displacement) : Node → Node → Prop
  | mk {k : Kind} {r : Option Role} {a b a' b' : Nat} {cs cs' : List Node} : d.pos a a' →
      d.pos b b' → (cs = [] → d.span a b a' b') → List.Forall₂ (Node.Displaced d) cs cs' →
      Displaced d (.mk k r a b cs) (.mk k r a' b' cs')

structure Cursor.Displaced (d : Displacement) (c c' : Cursor) : Prop where
  rest : List.Forall₂ (Lexeme.Displaced d) c.rest c'.rest
  left : c.left = c'.left
  last : d.pos c.last c'.last

/-! ## Related lists -/

section Related

variable {α β γ : Type} {R : α → β → Prop} {xs : List α} {ys : List β} {a : Option α} {b : Option β}

theorem rel_head? (h : List.Forall₂ R xs ys) : Option.Rel R xs.head? ys.head? := by
  cases h with
  | nil => exact .none
  | cons hx _ => exact .some hx

theorem rel_getLast? (h : List.Forall₂ R xs ys) : Option.Rel R xs.getLast? ys.getLast? := by
  rw [← List.head?_reverse, ← List.head?_reverse]
  exact rel_head? (List.forall₂_reverse_iff.mpr h)

theorem rel_getElem? (h : List.Forall₂ R xs ys) (i : Nat) : Option.Rel R xs[i]? ys[i]? := by
  induction h generalizing i with
  | nil => exact .none
  | cons hx _ ih =>
    cases i with
    | zero => exact .some hx
    | succ i => exact ih i

theorem any_eq_of_rel {p : α → Bool} {q : β → Bool} (h : List.Forall₂ R xs ys)
    (hpq : ∀ {x y}, y ∈ ys → R x y → p x = q y) : xs.any p = ys.any q := by
  induction h with
  | nil => rfl
  | cons hx _ ih =>
    rw [List.any_cons, List.any_cons, hpq List.mem_cons_self hx,
      ih fun hy => hpq (List.mem_cons_of_mem _ hy)]

theorem flatMap_eq_of_rel {f : α → List γ} {g : β → List γ} (h : List.Forall₂ R xs ys)
    (hfg : ∀ {x y}, y ∈ ys → R x y → f x = g y) : xs.flatMap f = ys.flatMap g := by
  induction h with
  | nil => rfl
  | cons hx _ ih =>
    rw [List.flatMap_cons, List.flatMap_cons, hfg List.mem_cons_self hx,
      ih fun hy => hfg (List.mem_cons_of_mem _ hy)]

theorem map_eq_of_rel {f : α → γ} {g : β → γ} (h : Option.Rel R a b)
    (hfg : ∀ {x y}, y ∈ b → R x y → f x = g y) : a.map f = b.map g := by
  cases h with
  | none => rfl
  | some hx => exact congrArg some (hfg rfl hx)

theorem rel_bind {δ : Type} {S : γ → δ → Prop} {f : α → Option γ} {g : β → Option δ}
    (h : Option.Rel R a b) (hfg : ∀ {x y}, y ∈ b → R x y → Option.Rel S (f x) (g y)) :
    Option.Rel S (a.bind f) (b.bind g) := by
  cases h with
  | none => exact .none
  | some hx => exact hfg rfl hx

theorem exists_left_of_rel (h : Option.Rel R a b) {y : β} (hy : b = some y) :
    ∃ x, a = some x ∧ R x y := by
  subst hy
  cases h with
  | some hx => exact ⟨_, rfl, hx⟩

theorem exists_right_of_rel (h : Option.Rel R a b) {x : α} (hx : a = some x) :
    ∃ y, b = some y ∧ R x y := by
  subst hx
  cases h with
  | some hy => exact ⟨_, rfl, hy⟩

end Related

/-! ## Looking ahead -/

/-- What is found out about a thing without regard to a relation. -/
class Blind {α β : Type} (R : α → α → Prop) (p : α → β) : Prop where
  eq {x y : α} : R x y → p x = p y

namespace Blind

variable {α β : Type} {R : α → α → Prop}

instance (b : β) : Blind R fun _ => b := ⟨fun _ => rfl⟩

instance [BEq β] (p : α → β) (b : β) [Blind R p] : Blind R fun x => p x == b :=
  ⟨fun h => by rw [Blind.eq (p := p) h]⟩

instance [BEq β] (p : α → β) (b : β) [Blind R p] : Blind R fun x => p x != b :=
  ⟨fun h => by rw [Blind.eq (p := p) h]⟩

instance [BEq β] (p : α → β) (bs : List β) [Blind R p] : Blind R fun x => bs.contains (p x) :=
  ⟨fun h => by rw [Blind.eq (p := p) h]⟩

instance (p : α → Bool) [Blind R p] : Blind R fun x => !p x :=
  ⟨fun h => by rw [Blind.eq (p := p) h]⟩

instance (p q : α → Bool) [Blind R p] [Blind R q] : Blind R fun x => p x && q x :=
  ⟨fun h => by rw [Blind.eq (p := p) h, Blind.eq (p := q) h]⟩

instance (p q : α → Bool) [Blind R p] [Blind R q] : Blind R fun x => p x || q x :=
  ⟨fun h => by rw [Blind.eq (p := p) h, Blind.eq (p := q) h]⟩

instance {γ : Type} (p : γ → α → Bool) [∀ c, Blind R (p c)] (cs : List γ) :
    Blind R fun x => cs.any fun c => p c x :=
  ⟨fun h => congrArg cs.any (funext fun c => Blind.eq (p := p c) h)⟩

variable (q : Lexeme → β) [Blind (Lexeme.Displaced d) q]

instance : Blind (Lexeme.Displaced d) Lexeme.kind := ⟨fun h => by cases h; rfl⟩

instance : Blind (Lexeme.Displaced d) Lexeme.text := ⟨fun h => by cases h; rfl⟩

instance (i : Nat) : Blind (List.Forall₂ (Lexeme.Displaced d)) fun ls => ls[i]?.map q :=
  ⟨fun h => map_eq_of_rel (rel_getElem? h i) fun _ hl => Blind.eq hl⟩

instance : Blind (List.Forall₂ (Lexeme.Displaced d)) fun ls => ls.head?.map q :=
  ⟨fun h => map_eq_of_rel (rel_head? h) fun _ hl => Blind.eq hl⟩

instance (p : List Lexeme → β) [Blind (List.Forall₂ (Lexeme.Displaced d)) p] (n : Nat) :
    Blind (List.Forall₂ (Lexeme.Displaced d)) fun ls => p (ls.drop n) where
  eq h := Blind.eq (List.forall₂_drop n h)

end Blind

/-! ## Putting rules together -/

namespace Rule

variable {a b a' b' r r' : Rule} {rs rs' : List Rule} {c c' : Cursor}

/-- The same nodes and the same rest at another place. -/
def Displaced (d : Displacement) (x x' : List Node × Cursor) : Prop :=
  List.Forall₂ (Node.Displaced d) x.1 x'.1 ∧ x.2.Displaced d x'.2

/-- Two rules read displaced lexemes alike. -/
class Alike (d : Displacement) (r r' : Rule) : Prop where
  reads {c c' : Cursor} : c.Displaced d c' → Option.Rel (Displaced d) (r c) (r' c')

/-- A rule reads displaced lexemes as it reads them in their places. -/
abbrev Movable (d : Displacement) (r : Rule) : Prop := Alike d r r

theorem Alike.cases (r r' : Rule) [Alike d r r'] (h : c.Displaced d c') :
    (r c = none ∧ r' c' = none) ∨ ∃ xs c₁ xs' c₁', r c = some (xs, c₁) ∧ r' c' = some (xs', c₁') ∧
      List.Forall₂ (Node.Displaced d) xs xs' ∧ c₁.Displaced d c₁' := by
  have hr : Option.Rel (Displaced d) (r c) (r' c') := Alike.reads h
  generalize r c = x at hr ⊢
  generalize r' c' = x' at hr ⊢
  cases hr with
  | none => exact .inl ⟨rfl, rfl⟩
  | some hx => exact .inr ⟨_, _, _, _, rfl, rfl, hx⟩

instance : Movable d nothing := ⟨fun h => .some ⟨.nil, h⟩⟩

instance [Alike d a a'] [Alike d b b'] : Alike d (thenDo a b) (thenDo a' b') where
  reads h := by
    rcases Alike.cases a a' h with ⟨ha, ha'⟩ | ⟨xs, c₁, xs', c₁', ha, ha', hxs, h₁⟩
    · simp only [thenDo, ha, ha']
      exact .none
    · rcases Alike.cases b b' h₁ with ⟨hb, hb'⟩ | ⟨ys, c₂, ys', c₂', hb, hb', hys, h₂⟩
      · simp only [thenDo, ha, ha', hb, hb']
        exact .none
      · simp only [thenDo, ha, ha', hb, hb']
        exact .some ⟨List.rel_append hxs hys, h₂⟩

instance : Movable d (seq []) := inferInstanceAs (Movable d nothing)

instance [Alike d r r'] [Alike d (seq rs) (seq rs')] :
    Alike d (seq (r :: rs)) (seq (r' :: rs')) := by
  rw [seq_cons, seq_cons]
  infer_instance

instance : Movable d (firstOf []) := ⟨fun _ => .none⟩

instance [Alike d r r'] [Alike d (firstOf rs) (firstOf rs')] :
    Alike d (firstOf (r :: rs)) (firstOf (r' :: rs')) where
  reads h := by
    rcases Alike.cases r r' h with ⟨hr, hr'⟩ | ⟨xs, c₁, xs', c₁', hr, hr', hread⟩
    · simp only [firstOf, hr, hr']
      exact Alike.reads h
    · simp only [firstOf, hr, hr']
      exact .some hread

theorem Alike.firstOf (h : List.Forall₂ (Alike d) rs rs') :
    Alike d (Rule.firstOf rs) (Rule.firstOf rs') := by
  induction h with
  | nil => infer_instance
  | cons hr _ ih => infer_instance

instance [Alike d r r'] : Alike d (optional r) (optional r') where
  reads h := by
    rcases Alike.cases r r' h with ⟨hr, hr'⟩ | ⟨xs, c₁, xs', c₁', hr, hr', hread⟩
    · simp only [optional, hr, hr']
      exact .some ⟨.nil, h⟩
    · simp only [optional, hr, hr']
      exact .some hread

instance [Alike d r r'] (fuel : Nat) : Alike d (repeated r fuel) (repeated r' fuel) := by
  induction fuel with
  | zero => exact inferInstanceAs (Movable d nothing)
  | succ fuel ih =>
    refine ⟨fun {c c'} h => ?_⟩
    rcases Alike.cases r r' h with ⟨hr, hr'⟩ | ⟨xs, c₁, xs', c₁', hr, hr', hxs, h₁⟩
    · simp only [repeated, hr, hr']
      exact .some ⟨.nil, h⟩
    · simp only [repeated, hr, hr', h.left, h₁.left]
      split
      · rcases Alike.cases (repeated r fuel) (repeated r' fuel) h₁ with
          ⟨hs, hs'⟩ | ⟨ys, c₂, ys', c₂', hs, hs', hys, h₂⟩
        · simp only [hs, hs']
          exact .some ⟨hxs, h₁⟩
        · simp only [hs, hs']
          exact .some ⟨List.rel_append hxs hys, h₂⟩
      · exact .some ⟨hxs, h₁⟩

instance [Alike d r r'] : Alike d (many r) (many r') where
  reads {c c'} h := by
    simp only [many, h.left]
    exact Alike.reads h

instance (p : List Lexeme → Bool) [Blind (List.Forall₂ (Lexeme.Displaced d)) p] :
    Movable d (ahead p) where
  reads h := by
    simp only [ahead, Blind.eq (p := p) h.rest]
    split
    · exact .some ⟨.nil, h⟩
    · exact .none

theorem Alike.of_nodes {xs xs' : List Node} (h : List.Forall₂ (Node.Displaced d) xs xs') :
    Alike d (fun c => some (xs, c)) (fun c => some (xs', c)) := ⟨fun hc => .some ⟨h, hc⟩⟩

/-! ## Lexemes -/

theorem leaf_displaced {l l' : Lexeme} (h : l.Displaced d l') (k : Kind) :
    (leaf k l).Displaced d (leaf k l') := by
  obtain ⟨hstart, hstop, hspan⟩ := h
  exact .mk hstart hstop (fun _ => hspan) .nil

instance (p : Lexeme → Bool) [Blind (Lexeme.Displaced d) p] (k : Kind) :
    Movable d (lexeme p k) where
  reads {c c'} h := by
    obtain ⟨rest, left, last⟩ := c
    obtain ⟨rest', left', last'⟩ := c'
    obtain ⟨hrest, hleft, _⟩ := h
    cases hrest with
    | nil => exact .none
    | cons hl hrest =>
      simp only [lexeme, Blind.eq (p := p) hl]
      split
      · refine .some ⟨.cons (leaf_displaced hl k) .nil, hrest, congrArg (· - 1) hleft, ?_⟩
        cases hl
        assumption
      · exact .none

instance (text : String) : Movable d (token text) := inferInstanceAs (Movable d (lexeme _ _))

instance (text : String) : Movable d (assumed text) :=
  inferInstanceAs (Movable d (optional (token text)))

instance (k : Kind) : Movable d (missing k) where
  reads h := .some ⟨.cons (.mk h.last h.last (fun _ => d.span_self h.last) .nil) .nil, h⟩

/-! ## Nodes -/

/-- The offset of a node or lexeme that there is, else the one where it should be. -/
theorem pos_getD {α : Type} {R : α → α → Prop} {x x' : Option α} (h : Option.Rel R x x')
    {f : α → Nat} (hf : ∀ {y y'}, R y y' → d.pos (f y) (f y')) {last last' : Nat}
    (hlast : d.pos last last') : d.pos ((x.map f).getD last) ((x'.map f).getD last') := by
  cases h with
  | none => exact hlast
  | some hy => exact hf hy

theorem around_displaced {xs xs' : List Node} (h : List.Forall₂ (Node.Displaced d) xs xs')
    {last last' : Nat} (hlast : d.pos last last') (k : Kind) :
    Node.Displaced d
      (.mk k none ((xs.head?.map Node.start).getD last) ((xs.getLast?.map Node.stop).getD last) xs)
      (.mk k none ((xs'.head?.map Node.start).getD last')
        ((xs'.getLast?.map Node.stop).getD last') xs') := by
  refine .mk (pos_getD (rel_head? h) (fun hx => ?_) hlast)
    (pos_getD (rel_getLast? h) (fun hx => ?_) hlast) ?_ h
  · cases hx
    assumption
  · cases hx
    assumption
  · rintro rfl
    cases h
    exact d.span_self hlast

instance [Alike d r r'] (k : Kind) : Alike d (node k r) (node k r') where
  reads h := by
    rcases Alike.cases r r' h with ⟨hr, hr'⟩ | ⟨xs, c₁, xs', c₁', hr, hr', hxs, h₁⟩
    · simp only [node, hr, hr']
      exact .none
    · simp only [node, hr, hr']
      exact .some ⟨.cons (around_displaced hxs h.last k) .nil, h₁⟩

theorem withRole_displaced {n n' : Node} (h : n.Displaced d n') (role : Role) :
    (n.withRole role).Displaced d (n'.withRole role) := by
  obtain ⟨hstart, hstop, hspan, hcs⟩ := h
  exact .mk hstart hstop hspan hcs

theorem map_withRole_displaced {xs xs' : List Node} (h : List.Forall₂ (Node.Displaced d) xs xs')
    (role : Role) :
    List.Forall₂ (Node.Displaced d) (xs.map (Node.withRole role)) (xs'.map (Node.withRole role)) :=
  List.forall₂_map_left_iff.mpr
    (List.forall₂_map_right_iff.mpr (h.imp fun _ _ hx => withRole_displaced hx role))

instance [Alike d r r'] (role : Role) : Alike d (inRole role r) (inRole role r') where
  reads h := by
    rcases Alike.cases r r' h with ⟨hr, hr'⟩ | ⟨xs, c₁, xs', c₁', hr, hr', hxs, h₁⟩
    · simp only [inRole, hr, hr']
      exact .none
    · simp only [inRole, hr, hr']
      exact .some ⟨map_withRole_displaced hxs role, h₁⟩

/-! ## Rules with a purpose of their own -/

instance (sep : String) [Alike d r r'] : Alike d (separated sep r) (separated sep r') :=
  inferInstanceAs
    (Alike d (seq [r, many (seq [token sep, r])]) (seq [r', many (seq [token sep, r'])]))

instance : Movable d skipped :=
  inferInstanceAs (Movable d (node .error (lexeme (fun _ => true) .token)))

instance (close : String) [Alike d r r'] : Alike d (upTo close r) (upTo close r') := by
  unfold upTo
  infer_instance

instance (count : List Lexeme → Nat) [Blind (List.Forall₂ (Lexeme.Displaced d)) count] :
    Movable d (setApart count) where
  reads {c c'} h := by
    have htaken := List.forall₂_take (count c'.rest) h.rest
    unfold setApart
    rw [Blind.eq (p := count) h.rest]
    generalize c.rest.take (count c'.rest) = taken at *
    generalize c'.rest.take (count c'.rest) = taken' at *
    have hnodes : List.Forall₂ (Node.Displaced d) (taken.map (leaf .token))
        (taken'.map (leaf .token)) := List.forall₂_map_left_iff.mpr
      (List.forall₂_map_right_iff.mpr (htaken.imp fun _ _ hl => leaf_displaced hl .token))
    have hlast := pos_getD (rel_getLast? htaken) (f := Lexeme.stop)
      (fun hl => by cases hl; assumption) h.last
    have hrest := List.forall₂_drop taken'.length h.rest
    have hopened := Alike.of_nodes hnodes
    have herror : Alike d (node .error fun c => some (taken.map (leaf .token), c))
        (node .error fun c => some (taken'.map (leaf .token), c)) := inferInstance
    have hlength := htaken.length_eq
    cases htaken with
    | nil => exact .none
    | cons hl hls =>
      simp only [hlength, h.left]
      exact herror.reads ⟨hrest, rfl, hlast⟩

instance (n : Nat) [Alike d r r'] : Alike d (within n r) (within n r') where
  reads {c c'} h := by
    have hfirst : Cursor.Displaced d ⟨c.rest.take n, min n c.left, c.last⟩
        ⟨c'.rest.take n, min n c'.left, c'.last⟩ :=
      ⟨List.forall₂_take n h.rest, congrArg (min n) h.left, h.last⟩
    unfold within
    rcases Alike.cases r r' hfirst with ⟨hr, hr'⟩ | ⟨xs, c₁, xs', c₁', hr, hr', hxs, h₁⟩
    · rw [hr, hr']
      exact .none
    · rw [hr, hr']
      simp only [h.left, h₁.left]
      exact .some ⟨hxs, List.forall₂_drop _ h.rest, rfl, h₁.last⟩

end Rule

end CodeAtlas.Java
