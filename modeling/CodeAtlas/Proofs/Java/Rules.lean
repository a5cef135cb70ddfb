import CodeAtlas.Java.Grammar
import CodeAtlas.Proofs.Java.Layout

/-! # Rules that keep the order of the text

A rule that is put together from rules which lay out their nodes in order does so too. This is
stated as a class, with one instance for each way to put rules together, so that a rule of a
grammar keeps the order because of how it is written.
-/

namespace CodeAtlas.Java

/-- The lexemes that are left stand in order behind the last one taken, and `W` holds of the
ranges of the words among them. -/
structure Cursor.Ready (W : Nat → Nat → Prop) (hi : Nat) (c : Cursor) : Prop where
  left : c.left = c.rest.length
  spread : Spread c.last (c.rest.map Lexeme.range) hi
  words : ∀ l ∈ c.rest, l.kind = .word → W l.start l.stop

/-- Sound nodes in order between two offsets that `T` holds of. -/
structure Placed (W : Nat → Nat → Prop) (T : Node → Prop) (lo : Nat) (xs : List Node) (hi : Nat) :
    Prop where
  spread : Spread lo (xs.map Node.range) hi
  sound : ∀ x ∈ xs, x.Sound W
  holds : ∀ x ∈ xs, T x

namespace Placed

variable {W : Nat → Nat → Prop} {T T' : Node → Prop} {lo mid hi : Nat} {xs ys : List Node}

theorem nil (h : lo ≤ hi) : Placed W T lo [] hi := ⟨h, by simp, by simp⟩

theorem append (h : Placed W T lo xs mid) (h' : Placed W T mid ys hi) :
    Placed W T lo (xs ++ ys) hi where
  spread := by
    rw [List.map_append]
    exact h.spread.append h'.spread
  sound := List.forall_mem_append.mpr ⟨h.sound, h'.sound⟩
  holds := List.forall_mem_append.mpr ⟨h.holds, h'.holds⟩

theorem mono (h : Placed W T lo xs hi) (ht : ∀ x, T x → T' x) : Placed W T' lo xs hi :=
  { h with holds := fun x hx => ht x (h.holds x hx) }

theorem node (h : Placed W T lo xs hi) (hlo : lo ≤ mid) (hhi : mid ≤ hi) {k : Kind}
    (hnames : k.bearsName = true → ∀ x, T x → x.Fits W) (hT' : ∀ a b, T' (.mk k none a b xs)) :
    Placed W T' lo [.mk k none ((xs.head?.map Node.start).getD mid)
      ((xs.getLast?.map Node.stop).getD mid) xs] hi := by
  obtain ⟨hstart, hspread, hstop⟩ := h.spread.between hlo hhi
  simp only [List.head?_map, List.getLast?_map, Option.map_map] at hstart hspread hstop
  refine ⟨.singleton hstart hspread.le hstop, ?_, ?_⟩
  · simp only [List.mem_singleton, forall_eq]
    exact .mk hspread (fun hk x hx => hnames hk x (h.holds x hx)) h.sound
  · simp only [List.mem_singleton, forall_eq]
    exact hT' _ _

theorem withRole (h : Placed W T lo xs hi) {role : Role} (hT : ∀ x, T x → T' (x.withRole role)) :
    Placed W T' lo (xs.map (Node.withRole role)) hi where
  spread := by
    rw [List.map_map]
    simpa [Function.comp_def] using h.spread
  sound := by
    intro x hx
    obtain ⟨y, hy, rfl⟩ := List.mem_map.mp hx
    cases h.sound y hy with
    | mk hspread hnames hsound => exact .mk hspread hnames hsound
  holds := by
    intro x hx
    obtain ⟨y, hy, rfl⟩ := List.mem_map.mp hx
    exact hT y (h.holds y hy)

end Placed

namespace Rule

variable {W : Nat → Nat → Prop} {T T' : Node → Prop} {lo mid hi : Nat} {c c' : Cursor}
  {xs ys : List Node} {a b r : Rule} {rs : List Rule}

/-- What a rule reads from a cursor: nodes in order from `lo` on, up to where the new cursor
is. -/
structure Reads (W : Nat → Nat → Prop) (T : Node → Prop) (lo hi : Nat) (c : Cursor)
    (xs : List Node) (c' : Cursor) : Prop where
  ready : c'.Ready W hi
  suffix : c'.rest <:+ c.rest
  last : c.last ≤ c'.last
  placed : Placed W T lo xs c'.last

/-- A rule reads nodes in order from any cursor, when it applies. -/
class Keeps (W : Nat → Nat → Prop) (T : Node → Prop) (r : Rule) : Prop where
  reads {hi : Nat} {c c' : Cursor} {xs : List Node} :
    c.Ready W hi → r c = some (xs, c') → Reads W T c.last hi c xs c'

/-- A rule goes on behind nodes between `lo` and `mid` that it puts in front of its own. -/
class Continues (W : Nat → Nat → Prop) (T : Node → Prop) (lo mid : Nat) (r : Rule) : Prop where
  reads {hi : Nat} {c c' : Cursor} {xs : List Node} :
    c.Ready W hi → lo ≤ mid → mid ≤ c.last → r c = some (xs, c') → Reads W T lo hi c xs c'

namespace Reads

theorem nothing (h : c.Ready W hi) : Reads W T c.last hi c [] c :=
  ⟨h, List.suffix_rfl, Nat.le_refl _, .nil (Nat.le_refl _)⟩

theorem trans {c₁ c₂ : Cursor} (h : Reads W T lo hi c xs c₁) (h' : Reads W T c₁.last hi c₁ ys c₂) :
    Reads W T lo hi c (xs ++ ys) c₂ :=
  ⟨h'.ready, h'.suffix.trans h.suffix, Nat.le_trans h.last h'.last, h.placed.append h'.placed⟩

theorem mono (h : Reads W T lo hi c xs c') (ht : ∀ x, T x → T' x) : Reads W T' lo hi c xs c' :=
  { h with placed := h.placed.mono ht }

end Reads

theorem Keeps.mono (h : Keeps W T r) (ht : ∀ x, T x → T' x) : Keeps W T' r where
  reads hc hr := (h.reads hc hr).mono ht

/-! ## Putting rules together -/

instance : Keeps W T nothing where
  reads hc hr := by
    cases hr
    exact .nothing hc

theorem thenDo_eq_some_iff {result : List Node × Cursor} :
    thenDo a b c = some result ↔ ∃ xs c₁ ys c₂, a c = some (xs, c₁) ∧ b c₁ = some (ys, c₂) ∧
      result = (xs ++ ys, c₂) := by
  unfold thenDo
  constructor
  · intro h
    split at h
    · cases h
    · split at h
      · cases h
      · exact ⟨_, _, _, _, ‹_›, ‹_›, (Option.some.inj h).symm⟩
  · rintro ⟨xs, c₁, ys, c₂, ha, hb, rfl⟩
    simp [ha, hb]

theorem seq_cons (r : Rule) (rs : List Rule) : seq (r :: rs) = thenDo r (seq rs) := by
  cases rs with
  | nil =>
    funext c
    rw [seq]
    cases h : r c <;> simp [thenDo, h, seq, nothing]
  | cons => rfl

instance : Keeps W T (seq []) := inferInstanceAs (Keeps W T nothing)

instance [Keeps W T r] [Keeps W T (seq rs)] : Keeps W T (seq (r :: rs)) where
  reads hc hr := by
    rw [seq_cons, thenDo_eq_some_iff] at hr
    obtain ⟨xs, c₁, ys, c₂, hxs, hys, he⟩ := hr
    obtain ⟨rfl, rfl⟩ := Prod.mk.inj he
    have hfirst := Keeps.reads (T := T) hc hxs
    exact hfirst.trans (Keeps.reads hfirst.ready hys)

instance [Continues W T lo mid r] [Keeps W T (seq rs)] : Continues W T lo mid (seq (r :: rs)) where
  reads hc hlo hmid hr := by
    rw [seq_cons, thenDo_eq_some_iff] at hr
    obtain ⟨xs, c₁, ys, c₂, hxs, hys, he⟩ := hr
    obtain ⟨rfl, rfl⟩ := Prod.mk.inj he
    have hfirst := Continues.reads (T := T) hc hlo hmid hxs
    exact hfirst.trans (Keeps.reads hfirst.ready hys)

instance : Keeps W T (firstOf []) where
  reads _ hr := by cases hr

instance [Keeps W T r] [Keeps W T (firstOf rs)] : Keeps W T (firstOf (r :: rs)) where
  reads hc hr := by
    simp only [firstOf] at hr
    split at hr
    · cases hr
      exact Keeps.reads hc ‹_›
    · exact Keeps.reads hc hr

instance : Continues W T lo mid (firstOf []) where
  reads _ _ _ hr := by cases hr

instance [Continues W T lo mid r] [Continues W T lo mid (firstOf rs)] :
    Continues W T lo mid (firstOf (r :: rs)) where
  reads hc hlo hmid hr := by
    simp only [firstOf] at hr
    split at hr
    · cases hr
      exact Continues.reads hc hlo hmid ‹_›
    · exact Continues.reads hc hlo hmid hr

theorem Continues.firstOf (h : ∀ r ∈ rs, Continues W T lo mid r) :
    Continues W T lo mid (Rule.firstOf rs) := by
  induction rs with
  | nil => infer_instance
  | cons r rs ih =>
    have hr := h r List.mem_cons_self
    have hrs := ih fun r' hr' => h r' (List.mem_cons_of_mem _ hr')
    infer_instance

instance [Keeps W T r] : Keeps W T (optional r) where
  reads hc hr := by
    unfold optional at hr
    split at hr
    · cases hr
      exact Keeps.reads hc ‹_›
    · cases hr
      exact .nothing hc

instance [Keeps W T r] (fuel : Nat) : Keeps W T (repeated r fuel) := by
  induction fuel with
  | zero => exact inferInstanceAs (Keeps W T nothing)
  | succ fuel ih =>
    refine ⟨fun hc hr => ?_⟩
    simp only [repeated] at hr
    split at hr
    · cases hr
      exact .nothing hc
    · have hfirst := Keeps.reads (T := T) hc ‹_›
      split at hr
      · split at hr
        · cases hr
          exact hfirst.trans (Keeps.reads hfirst.ready ‹_›)
        · cases hr
          exact hfirst
      · cases hr
        exact hfirst

instance [Keeps W T r] : Keeps W T (many r) where
  reads {_ c _ _} hc hr := Keeps.reads (r := repeated r c.left) hc hr

theorem eq_of_ahead {p : List Lexeme → Bool} (h : ahead p c = some (xs, c')) :
    xs = [] ∧ c' = c := by
  unfold ahead at h
  split at h
  · cases h
    exact ⟨rfl, rfl⟩
  · cases h

instance (p : List Lexeme → Bool) : Keeps W T (ahead p) where
  reads hc hr := by
    obtain ⟨rfl, rfl⟩ := eq_of_ahead hr
    exact .nothing hc

instance (p : List Lexeme → Bool) [Continues W T lo mid (seq rs)] :
    Continues W T lo mid (seq (ahead p :: rs)) where
  reads hc hlo hmid hr := by
    rw [seq_cons, thenDo_eq_some_iff] at hr
    obtain ⟨xs, c₁, ys, c₂, hxs, hys, he⟩ := hr
    obtain ⟨rfl, rfl⟩ := Prod.mk.inj he
    obtain ⟨rfl, rfl⟩ := eq_of_ahead hxs
    exact Continues.reads hc hlo hmid hys

theorem Continues.of_placed (h : Placed W T lo xs mid) :
    Continues W T lo mid fun c => some (xs, c) where
  reads hc _ hmid hr := by
    cases hr
    exact ⟨hc, List.suffix_rfl, Nat.le_refl _, { h with spread := h.spread.mono_right hmid }⟩

theorem Reads.resume {c₁ : Cursor} (h : Reads W T lo hi c xs c₁)
    (h' : Reads W T lo hi c₁ ys c') : Reads W T lo hi c ys c' :=
  ⟨h'.ready, h'.suffix.trans h.suffix, Nat.le_trans h.last h'.last, h'.placed⟩

theorem Reads.continue {c₁ : Cursor} (h : Reads W T lo hi c xs c₁) (hlo : lo ≤ c.last)
    (hcontinues : Continues W T lo c₁.last r) (hr : r c₁ = some (ys, c')) :
    Reads W T lo hi c ys c' :=
  h.resume (hcontinues.reads h.ready (Nat.le_trans hlo h.last) (Nat.le_refl _) hr)

theorem Reads.behind {c₁ : Cursor} (h : Reads W T c.last hi c ys c₁) (hxs : Placed W T lo xs mid)
    (hmid : mid ≤ c.last) : Reads W T lo hi c (xs ++ ys) c₁ :=
  { h with placed := hxs.append { h.placed with spread := h.placed.spread.mono_left hmid } }

theorem Keeps.of_continues (h : ∀ pos, Continues W T pos pos r) : Keeps W T r where
  reads {_ c _ _} hc hr := (h c.last).reads hc (Nat.le_refl _) (Nat.le_refl _) hr

/-! ## Lexemes -/

def leaf (k : Kind) (l : Lexeme) : Node := .mk k none l.start l.stop []

theorem fits_of_role_none {k : Kind} {start stop : Nat} {cs : List Node} :
    (Node.mk k none start stop cs).Fits W := ⟨nofun, nofun⟩

theorem Reads.leaves (h : c.Ready W hi) {taken rest : List Lexeme} (hsplit : c.rest = taken ++ rest)
    (k : Kind) (hT : ∀ l ∈ taken, T (leaf k l)) :
    Reads W T c.last hi c (taken.map (leaf k))
      ⟨rest, c.left - taken.length, (taken.getLast?.map Lexeme.stop).getD c.last⟩ := by
  have hspread := h.spread
  rw [hsplit, List.map_append] at hspread
  obtain ⟨m, htaken, hrest⟩ := Spread.append_iff.mp hspread
  obtain ⟨hlo, hbetween, hlast⟩ := htaken.between (Nat.le_refl _) htaken.le
  have hstop : (taken.map Lexeme.range).getLast?.map Prod.snd = taken.getLast?.map Lexeme.stop := by
    rw [List.getLast?_map, Option.map_map]
    rfl
  rw [hstop] at hbetween hlast
  refine ⟨⟨?_, hrest.mono_left hlast, ?_⟩, ⟨taken, hsplit.symm⟩, ?_, ?_, ?_, ?_⟩
  · simp [h.left, hsplit]
  · exact fun l hl => h.words l (hsplit ▸ List.mem_append_right _ hl)
  · exact Nat.le_trans hlo hbetween.le
  · rw [List.map_map]
    exact hbetween.mono_left hlo
  · intro x hx
    obtain ⟨l, hl, rfl⟩ := List.mem_map.mp hx
    have hrange := (htaken.of_mem (List.mem_map_of_mem hl)).2.1
    exact .mk hrange (by simp) (by simp)
  · intro x hx
    obtain ⟨l, hl, rfl⟩ := List.mem_map.mp hx
    exact hT l hl

theorem Keeps.lexeme {p : Lexeme → Bool} {k : Kind}
    (hT : ∀ l, p l = true → (l.kind = .word → W l.start l.stop) → T (leaf k l)) :
    Keeps W T (lexeme p k) where
  reads {_ c _ _} hc hr := by
    unfold Rule.lexeme at hr
    split at hr
    · rename_i l rest hrest
      split at hr
      · rename_i hp
        cases hr
        have hword := hc.words l (hrest ▸ List.mem_cons_self)
        have hsplit : c.rest = [l] ++ rest := hrest
        exact Reads.leaves hc hsplit k (by simpa using hT l hp hword)
      · cases hr
    · cases hr

instance (p : Lexeme → Bool) (k : Kind) : Keeps W (Node.Fits W) (lexeme p k) :=
  .lexeme fun _ _ _ => fits_of_role_none

theorem Keeps.word {p : Lexeme → Bool} {k : Kind} (hp : ∀ l, p l = true → l.kind = .word) :
    Keeps W (Node.IsWord W) (Rule.lexeme p k) := .lexeme fun l hl hword => .inr (hword (hp l hl))

instance (text : String) : Keeps W (Node.Fits W) (token text) :=
  inferInstanceAs (Keeps W _ (lexeme _ _))

instance (text : String) : Keeps W (Node.Fits W) (assumed text) :=
  inferInstanceAs (Keeps W _ (optional (token text)))

theorem Keeps.missing {k : Kind} (hT : ∀ pos, T (.mk k none pos pos [])) :
    Keeps W T (missing k) where
  reads {_ c _ _} hc hr := by
    cases hr
    refine ⟨hc, List.suffix_rfl, Nat.le_refl _, ?_, ?_, ?_⟩
    · exact .singleton (Nat.le_refl _) (Nat.le_refl _) (Nat.le_refl _)
    · simpa using .mk (Nat.le_refl c.last) (by simp) (by simp)
    · simpa using hT c.last

instance (k : Kind) : Keeps W (Node.IsWord W) (missing k) := .missing fun _ => .inl rfl

/-! ## Nodes -/

theorem Keeps.node (h : Keeps W T r) {k : Kind}
    (hnames : k.bearsName = true → ∀ x, T x → x.Fits W)
    (hT' : ∀ a b xs, T' (.mk k none a b xs)) : Keeps W T' (node k r) where
  reads hc hr := by
    unfold Rule.node at hr
    split at hr
    · cases hr
    · rename_i xs c₁ hxs
      cases hr
      have hread := h.reads hc hxs
      exact { hread with
        placed := hread.placed.node (Nat.le_refl _) hread.last hnames fun a b => hT' a b xs }

instance (k : Kind) [h : Keeps W (Node.Fits W) r] : Keeps W (Node.Fits W) (node k r) :=
  h.node (fun _ _ hx => hx) fun _ _ _ => fits_of_role_none

instance [h : Keeps W (Node.Fits W) r] : Keeps W Node.IsDeclarator (node .variableDeclarator r) :=
  h.node (fun _ _ hx => hx) fun _ _ _ => rfl

instance (k : Kind) [Continues W (Node.Fits W) lo mid r] :
    Continues W (Node.Fits W) lo mid (node k r) where
  reads hc hlo hmid hr := by
    unfold Rule.node at hr
    split at hr
    · cases hr
    · rename_i xs c₁ hxs
      cases hr
      have hread := Continues.reads (T := Node.Fits W) hc hlo hmid hxs
      exact { hread with
        placed := hread.placed.node (Nat.le_trans hlo hmid) hread.last (fun _ _ hx => hx)
          fun _ _ => fits_of_role_none }

theorem Keeps.inRole (h : Keeps W T r) {role : Role} (hT : ∀ x, T x → T' (x.withRole role)) :
    Keeps W T' (inRole role r) where
  reads hc hr := by
    unfold Rule.inRole at hr
    split at hr
    · cases hr
    · rename_i xs c₁ hxs
      cases hr
      have hread := h.reads hc hxs
      exact { hread with placed := hread.placed.withRole hT }

/-- Any node can play a role in which neither a name nor a declarator is looked for. -/
theorem fits_withRole {role : Role} (hname : role ≠ .name) (hdeclarator : role ≠ .declarator)
    (x : Node) : (x.withRole role).Fits W := by
  cases x
  exact ⟨fun hr => absurd (Option.some.inj hr) hname,
    fun hr => absurd (Option.some.inj hr) hdeclarator⟩

theorem Keeps.inOtherRole (h : Keeps W T r) {role : Role} (hname : role ≠ .name)
    (hdeclarator : role ≠ .declarator) : Keeps W (Node.Fits W) (Rule.inRole role r) :=
  h.inRole fun x _ => fits_withRole hname hdeclarator x

instance [h : Keeps W (Node.IsWord W) r] : Keeps W (Node.Fits W) (inRole .name r) :=
  h.inRole fun x hx => by
    cases x
    exact ⟨fun _ => hx, nofun⟩

instance [h : Keeps W Node.IsDeclarator r] : Keeps W (Node.Fits W) (inRole .declarator r) :=
  h.inRole fun x hx => by
    cases x
    exact ⟨nofun, fun _ => hx⟩

section Roles

variable [h : Keeps W (Node.Fits W) r]

instance : Keeps W (Node.Fits W) (inRole .type r) := h.inOtherRole (by decide) (by decide)

instance : Keeps W (Node.Fits W) (inRole .body r) := h.inOtherRole (by decide) (by decide)

instance : Keeps W (Node.Fits W) (inRole .parameters r) := h.inOtherRole (by decide) (by decide)

instance : Keeps W (Node.Fits W) (inRole .value r) := h.inOtherRole (by decide) (by decide)

instance : Keeps W (Node.Fits W) (inRole .field r) := h.inOtherRole (by decide) (by decide)

instance : Keeps W (Node.Fits W) (inRole .arguments r) := h.inOtherRole (by decide) (by decide)

instance : Keeps W (Node.Fits W) (inRole .key r) := h.inOtherRole (by decide) (by decide)

end Roles

/-! ## Rules with a purpose of their own -/

instance (sep : String) [Keeps W (Node.Fits W) r] : Keeps W (Node.Fits W) (separated sep r) :=
  inferInstanceAs (Keeps W _ (seq [r, many (seq [token sep, r])]))

instance : Keeps W (Node.Fits W) skipped :=
  inferInstanceAs (Keeps W _ (node .error (lexeme (fun _ => true) .token)))

instance (close : String) [Keeps W (Node.Fits W) r] : Keeps W (Node.Fits W) (upTo close r) :=
  inferInstanceAs (Keeps W _ (many (seq [ahead _, firstOf [r, skipped]])))

instance (count : List Lexeme → Nat) : Keeps W (Node.Fits W) (setApart count) where
  reads {_ c _ _} hc hr := by
    have hsplit : c.rest = c.rest.take (count c.rest) ++
        c.rest.drop (c.rest.take (count c.rest)).length :=
      (List.prefix_iff_eq_append.mp (List.take_prefix _ _)).symm
    unfold setApart at hr
    generalize c.rest.take (count c.rest) = taken at hr hsplit
    cases taken with
    | nil => cases hr
    | cons l ls =>
      have hread := Reads.leaves (T := Node.Fits W) hc hsplit .token fun _ _ => fits_of_role_none
      cases hr
      exact { hread with
        placed := hread.placed.node hread.last (Nat.le_refl _) (fun _ _ hx => hx)
          fun _ _ => fits_of_role_none }

/-- The lexemes that the rule inside leaves over are still there. -/
instance (n : Nat) [Keeps W T r] : Keeps W T (within n r) where
  reads {hi c _ _} hc hr := by
    unfold within at hr
    split at hr
    · cases hr
    rename_i xs c₁ hxs
    cases hr
    have hspread := hc.spread
    rw [← List.take_append_drop n c.rest, List.map_append] at hspread
    obtain ⟨m, hfirst, hrest⟩ := Spread.append_iff.mp hspread
    have hin : Cursor.Ready W m ⟨c.rest.take n, min n c.left, c.last⟩ :=
      ⟨by simp [hc.left], hfirst, fun l hl => hc.words l (List.mem_of_mem_take hl)⟩
    have hread := Keeps.reads (T := T) hin hxs
    obtain ⟨front, hfront⟩ : c₁.rest <:+ c.rest.take n := hread.suffix
    have hleft : min n c.left - c₁.left = front.length := by
      have hlength := congrArg List.length hfront
      simp only [List.length_append, List.length_take, ← hread.ready.left, ← hc.left] at hlength
      omega
    have hdrop : c.rest.drop (min n c.left - c₁.left) = c₁.rest ++ c.rest.drop n := by
      conv_lhs => rw [hleft, ← List.take_append_drop n c.rest, ← hfront, List.append_assoc,
        List.drop_left]
    refine ⟨⟨?_, ?_, ?_⟩, List.drop_suffix _ _, hread.last, hread.placed⟩
    · simp [hc.left]
    · rw [hdrop, List.map_append]
      exact hread.ready.spread.append hrest
    · exact fun l hl => hc.words l (List.mem_of_mem_drop hl)

end Rule

end CodeAtlas.Java
