import CodeAtlas.Proofs.Java.Goals

/-! # Names in parse trees

In a tree that the grammar builds, the name of a declaration is a word inside the declaration,
or it is missing and takes up nothing. Taking apart what the end of the file leaves open and
putting the comments in does not change that.
-/

namespace CodeAtlas.Java

variable {W : Nat → Nat → Prop}

namespace Node

/-- Where a declaration has a name, the name is a word inside it; and where it has a declarator,
that is one, and inside it. -/
def NamesInside (W : Nat → Nat → Prop) (n : Node) : Prop :=
  n.kind.bearsName = true → ∀ c ∈ n.children,
    (c.role = some .name → c.IsWord W ∧ n.start ≤ c.start ∧ c.stop ≤ n.stop) ∧
      (c.role = some .declarator → c.IsDeclarator ∧ n.start ≤ c.start ∧ c.stop ≤ n.stop)

/-! ## Comments -/

theorem weave_range (comments : List Lexeme) (n : Node) :
    (n.weave comments).kind = n.kind ∧ (n.weave comments).role = n.role ∧
      (n.weave comments).start = n.start ∧ (n.weave comments).stop = n.stop := by
  cases n
  simp [weave, kind, role, start, stop]

theorem children_weave (comments : List Lexeme) (n : Node) :
    (n.weave comments).children = weaveAll comments n.children := by
  cases n
  simp [weave, children]

theorem mem_weaveAll {comments : List Lexeme} {ns : List Node} {c : Node}
    (h : c ∈ weaveAll comments ns) :
    (∃ l, c = ofComment l) ∨ ∃ n ∈ ns, ∃ inner, c = n.weave inner := by
  induction ns generalizing comments with
  | nil =>
    obtain ⟨l, -, rfl⟩ := List.mem_map.mp (by simpa [weaveAll] using h)
    exact .inl ⟨l, rfl⟩
  | cons n ns ih =>
    rw [weaveAll] at h
    rcases List.mem_append.mp h with h | h
    · obtain ⟨l, -, rfl⟩ := List.mem_map.mp h
      exact .inl ⟨l, rfl⟩
    · rcases List.mem_cons.mp h with rfl | h
      · exact .inr ⟨n, List.mem_cons_self, _, rfl⟩
      · rcases ih h with hl | ⟨m, hm, hc⟩
        · exact .inl hl
        · exact .inr ⟨m, List.mem_cons_of_mem _ hm, hc⟩

theorem mem_preorder_cases {n m : Node} (h : m ∈ n.preorder) :
    m = n ∨ ∃ c ∈ n.children, m ∈ c.preorder := by
  obtain ⟨p, hp⟩ := mem_preorder_iff.mp h
  cases p with
  | nil => exact .inl (Option.some.inj ((at?_nil n).symm.trans hp)).symm
  | cons i p =>
    obtain ⟨c, hc, hp⟩ := at?_cons_eq_some_iff.mp hp
    exact .inr ⟨c, List.mem_of_getElem? hc, mem_preorder_iff.mpr ⟨p, hp⟩⟩

theorem mem_preorder_ofComment {l : Lexeme} {m : Node} (h : m ∈ (ofComment l).preorder) :
    m = ofComment l := by
  simpa [ofComment, preorder, preorderAll] using h

/-- The names of a sound tree are inside its declarations, also with comments put in. -/
theorem Sound.namesInside_weave {n : Node} (h : n.Sound W) {comments : List Lexeme} :
    ∀ m ∈ (n.weave comments).preorder, m.NamesInside W := by
  induction h generalizing comments with
  | @mk k r a b cs hspread hnames _ ih =>
    intro m hm
    rcases mem_preorder_cases hm with rfl | ⟨c, hc, hm⟩
    · rw [NamesInside, children_weave]
      obtain ⟨hkind, -, hstart, hstop⟩ := weave_range comments (Node.mk k r a b cs)
      rw [hkind, hstart, hstop]
      intro hk c hc
      rcases mem_weaveAll hc with ⟨l, rfl⟩ | ⟨d, hd, inner, rfl⟩
      · exact ⟨nofun, nofun⟩
      · obtain ⟨hkind, hrole, hstart, hstop⟩ := weave_range inner d
        obtain ⟨hfirst, -, hlast⟩ := hspread.of_mem (List.mem_map_of_mem hd)
        obtain ⟨hname, hdeclarator⟩ := hnames hk d hd
        rw [hrole, hstart, hstop, IsWord, IsDeclarator, hkind, hstart, hstop]
        exact ⟨fun hr => ⟨hname hr, hfirst, hlast⟩, fun hr => ⟨hdeclarator hr, hfirst, hlast⟩⟩
    · rw [children_weave] at hc
      rcases mem_weaveAll hc with ⟨l, rfl⟩ | ⟨d, hd, inner, rfl⟩
      · obtain rfl := mem_preorder_ofComment hm
        exact fun hk => absurd hk (by cases hl : l.kind <;> simp [ofComment, kind, hl] <;> decide)
      · exact ih d hd m hm

/-! ## The end of a file -/

theorem Sound.start_le_stop {n : Node} (h : n.Sound W) : n.start ≤ n.stop := by
  cases h with
  | mk hspread => exact hspread.le

end Node

open Node

theorem Placed.single {n : Node} {lo : Nat} (hlo : lo ≤ n.start) (hn : n.Sound W) :
    Placed W (fun _ => True) lo [n] n.stop :=
  ⟨.singleton hlo hn.start_le_stop (Nat.le_refl _), by simpa using hn, by simp⟩

mutual

theorem placed_finishedParts : ∀ n : Node, n.Sound W →
    Placed W (fun _ => True) n.start (finishedParts n) n.stop
  | .mk k r a b [], h => by
    rw [finishedParts]
    exact .single (Nat.le_refl _) h
  | .mk k r a b (c :: cs), h => by
    rw [finishedParts]
    cases h with
    | mk hspread _ hsound => exact placed_finishedIn (c :: cs) hspread hsound

theorem placed_finishedIn : ∀ (ns : List Node) {lo hi : Nat}, Spread lo (ns.map Node.range) hi →
    (∀ n ∈ ns, n.Sound W) → Placed W (fun _ => True) lo (finishedIn ns) hi
  | [], lo, hi, hspread, _ => by
    rw [finishedIn]
    exact .nil hspread
  | [n], lo, hi, hspread, hsound => by
    rw [finishedIn]
    have hparts := placed_finishedParts n (hsound n List.mem_cons_self)
    exact { hparts with spread := (hparts.spread.mono_left hspread.1).mono_right hspread.2.2 }
  | n :: m :: ns, lo, hi, hspread, hsound => by
    rw [finishedIn]
    have hrest := placed_finishedIn (m :: ns) hspread.2.2
      fun x hx => hsound x (List.mem_cons_of_mem _ hx)
    · exact Placed.append (.single hspread.1 (hsound n List.mem_cons_self)) hrest
    · simp

end

theorem placed_settleEnd (src : Source) {lo hi : Nat} {ns : List Node}
    (h : Placed W (fun _ => True) lo ns hi) :
    Placed W (fun _ => True) lo (settleEnd src ns) hi := by
  induction ns generalizing lo with
  | nil => simpa [settleEnd] using h
  | cons n ns ih =>
    have hn := h.sound n List.mem_cons_self
    have hsound : ∀ m ∈ ns, m.Sound W := fun m hm => h.sound m (List.mem_cons_of_mem _ hm)
    obtain ⟨hlo, hle, hrest⟩ := h.spread
    cases ns with
    | nil =>
      rw [settleEnd]
      split
      · exact h
      · have hparts := placed_finishedParts n hn
        refine ⟨.singleton hlo hle hrest, ?_, by simp⟩
        simpa using .mk hparts.spread nofun hparts.sound
    | cons m ns =>
      rw [settleEnd]
      · exact Placed.append (.single hlo hn) (ih ⟨hrest, hsound, by simp⟩)
      · simp

/-! ## Trees -/

theorem placed_unitItems {ls : List Lexeme} {hi : Nat} (h : (Cursor.ofLexemes ls).Ready W hi) :
    Placed W (fun _ => True) 0 (unitItems ls) hi := by
  unfold unitItems
  split
  · rename_i items c hitems
    have hread : Rule.Reads W (Node.Fits W) 0 hi _ items c := Rule.Keeps.reads h hitems
    exact { hread.placed with
      spread := hread.placed.spread.mono_right hread.ready.spread.le, holds := by simp }
  · exact .nil h.spread.le

theorem namesInside_parseTree {bytes : List UInt8}
    (h : (Cursor.ofLexemes (significant false (lex bytes))).Ready W bytes.length) :
    ∀ n ∈ (parseTree bytes).preorder, n.NamesInside W := by
  have hitems := placed_settleEnd (Source.ofBytes bytes) (placed_unitItems h)
  have hroot : Node.Sound W (.mk .program none 0 bytes.length
      (settleEnd (Source.ofBytes bytes) (unitItems (significant false (lex bytes))))) :=
    .mk hitems.spread nofun hitems.sound
  exact hroot.namesInside_weave

end CodeAtlas.Java
