import CodeAtlas.Java.FrontEnd
import CodeAtlas.Proofs.Java.CommentedCalls
import CodeAtlas.Proofs.Java.DisplacedEnds
import CodeAtlas.Proofs.Java.DisplacedGoals
import CodeAtlas.Proofs.Java.NameLines
import CodeAtlas.Proofs.Java.Words

/-! # Comments in a source

A block comment that is put between two lexemes of a source displaces the lexemes behind it, and
the parse tree is the old one with the comment put in. So the calls of the source stay what they
are, unless the comment comes to stand inside a text that is read as a whole.
-/

namespace CodeAtlas.Java

def Lexeme.shift (width : Nat) (l : Lexeme) : Lexeme :=
  { l with start := l.start + width, stop := l.stop + width }

/-- A text that reads as one block comment between two sources, where it changes none of the
lexemes of the two. -/
def CommentBetween (pre comment post : List UInt8) : Prop :=
  ∃ before after text, lex (pre ++ post) = before ++ after ∧
    lex (pre ++ comment ++ post) =
      before ++ ⟨.blockComment, text, pre.length, pre.length + comment.length⟩
        :: after.map (Lexeme.shift comment.length)

/-- Offsets in a source and in the same source with bytes put in. -/
def insertion (pre inserted post : List UInt8) : Displacement where
  pos a a' := (a ≤ pre.length ∧ a' = a) ∨ (pre.length ≤ a ∧ a' = a + inserted.length)
  span a b a' b' := (Source.ofBytes (pre ++ post)).text a b =
    (Source.ofBytes (pre ++ inserted ++ post)).text a' b'
  span_self _ := by simp [text_ofBytes]

variable {pre inserted post : List UInt8}

theorem text_insertion {a b a' b' : Nat} (ha : (insertion pre inserted post).pos a a')
    (hb : (insertion pre inserted post).pos b b') (hne : inserted ≠ [])
    (hout : ¬ (a' ≤ pre.length ∧ pre.length < b')) :
    (Source.ofBytes (pre ++ post)).text a b =
      (Source.ofBytes (pre ++ inserted ++ post)).text a' b' := by
  have hwidth := List.length_pos_iff.mpr hne
  simp only [insertion] at ha hb
  rw [text_ofBytes, text_ofBytes]
  rcases ha with ⟨ha, rfl⟩ | ⟨ha, rfl⟩ <;> rcases hb with ⟨hb, rfl⟩ | ⟨hb, rfl⟩
  · have hfront (rest : List UInt8) :
        ((pre ++ rest).drop a').take (b' - a') = (pre.drop a').take (b' - a') := by
      rw [List.drop_append_of_le_length ha, List.take_append_of_le_length]
      rw [List.length_drop]
      omega
    rw [List.append_assoc, hfront, hfront]
  · omega
  · have hempty : b' - a = 0 ∧ b' - (a + inserted.length) = 0 := by omega
    rw [hempty.1, hempty.2, List.take_zero, List.take_zero]
  · have hback : ((pre ++ inserted ++ post).drop (a + inserted.length)) = (pre ++ post).drop a := by
      obtain ⟨k, rfl⟩ := Nat.exists_eq_add_of_le ha
      simp [Nat.add_assoc, Nat.add_comm k]
    rw [hback, Nat.add_sub_add_right]

/-! ## Comments among comments -/

/-- Comments of a source, and those of the same source with bytes put in. What is put in is a
comment, or there is none here. -/
inductive CommentsAround (pos width : Nat) : List Lexeme → List Lexeme → Prop
  | mk {xs ks ys : List Lexeme} : (∀ l ∈ xs, l.start < pos ∧ l.stop ≤ pos) →
      (∀ k ∈ ks, k.kind = .blockComment ∧ k.start = pos ∧ pos < k.stop) →
      (∀ l ∈ ys, pos ≤ l.start ∧ pos ≤ l.stop) →
      CommentsAround pos width (xs ++ ys) (xs ++ (ks ++ ys.map (Lexeme.shift width)))

section Cut

variable {α : Type} {p : α → Bool} {xs ys : List α}

theorem takeWhile_append_of_neg (h : ∀ y ∈ ys, p y = false) :
    (xs ++ ys).takeWhile p = xs.takeWhile p := by
  induction xs with
  | nil =>
    cases ys with
    | nil => rfl
    | cons y ys => simp [h y List.mem_cons_self]
  | cons x xs ih => rw [List.cons_append, List.takeWhile_cons, List.takeWhile_cons, ih]

theorem dropWhile_append_of_neg (h : ∀ y ∈ ys, p y = false) :
    (xs ++ ys).dropWhile p = xs.dropWhile p ++ ys := by
  induction xs with
  | nil =>
    cases ys with
    | nil => rfl
    | cons y ys => simp [h y List.mem_cons_self]
  | cons x xs ih =>
    rw [List.cons_append, List.dropWhile_cons, List.dropWhile_cons, ih]
    split <;> rfl

end Cut

theorem CommentsAround.cut {pos width y y' : Nat} {cs cs' : List Lexeme}
    (h : CommentsAround pos width cs cs') (hwidth : 0 < width)
    (hy : (y ≤ pos ∧ y' = y) ∨ (pos ≤ y ∧ y' = y + width)) :
    CommentsAround pos width (cs.takeWhile fun l => l.start < y)
        (cs'.takeWhile fun l => l.start < y') ∧
      CommentsAround pos width (cs.dropWhile fun l => l.start < y)
        (cs'.dropWhile fun l => l.start < y') := by
  obtain ⟨hxs, hks, hys⟩ := h
  rename_i xs ks ys
  rcases hy with ⟨hy, rfl⟩ | ⟨hy, rfl⟩
  · -- everything from the offset on is behind the cut
    have hlater : ∀ l ∈ ys, decide (l.start < y') = false := fun l hl =>
      decide_eq_false (Nat.not_lt.mpr (Nat.le_trans hy (hys l hl).1))
    have hlater' : ∀ l ∈ ks ++ ys.map (Lexeme.shift width), decide (l.start < y') = false := by
      intro l hl
      rcases List.mem_append.mp hl with hl | hl
      · exact decide_eq_false (Nat.not_lt.mpr ((hks l hl).2.1 ▸ hy))
      · obtain ⟨m, hm, rfl⟩ := List.mem_map.mp hl
        have hm := (hys m hm).1
        exact decide_eq_false (by simp only [Lexeme.shift]; omega)
    rw [takeWhile_append_of_neg hlater, takeWhile_append_of_neg hlater',
      dropWhile_append_of_neg hlater, dropWhile_append_of_neg hlater']
    refine ⟨?_, .mk (fun l hl => hxs l ((List.dropWhile_sublist _).subset hl)) hks hys⟩
    have hfront : CommentsAround pos width (xs.takeWhile (fun l => l.start < y') ++ [])
        (xs.takeWhile (fun l => l.start < y') ++ ([] ++ [].map (Lexeme.shift width))) :=
      .mk (fun l hl => hxs l ((List.takeWhile_sublist _).subset hl)) nofun nofun
    simpa using hfront
  · -- everything up to the offset is in front of the cut
    have hearlier : ∀ l ∈ xs, decide (l.start < y) = true := fun l hl =>
      decide_eq_true (Nat.lt_of_lt_of_le (hxs l hl).1 hy)
    have hearlier' : ∀ l ∈ xs, decide (l.start < y + width) = true := fun l hl =>
      decide_eq_true (by have hl := (hxs l hl).1; omega)
    have hput : ∀ k ∈ ks, decide (k.start < y + width) = true := fun k hk =>
      decide_eq_true (by have hk := (hks k hk).2.1; omega)
    have hshift : (fun l : Lexeme => decide (l.start < y + width)) ∘ Lexeme.shift width =
        fun l => decide (l.start < y) := by
      funext l
      simp [Lexeme.shift]
    rw [List.takeWhile_append_of_pos hearlier, List.takeWhile_append_of_pos hearlier',
      List.takeWhile_append_of_pos hput, List.dropWhile_append_of_pos hearlier,
      List.dropWhile_append_of_pos hearlier', List.dropWhile_append_of_pos hput,
      List.takeWhile_map, List.dropWhile_map, hshift]
    refine ⟨.mk hxs hks fun l hl => hys l ((List.takeWhile_sublist _).subset hl), ?_⟩
    have hback : CommentsAround pos width ([] ++ ys.dropWhile fun l => l.start < y)
        ([] ++ ([] ++ (ys.dropWhile fun l => l.start < y).map (Lexeme.shift width))) :=
      .mk nofun nofun fun l hl => hys l ((List.dropWhile_sublist _).subset hl)
    exact hback

/-! ## Comments in trees -/

namespace Node

variable {src src' : Source} {pos : Nat}

theorem CommentedAll.of_map {xs : List Lexeme} {f f' : Lexeme → Node}
    (h : ∀ l ∈ xs, Commented src src' pos (f l) (f' l)) :
    CommentedAll src src' pos (xs.map f) (xs.map f') := by
  induction xs with
  | nil => exact .nil
  | cons x xs ih =>
    exact .cons (h x List.mem_cons_self) (ih fun l hl => h l (List.mem_cons_of_mem _ hl))

theorem CommentedAll.of_comments {ks : List Lexeme}
    (h : ∀ k ∈ ks, k.kind = .blockComment ∧ k.start = pos ∧ pos < k.stop) :
    CommentedAll src src' pos [] (ks.map ofComment) := by
  induction ks with
  | nil => exact .nil
  | cons k ks ih =>
    obtain ⟨hkind, rfl, hstop⟩ := h k List.mem_cons_self
    rw [List.map_cons, ofComment, hkind]
    exact .comment hstop (ih fun l hl => h l (List.mem_cons_of_mem _ hl))

section Weave

variable (hne : inserted ≠ [])

include hne

theorem map_ofComment_commented {cs cs' : List Lexeme}
    (h : CommentsAround pre.length inserted.length cs cs') :
    CommentedAll (.ofBytes (pre ++ post)) (.ofBytes (pre ++ inserted ++ post)) pre.length
      (cs.map ofComment) (cs'.map ofComment) := by
  obtain ⟨hxs, hks, hys⟩ := h
  rw [List.map_append, List.map_append, List.map_append, List.map_map]
  refine .append (.of_map fun l hl => ?_)
    (.append (.of_comments hks) (.of_map fun l hl => ?_))
  · have hl := hxs l hl
    exact .mk (fun hout => text_insertion (.inl ⟨Nat.le_of_lt hl.1, rfl⟩) (.inl ⟨hl.2, rfl⟩) hne
      hout) .nil
  · have hl := hys l hl
    exact .mk (fun hout => text_insertion (.inr ⟨hl.1, rfl⟩) (.inr ⟨hl.2, rfl⟩) hne hout) .nil

mutual

theorem weave_commented : ∀ {n n' : Node} {cs cs' : List Lexeme},
    n.Displaced (insertion pre inserted post) n' →
    CommentsAround pre.length inserted.length cs cs' →
    Commented (.ofBytes (pre ++ post)) (.ofBytes (pre ++ inserted ++ post)) pre.length
      (n.weave cs) (n'.weave cs')
  | .mk k r a b cs, .mk _ _ a' b' cs', _, _, .mk ha hb _ hcs, hcomments => by
    rw [weave, weave]
    exact .mk (fun hout => text_insertion ha hb hne hout) (weaveAll_commented hcs hcomments)

theorem weaveAll_commented : ∀ {ns ns' : List Node} {cs cs' : List Lexeme},
    List.Forall₂ (Node.Displaced (insertion pre inserted post)) ns ns' →
    CommentsAround pre.length inserted.length cs cs' →
    CommentedAll (.ofBytes (pre ++ post)) (.ofBytes (pre ++ inserted ++ post)) pre.length
      (weaveAll cs ns) (weaveAll cs' ns')
  | [], [], _, _, .nil, hcomments => by
    rw [weaveAll, weaveAll]
    exact map_ofComment_commented hne hcomments
  | .mk k r a b cs :: ns, .mk _ _ a' b' cs' :: ns', _, _, .cons (.mk ha hb hspan hcs) hns,
      hcomments => by
    have hwidth := List.length_pos_iff.mpr hne
    obtain ⟨hbefore, hhere⟩ := hcomments.cut hwidth ha
    obtain ⟨hinside, hlater⟩ := hhere.cut hwidth hb
    rw [weaveAll, weaveAll]
    exact (map_ofComment_commented hne hbefore).append
      (.cons (weave_commented (.mk ha hb hspan hcs) hinside) (weaveAll_commented hns hlater))

end

end Weave

end Node

/-! ## Comments in a source -/

theorem significant_displaced {d : Displacement} {ls ls' : List Lexeme} (afterPoint : Bool)
    (h : List.Forall₂ (Lexeme.Displaced d) ls ls') :
    List.Forall₂ (Lexeme.Displaced d) (significant afterPoint ls) (significant afterPoint ls') := by
  induction h generalizing afterPoint with
  | nil => exact .nil
  | @cons l l' ls ls' hl _ ih =>
    have hskipped : (l.isComment || (l.kind == .stray && !afterPoint)) =
        (l'.isComment || (l'.kind == .stray && !afterPoint)) := by
      cases hl
      rfl
    have hpoint : l.isMark "." = l'.isMark "." := Blind.eq (p := fun l => l.isMark ".") hl
    rw [significant, significant, hskipped, hpoint]
    split
    · exact ih afterPoint
    · exact .cons hl (ih _)

theorem significant_comment {k : Lexeme} (hk : k.isComment = true) (ls : List Lexeme) :
    ∀ (afterPoint : Bool) (xs : List Lexeme),
      significant afterPoint (xs ++ k :: ls) = significant afterPoint (xs ++ ls)
  | afterPoint, [] => by
    rw [List.nil_append, significant, if_pos (by simp [hk]), List.nil_append]
  | afterPoint, x :: xs => by
    rw [List.cons_append, List.cons_append, significant, significant,
      significant_comment hk ls afterPoint xs, significant_comment hk ls (x.isMark ".") xs]

theorem lexemes_around {bytes : List UInt8} {before after : List Lexeme} {k : Lexeme} {width : Nat}
    (h : lex bytes = before ++ k :: after.map (Lexeme.shift width))
    (hk : k.stop = k.start + width) :
    (∀ l ∈ before, l.start < k.start ∧ l.stop ≤ k.start) ∧
      ∀ l ∈ after, k.start ≤ l.start ∧ k.start ≤ l.stop := by
  have hspread := (laidOut_lex bytes).spread
  rw [h, List.map_append] at hspread
  obtain ⟨mid, hfront, hmid, hrange, hback⟩ := Spread.append_iff.mp hspread
  constructor
  · intro l hl
    have hrange := hfront.of_mem (List.mem_map_of_mem hl)
    have hstart : l.start < l.stop :=
      start_lt_stop_of_mem_lex (h ▸ List.mem_append_left _ hl)
    simp only [Lexeme.range] at hrange hmid
    omega
  · intro l hl
    have hrange := hback.of_mem (List.mem_map_of_mem (List.mem_map_of_mem hl))
    simp only [Lexeme.range, Lexeme.shift, hk] at hrange
    omega

variable {comment : List UInt8}

theorem displaced_before (hne : comment ≠ []) {l : Lexeme}
    (hl : l.start < pre.length ∧ l.stop ≤ pre.length) :
    l.Displaced (insertion pre comment post) l := by
  have hstart : (insertion pre comment post).pos l.start l.start := .inl ⟨Nat.le_of_lt hl.1, rfl⟩
  have hstop : (insertion pre comment post).pos l.stop l.stop := .inl ⟨hl.2, rfl⟩
  exact .mk hstart hstop (text_insertion hstart hstop hne (by omega))

theorem displaced_after (hne : comment ≠ []) {l : Lexeme}
    (hl : pre.length ≤ l.start ∧ pre.length ≤ l.stop) :
    l.Displaced (insertion pre comment post) (l.shift comment.length) := by
  have hwidth := List.length_pos_iff.mpr hne
  have hstart : (insertion pre comment post).pos l.start (l.start + comment.length) :=
    .inr ⟨hl.1, rfl⟩
  have hstop : (insertion pre comment post).pos l.stop (l.stop + comment.length) :=
    .inr ⟨hl.2, rfl⟩
  exact .mk hstart hstop (text_insertion hstart hstop hne (by omega))

theorem parseTree_eq (bytes : List UInt8) :
    parseTree bytes = .mk .program none 0 bytes.length
      (Node.weaveAll ((lex bytes).filter Lexeme.isComment)
        (settleEnd (.ofBytes bytes) (unitItems (significant false (lex bytes))))) := by
  rw [parseTree, Node.weave]

theorem parseTree_commented (h : CommentBetween pre comment post) :
    (parseTree (pre ++ post)).Commented (.ofBytes (pre ++ post))
      (.ofBytes (pre ++ comment ++ post)) pre.length (parseTree (pre ++ comment ++ post)) := by
  obtain ⟨before, after, text, hwithout, hwith⟩ := h
  have hne : comment ≠ [] := by
    rintro rfl
    rw [List.append_nil, hwithout] at hwith
    have hlength := congrArg List.length hwith
    simp at hlength
  obtain ⟨hbefore, hafter⟩ := lexemes_around hwith rfl
  have hfront : List.Forall₂ (Lexeme.Displaced (insertion pre comment post)) before before :=
    List.forall₂_same.mpr fun l hl => displaced_before hne (hbefore l hl)
  have hback : List.Forall₂ (Lexeme.Displaced (insertion pre comment post)) after
      (after.map (Lexeme.shift comment.length)) :=
    List.forall₂_map_right_iff.mpr
      (List.forall₂_same.mpr fun l hl => displaced_after hne (hafter l hl))
  have hfirst : (insertion pre comment post).pos 0 0 := .inl ⟨Nat.zero_le _, rfl⟩
  have hlast : (insertion pre comment post).pos (pre ++ post).length
      (pre ++ comment ++ post).length := .inr (by simp only [List.length_append]; omega)
  have hlexemes := List.rel_append hfront hback
  have hitems := unitItems_displaced (significant_displaced false hlexemes) hfirst
  have hsettled := settleEnd_displaced (fun h => h) hitems
  have hcomments : CommentsAround pre.length comment.length
      ((before ++ after).filter Lexeme.isComment)
      ((before ++ ⟨.blockComment, text, pre.length, pre.length + comment.length⟩
        :: after.map (Lexeme.shift comment.length)).filter Lexeme.isComment) := by
    rw [List.filter_append, List.filter_append, List.filter_cons_of_pos rfl, List.filter_map]
    have hput : ∀ k ∈ [(⟨.blockComment, text, pre.length, pre.length + comment.length⟩ : Lexeme)],
        k.kind = .blockComment ∧ k.start = pre.length ∧ pre.length < k.stop := by
      simpa using List.length_pos_iff.mpr hne
    exact .mk (fun l hl => hbefore l (List.mem_of_mem_filter hl)) hput
      fun l hl => hafter l (List.mem_of_mem_filter hl)
  rw [parseTree_eq, parseTree_eq, hwithout, hwith, significant_comment rfl]
  refine .mk (fun hout => absurd ⟨Nat.zero_le _, ?_⟩ hout)
    (Node.weaveAll_commented hne hsettled hcomments)
  have hwidth := List.length_pos_iff.mpr hne
  simp only [Node.stop, List.length_append]
  omega

/-- A comment changes no call of a source, apart from its line, where it is in none of the texts
that the calls are read from: whatever the two trees are, as long as one is the other with the
comment put in, and so for the trees that are built of a source and of the same source with a
block comment between two lexemes. -/
theorem comment_keeps_calls (fallback : String) :
    (∀ {bytes bytes' : List UInt8} {pos : Nat} {root root' : Node},
      root.Commented (.ofBytes bytes) (.ofBytes bytes') pos root' →
      Node.Clear pos (textsRead (.ofBytes bytes') root') →
      (outlineOf bytes' root' fallback).links = (outlineOf bytes root fallback).links) ∧
    ∀ {pre comment post : List UInt8}, CommentBetween pre comment post →
      Node.Clear pre.length
        (textsRead (.ofBytes (pre ++ comment ++ post)) (parseTree (pre ++ comment ++ post))) →
      (outlineOfBytes (pre ++ comment ++ post) fallback).links =
        (outlineOfBytes (pre ++ post) fallback).links :=
  ⟨fun h hclear => (outlineOf_links h hclear fallback).symm,
    fun h hclear => (outlineOf_links (parseTree_commented h) hclear fallback).symm⟩

namespace Sample

/-- A call with a place for a comment between its parentheses. -/
def beforeArguments : List UInt8 := "class A\x7bB x;void n()\x7b(x).m(".toUTF8.toList

def afterArguments : List UInt8 := ");\x7d\x7d".toUTF8.toList

/-- The same call with a place for a comment in front of its receiver. -/
def beforeReceiver : List UInt8 := "class A\x7bB x;void n()\x7b(".toUTF8.toList

def afterReceiver : List UInt8 := "x).m();\x7d\x7d".toUTF8.toList

def shortComment : List UInt8 := "/*c*/".toUTF8.toList

theorem commentBetween_arguments : CommentBetween beforeArguments shortComment afterArguments :=
  ⟨lex beforeArguments, (lex (beforeArguments ++ afterArguments)).drop 17, "/*c*/",
    by decide +kernel, by decide +kernel⟩

theorem commentBetween_receiver : CommentBetween beforeReceiver shortComment afterReceiver :=
  ⟨lex beforeReceiver, (lex (beforeReceiver ++ afterReceiver)).drop 12, "/*c*/",
    by decide +kernel, by decide +kernel⟩

end Sample

open Java.Sample in
theorem comment_in_arguments_keeps_calls :
    CommentBetween beforeArguments shortComment afterArguments ∧
      (outlineOf (beforeArguments ++ shortComment ++ afterArguments)
          (parseTree (beforeArguments ++ shortComment ++ afterArguments)) "p").links =
        (outlineOf (beforeArguments ++ afterArguments)
          (parseTree (beforeArguments ++ afterArguments)) "p").links ∧
      (outlineOfBytes (beforeArguments ++ shortComment ++ afterArguments) "").links =
        (outlineOfBytes (beforeArguments ++ afterArguments) "").links ∧
      (outlineOfBytes (beforeArguments ++ afterArguments) "").calls.map CallEdge.callee =
        ["B.m"] :=
  have hclear : Node.Clear beforeArguments.length
      (textsRead (.ofBytes (beforeArguments ++ shortComment ++ afterArguments))
        (parseTree (beforeArguments ++ shortComment ++ afterArguments))) := by decide +kernel
  ⟨commentBetween_arguments,
    (comment_keeps_calls "p").1 (parseTree_commented commentBetween_arguments) hclear,
    (comment_keeps_calls "").2 commentBetween_arguments hclear, by decide +kernel⟩

open Java.Sample in
/-- A comment in front of a receiver in parentheses is taken for the receiver, so that the type of
the receiver is lost. -/
theorem leading_comment_hides_receiver :
    CommentBetween beforeReceiver shortComment afterReceiver ∧
      (outlineOfBytes (beforeReceiver ++ afterReceiver) "").calls.map CallEdge.callee = ["B.m"] ∧
      (outlineOfBytes (beforeReceiver ++ shortComment ++ afterReceiver) "").calls.map
        CallEdge.callee = ["?.m"] ∧
      (outlineOfBytes (beforeReceiver ++ shortComment ++ afterReceiver) "").links ≠
        (outlineOfBytes (beforeReceiver ++ afterReceiver) "").links := by
  have hwithout : (outlineOfBytes (beforeReceiver ++ afterReceiver) "").calls.map
      CallEdge.callee = ["B.m"] := by decide +kernel
  have hwith : (outlineOfBytes (beforeReceiver ++ shortComment ++ afterReceiver) "").calls.map
      CallEdge.callee = ["?.m"] := by decide +kernel
  refine ⟨commentBetween_receiver, hwithout, hwith, fun hlinks => ?_⟩
  have hcallees := congrArg (List.map fun l => l.2.1) hlinks
  rw [Outline.links, Outline.links, List.map_map, List.map_map] at hcallees
  exact absurd (hwith.symm.trans (hcallees.trans hwithout)) (by decide)

end CodeAtlas.Java
