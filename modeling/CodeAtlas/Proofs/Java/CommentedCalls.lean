import CodeAtlas.Proofs.Java.CallTexts
import CodeAtlas.Proofs.Java.Declarations

/-! # Calls in trees with comments

By induction on how types are nested, the calls of a tree are those of the tree without the comment
that is put in, apart from their lines, where the comment is in none of the texts that calls are
read from.
-/

namespace CodeAtlas.Java

namespace Node

variable {src src' : Source} {pos : Nat} {n n' : Node} {ns ns' : List Node}

/-! ## Declared types -/

section Reading

variable {k : Kind} {r : Option Role} {a b : Nat} {cs : List Node} {top : Bool}

theorem declaredTexts_of_passes
    (hk : (if top then k == .error else isTransparent k) = true) :
    declaredTexts src top (.mk k r a b cs) = declaredTextsIn src top cs := by
  rw [declaredTexts, if_pos hk]

theorem declaredTexts_of_type (hk : (typeKind? k).isSome = true) :
    declaredTexts src top (.mk k r a b cs) =
      ownTypeTexts (.mk k r a b cs) ++ bodyTexts src cs := by
  have hpasses : ¬ (if top then k == .error else isTransparent k) = true := by
    unfold typeKind? at hk
    split at hk <;> first | exact absurd hk Bool.false_ne_true | cases top <;> simp [isTransparent]
  rw [declaredTexts, if_neg hpasses, if_pos hk]

end Reading

section Types

variable (package : String)

mutual

theorem declaredTypes_eq (parent : String) : ∀ {n n' : Node}, Commented src src' pos n n' →
    Clear pos (ownTypeTexts n' ++ bodyTexts src' n'.children) →
    declaredTypes src package parent n = declaredTypes src' package parent n'
  | .mk k r a b cs, .mk _ _ a' b' cs', .mk htext hcs, hclear => by
    have hown := (clear_append_iff.mp hclear).1
    simp only [ownTypeTexts, clear_append_iff] at hown
    unfold declaredTypes
    rw [declaredName?_eq (.mk htext hcs) hown.1.1]
    split
    · rfl
    · simp only [declaredInBody_eq _ hcs (clear_append_iff.mp hclear).2]
termination_by structural _ n' => n'

theorem declaredInBody_eq (parent : String) : ∀ {ns ns' : List Node},
    CommentedAll src src' pos ns ns' → Clear pos (bodyTexts src' ns') →
    declaredInBody src package parent ns = declaredInBody src' package parent ns'
  | [], [], .nil, _ => by rw [declaredInBody, declaredInBody]
  | .mk k r a b cs :: ns, .mk _ _ a' b' cs' :: ns', .cons (.mk htext hcs) hns, hclear => by
    unfold bodyTexts at hclear
    unfold declaredInBody
    split
    · rename_i hr
      rw [if_pos hr] at hclear
      exact declaredInMembers_eq parent hcs hclear
    · rename_i hr
      rw [if_neg hr] at hclear
      exact declaredInBody_eq parent hns hclear
  | _, _ :: ns', .comment _ hns, hclear => by
    rw [bodyTexts, if_neg (by simp)] at hclear
    rw [declaredInBody_eq parent hns hclear]
    conv_rhs => rw [declaredInBody, if_neg (by simp)]
termination_by structural _ ns' => ns'

theorem declaredInMembers_eq (parent : String) : ∀ {ns ns' : List Node},
    CommentedAll src src' pos ns ns' → Clear pos (declaredTextsIn src' false ns') →
    declaredInMembers src package parent ns = declaredInMembers src' package parent ns'
  | [], [], .nil, _ => by rw [declaredInMembers, declaredInMembers]
  | .mk k r a b cs :: ns, .mk _ _ a' b' cs' :: ns', .cons (.mk htext hcs) hns, hclear => by
    rw [declaredTextsIn, clear_append_iff] at hclear
    obtain ⟨hhere, hlater⟩ := hclear
    rw [declaredInMembers, declaredInMembers, declaredInMembers_eq parent hns hlater]
    congr 1
    split
    · rename_i hk
      rw [declaredTexts_of_passes (by simpa using hk)] at hhere
      exact declaredInMembers_eq parent hcs hhere
    · split
      · rename_i hk
        rw [declaredTexts_of_type hk] at hhere
        exact declaredTypes_eq parent (.mk htext hcs) hhere
      · rfl
  | _, _ :: ns', .comment _ hns, hclear => by
    rw [declaredTextsIn, clear_append_iff] at hclear
    rw [declaredInMembers_eq parent hns hclear.2]
    rfl
termination_by structural _ ns' => ns'

end

mutual

theorem declaredAtTop_eq : ∀ {n n' : Node}, Commented src src' pos n n' →
    Clear pos (declaredTexts src' true n') →
    declaredAtTop src package n = declaredAtTop src' package n'
  | .mk k r a b cs, .mk _ _ a' b' cs', .mk htext hcs, hclear => by
    unfold declaredAtTop
    split
    · rename_i hk
      rw [declaredTexts_of_type hk] at hclear
      exact declaredTypes_eq package "" (.mk htext hcs) hclear
    · split
      · rename_i hk
        rw [declaredTexts_of_passes (by simpa using hk)] at hclear
        exact declaredAtTopIn_eq hcs hclear
      · rfl

theorem declaredAtTopIn_eq : ∀ {ns ns' : List Node}, CommentedAll src src' pos ns ns' →
    Clear pos (declaredTextsIn src' true ns') →
    declaredAtTopIn src package ns = declaredAtTopIn src' package ns'
  | [], [], .nil, _ => by rw [declaredAtTopIn, declaredAtTopIn]
  | n :: ns, n' :: ns', .cons hn hns, hclear => by
    rw [declaredTextsIn, clear_append_iff] at hclear
    rw [declaredAtTopIn, declaredAtTopIn, declaredAtTop_eq hn hclear.1,
      declaredAtTopIn_eq hns hclear.2]
  | _, _ :: ns', .comment _ hns, hclear => by
    rw [declaredTextsIn, clear_append_iff] at hclear
    rw [declaredAtTopIn_eq hns hclear.2]
    rfl

end

end Types

theorem fileScope_eq (h : Commented src src' pos n n') (fallback : String)
    (hclear : Clear pos (textsRead src' n')) :
    fileScope src n fallback = fileScope src' n' fallback := by
  simp only [fileScope, packageOf_eq h fallback hclear, importsOf_eq h hclear,
    declaredAtTopIn_eq _ h.children (clear_append_iff.mp hclear).2]

/-! ## Calls -/

theorem bodyCalls_link (ctx : CallContext) (caller : String) (h : Commented src src' pos n n')
    (hclear : Clear pos (n'.preorder.flatMap (callTexts src'))) :
    (bodyCalls src ctx caller n).map CallEdge.link =
      (bodyCalls src' ctx caller n').map CallEdge.link := by
  rw [← preorderOutside_false] at hclear
  rw [bodyCalls, bodyCalls, List.map_filterMap, List.map_filterMap,
    List.filterMap_eq_flatMap_toList, List.filterMap_eq_flatMap_toList, ← preorderOutside_false,
    ← preorderOutside_false]
  have hcomment (stop : Nat) :
      ((callEdge? src' ctx caller (.mk .blockComment none pos stop [])).map CallEdge.link).toList
        = [] := rfl
  refine flatMap_preorderOutside_eq hcomment (fun hm hc => ?_) h hclear
  rw [callEdge?_link ctx caller hm hc]

section Outlines

variable {facts facts' : FileFacts}

theorem links_append (a b : Outline) : (a ++ b).links = a.links ++ b.links := List.map_append

theorem routineCalls_link (scope : FileScope) (owner : String) (fields : Bindings)
    (caller : String) (h : Commented src src' pos n n')
    (hclear : Clear pos (routineTexts src' n')) :
    (routineCalls src scope owner fields caller n).map CallEdge.link =
      (routineCalls src' scope owner fields caller n').map CallEdge.link := by
  have hbody := h.child? .body
  have htexts := (clear_append_iff.mp hclear).2
  unfold routineCalls localTypes bodyBindings
  generalize n.child? .body = body at *
  generalize n'.child? .body = body' at *
  cases hbody with
  | none => rfl
  | some hb =>
    simp only [Option.toList_some, List.flatMap_singleton, clear_append_iff] at htexts
    obtain ⟨⟨hparams, hlocals⟩, hcalls⟩ := htexts
    have hcomment (stop : Nat) : localBindings src' (.mk .blockComment none pos stop []) = [] := rfl
    have hbound := flatMap_preorderOutside_eq hcomment localBindings_eq hb hlocals
    simp only [paramBindings_eq h hparams, hbound]
    exact bodyCalls_link _ caller hb hcalls

/-- The calls of a member are those in the body of a method or constructor. -/
theorem calls_memberOutline (owner : String) (fields : Bindings) (hkind : typeKind? n.kind = none) :
    (memberOutline src facts owner fields n).calls =
      match callableKind? n.kind, declaredName? src n with
      | some kind, some name => routineCalls src facts.scope owner fields
          (qualify owner (if kind == .constructor then "<init>" else name)) n
      | _, _ => [] := by
  rw [← ownOutline_inType hkind]
  split
  · rename_i kind name hcallable hname
    rw [ownOutline_of_routine hcallable hname]
  · rename_i hnone
    refine (ownOutline_of_not_routine fun _ _ kind name _ hcallable hname => ?_).1
    exact hnone kind name hcallable hname

theorem memberOutline_links (hscope : facts.scope = facts'.scope) (owner : String)
    (fields : Bindings) (hkind : typeKind? n'.kind = none) (h : Commented src src' pos n n')
    (hclear : (callableKind? n'.kind).isSome = true → Clear pos (routineTexts src' n')) :
    (memberOutline src facts owner fields n).links =
      (memberOutline src' facts' owner fields n').links := by
  rw [Outline.links, Outline.links, calls_memberOutline owner fields (h.kind_eq ▸ hkind),
    calls_memberOutline owner fields hkind, h.kind_eq, hscope]
  cases hcallable : callableKind? n'.kind with
  | none => rfl
  | some kind =>
    have hroutine := hclear (by rw [hcallable]; rfl)
    rw [declaredName?_eq h (clear_append_iff.mp hroutine).1]
    cases declaredName? src' n' with
    | none => rfl
    | some name => exact routineCalls_link _ owner fields _ h hroutine

mutual

theorem typeOutline_links (hscope : facts.scope = facts'.scope) (parent : String) (outer : Bindings)
    (kind : SymbolKind) : ∀ {n n' : Node}, Commented src src' pos n n' →
    Clear pos (ownTypeTexts n' ++ bodyTexts src' n'.children) →
    (typeOutline src facts parent outer kind n).links =
      (typeOutline src' facts' parent outer kind n').links
  | .mk k r a b cs, .mk _ _ a' b' cs', .mk htext hcs, hclear => by
    have h : Commented src src' pos (.mk k r a b cs) (.mk k r a' b' cs') := .mk htext hcs
    obtain ⟨hown, hbody⟩ := clear_append_iff.mp hclear
    have hname := hown
    simp only [ownTypeTexts, clear_append_iff] at hname
    unfold typeOutline
    simp only [declaredName?_eq h hname.1.1, visibleFields_eq h outer hown, hscope]
    split
    · rfl
    · rw [links_append, links_append, bodyOutline_links hscope _ _ hcs hbody]
      rfl
termination_by structural _ n' => n'

theorem bodyOutline_links (hscope : facts.scope = facts'.scope) (owner : String)
    (fields : Bindings) : ∀ {ns ns' : List Node}, CommentedAll src src' pos ns ns' →
    Clear pos (bodyTexts src' ns') →
    (bodyOutline src facts owner fields ns).links =
      (bodyOutline src' facts' owner fields ns').links
  | [], [], .nil, _ => by rw [bodyOutline, bodyOutline]
  | .mk k r a b cs :: ns, .mk _ _ a' b' cs' :: ns', .cons (.mk htext hcs) hns, hclear => by
    unfold bodyTexts at hclear
    unfold bodyOutline
    split
    · rename_i hr
      rw [if_pos hr] at hclear
      exact membersOutline_links hscope owner fields hcs hclear
    · rename_i hr
      rw [if_neg hr] at hclear
      exact bodyOutline_links hscope owner fields hns hclear
  | _, _ :: ns', .comment _ hns, hclear => by
    rw [bodyTexts, if_neg (by simp)] at hclear
    rw [bodyOutline_links hscope owner fields hns hclear]
    conv_rhs => rw [bodyOutline, if_neg (by simp)]
termination_by structural _ ns' => ns'

theorem membersOutline_links (hscope : facts.scope = facts'.scope) (owner : String)
    (fields : Bindings) : ∀ {ns ns' : List Node}, CommentedAll src src' pos ns ns' →
    Clear pos (declaredTextsIn src' false ns') →
    (membersOutline src facts owner fields ns).links =
      (membersOutline src' facts' owner fields ns').links
  | [], [], .nil, _ => by rw [membersOutline, membersOutline]
  | .mk k r a b cs :: ns, .mk _ _ a' b' cs' :: ns', .cons (.mk htext hcs) hns, hclear => by
    rw [declaredTextsIn, clear_append_iff] at hclear
    obtain ⟨hhere, hlater⟩ := hclear
    rw [membersOutline, membersOutline, links_append, links_append,
      membersOutline_links hscope owner fields hns hlater]
    congr 1
    split
    · rename_i hk
      rw [declaredTexts_of_passes (by simpa using hk)] at hhere
      exact membersOutline_links hscope owner fields hcs hhere
    · rename_i hpasses
      split
      · rename_i kind hk
        rw [declaredTexts_of_type (by rw [hk]; rfl)] at hhere
        exact typeOutline_links hscope owner fields kind (.mk htext hcs) hhere
      · rename_i hk
        refine memberOutline_links hscope owner fields hk (.mk htext hcs) fun hcallable => ?_
        rw [declaredTexts, if_neg (by simpa using hpasses), if_neg (by simp [hk]),
          if_pos (by simpa [kind] using hcallable)] at hhere
        exact hhere
  | _, _ :: ns', .comment _ hns, hclear => by
    rw [declaredTextsIn, clear_append_iff] at hclear
    rw [membersOutline_links hscope owner fields hns hclear.2]
    rfl
termination_by structural _ ns' => ns'

end

mutual

theorem topOutline_links (hscope : facts.scope = facts'.scope) : ∀ {n n' : Node},
    Commented src src' pos n n' → Clear pos (declaredTexts src' true n') →
    (topOutline src facts n).links =
      (topOutline src' facts' n').links
  | .mk k r a b cs, .mk _ _ a' b' cs', .mk htext hcs, hclear => by
    unfold topOutline
    split
    · rename_i kind hk
      rw [declaredTexts_of_type (by rw [hk]; rfl)] at hclear
      exact typeOutline_links hscope "" {} kind (.mk htext hcs) hclear
    · split
      · rename_i hk
        rw [declaredTexts_of_passes (by simpa using hk)] at hclear
        exact topOutlines_links hscope hcs hclear
      · rfl
termination_by structural _ n' => n'

theorem topOutlines_links (hscope : facts.scope = facts'.scope) : ∀ {ns ns' : List Node},
    CommentedAll src src' pos ns ns' → Clear pos (declaredTextsIn src' true ns') →
    (topOutlines src facts ns).links =
      (topOutlines src' facts' ns').links
  | [], [], .nil, _ => by rw [topOutlines, topOutlines]
  | n :: ns, n' :: ns', .cons hn hns, hclear => by
    rw [declaredTextsIn, clear_append_iff] at hclear
    rw [topOutlines, topOutlines, links_append, links_append, topOutline_links hscope hn hclear.1,
      topOutlines_links hscope hns hclear.2]
  | _, _ :: ns', .comment _ hns, hclear => by
    rw [declaredTextsIn, clear_append_iff] at hclear
    rw [topOutlines_links hscope hns hclear.2]
    rfl
termination_by structural _ ns' => ns'

end

end Outlines

end Node

/-- The calls of a tree are those of the tree without the comment, apart from their lines, where
the comment is in none of the texts that are read. -/
theorem outlineOf_links {bytes bytes' : List UInt8} {pos : Nat} {root root' : Node}
    (h : root.Commented (.ofBytes bytes) (.ofBytes bytes') pos root')
    (hclear : Node.Clear pos (textsRead (.ofBytes bytes') root')) (fallback : String) :
    (outlineOf bytes root fallback).links =
      (outlineOf bytes' root' fallback).links :=
  Node.topOutlines_links (Node.fileScope_eq h fallback hclear) h.children
    (Node.clear_append_iff.mp hclear).2

end CodeAtlas.Java
