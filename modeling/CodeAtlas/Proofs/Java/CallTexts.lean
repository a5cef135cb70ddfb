import CodeAtlas.Proofs.Java.Comments

/-! # The texts that calls are read from

A call is read from the name of its method and from its receiver; and what the receiver is depends
on the texts of names and types, of its own and of the variables, fields and imports in sight. The
list of these texts is computed here, with a comment among them where it comes first in the
parentheses of a receiver and is taken for it. With a comment put in that is in none of them,
everything is read as before.
-/

namespace CodeAtlas

def CallEdge.link (e : CallEdge) : String × String × CallType × Binary64 :=
  (e.caller, e.callee, e.callType, e.confidence)

def Outline.links (o : Outline) : List (String × String × CallType × Binary64) :=
  o.calls.map CallEdge.link

namespace Java

section Texts

variable (src : Source)

mutual

/-- The name at the root of a chain of calls and field accesses. -/
def chainTexts : Node → List Node
  | .mk k r a b cs =>
    match k with
    | .methodInvocation | .fieldAccess => chainTextsIn cs
    | .identifier => [.mk k r a b cs]
    | _ => []

def chainTextsIn : List Node → List Node
  | [] => []
  | .mk k r a b cs :: ns =>
    if r == some .object then chainTexts (.mk k r a b cs) else chainTextsIn ns

end

def fieldReceiverTexts (n : Node) : List Node :=
  match fieldReceiver src n with
  | .thisField _ => (n.child? .field).toList
  | .expression _ => [n]
  | _ => chainTexts n

mutual

/-- The texts that a receiver is read from. A comment that is taken for the receiver is among
them. -/
def receiverTexts : Node → List Node
  | .mk k r a b cs =>
    match k with
    | .identifier | .blockComment => [.mk k r a b cs]
    | .fieldAccess => fieldReceiverTexts src (.mk k r a b cs)
    | .methodInvocation => chainTexts (.mk k r a b cs)
    | .objectCreation => ((Node.mk k r a b cs).child? .type).toList
    | .parenthesized => firstReceiverTexts cs
    | _ => []

def firstReceiverTexts : List Node → List Node
  | [] => []
  | n :: ns => if n.kind.isNamed then receiverTexts n else firstReceiverTexts ns

end

def nameTexts (n : Node) : List Node := (n.child? .name).toList

def typeTexts (n : Node) : List Node := (n.child? .type).toList

def callTexts (n : Node) : List Node :=
  if n.kind == .methodInvocation then
    nameTexts n ++ (n.child? .object).toList.flatMap (receiverTexts src)
  else []

/-- The type of the object that a variable is set to. -/
def createdTexts (declarator : Node) : List Node :=
  ((declarator.child? .value).toList.filter fun v => v.kind == .objectCreation).flatMap typeTexts

def localTexts (n : Node) : List Node :=
  match n.kind with
  | .localVariables =>
    typeTexts n ++ (n.childrenOf .declarator).flatMap nameTexts ++
      if (n.child? .type).map (Node.text src) == some "var" then
        (n.childrenOf .declarator).flatMap createdTexts
      else []
  | .enhancedFor | .resource => typeTexts n ++ nameTexts n
  | .catchParameter =>
    ((n.childOfKind? .catchType).bind fun c => c.named.head?).toList ++ nameTexts n
  | _ => []

def paramTexts (p : Node) : List Node :=
  match p.kind with
  | .formalParameter => typeTexts p ++ nameTexts p
  | .spreadParameter =>
    (p.named.find? fun c => c.kind != .modifiers && c.kind != .variableDeclarator).toList
      ++ (p.childOfKind? .variableDeclarator).toList.flatMap nameTexts
  | _ => []

/-- The parameters in the list of a method or record. -/
def parameterTexts (n : Node) : List Node :=
  (n.child? .parameters).toList.flatMap fun ps => ps.named.flatMap paramTexts

def fieldTexts (n : Node) : List Node :=
  if isFieldKind n.kind then typeTexts n ++ (n.childrenOf .declarator).flatMap nameTexts else []

/-- A type is read by its name, its components and its fields. -/
def ownTypeTexts (n : Node) : List Node :=
  nameTexts n ++ parameterTexts n ++
    (n.child? .body).toList.flatMap fun body => (membersIn body.children).flatMap fieldTexts

/-- A method or constructor is read by its name, its variables and its calls. -/
def routineTexts (n : Node) : List Node :=
  nameTexts n ++ (n.child? .body).toList.flatMap fun body =>
    parameterTexts n ++ (body.preorderOutside (· == .classBody)).flatMap (localTexts src)
      ++ body.preorder.flatMap (callTexts src)

mutual

/-- The texts that a node is read by at the top level or as a member of a type. -/
def declaredTexts (top : Bool) : Node → List Node
  | .mk k r a b cs =>
    if if top then k == .error else isTransparent k then declaredTextsIn top cs
    else if (typeKind? k).isSome then ownTypeTexts (.mk k r a b cs) ++ bodyTexts cs
    else if !top && (callableKind? k).isSome then routineTexts src (.mk k r a b cs)
    else []

def declaredTextsIn (top : Bool) : List Node → List Node
  | [] => []
  | n :: ns => declaredTexts top n ++ declaredTextsIn top ns

def bodyTexts : List Node → List Node
  | [] => []
  | .mk _ r _ _ cs :: ns => if r == some .body then declaredTextsIn false cs else bodyTexts ns

end

/-- The names and words of a package or import declaration. -/
def headerTexts (n : Node) : List Node :=
  n.children.filter fun c => [.identifier, .scopedIdentifier, .token].contains c.kind

/-- The nodes whose texts are read for the call edges of a tree. -/
def textsRead (root : Node) : List Node :=
  (root.named.filter fun n => [.packageDeclaration, .importDeclaration].contains n.kind).flatMap
      headerTexts
    ++ declaredTextsIn src true root.children

end Texts

namespace Node

variable {src src' : Source} {pos : Nat} {n n' : Node} {ns ns' : List Node}

/-! ## Names and receivers -/

theorem declaredName?_eq (h : Commented src src' pos n n') (hclear : Clear pos (nameTexts n')) :
    declaredName? src n = declaredName? src' n' := by
  refine map_eq_of_rel (h.child? .name) fun hname hn => hn.text_eq (hclear _ ?_)
  simpa [nameTexts] using hname

mutual

theorem chainRoot?_eq : ∀ {n n' : Node}, Commented src src' pos n n' →
    Clear pos (chainTexts n') → chainRoot? src n = chainRoot? src' n'
  | .mk k r a b cs, .mk _ _ a' b' cs', .mk htext hcs, hclear => by
    unfold chainTexts at hclear
    unfold chainRoot?
    split
    · exact chainRootOf?_eq hcs hclear
    · exact chainRootOf?_eq hcs hclear
    · exact congrArg some (htext (hclear _ (by simp)))
    · rfl
    · rfl

theorem chainRootOf?_eq : ∀ {ns ns' : List Node}, CommentedAll src src' pos ns ns' →
    Clear pos (chainTextsIn ns') → chainRootOf? src ns = chainRootOf? src' ns'
  | [], [], .nil, _ => by rw [chainRootOf?, chainRootOf?]
  | .mk k r a b cs :: ns, .mk _ _ a' b' cs' :: ns', .cons (.mk htext hcs) hns, hclear => by
    unfold chainTextsIn at hclear
    unfold chainRootOf?
    split
    · rename_i hr
      rw [if_pos hr] at hclear
      exact chainRoot?_eq (.mk htext hcs) hclear
    · rename_i hr
      rw [if_neg hr] at hclear
      exact chainRootOf?_eq hns hclear
  | _, _ :: ns', .comment _ hns, hclear => by
    rw [chainTextsIn, if_neg (by simp)] at hclear
    rw [chainRootOf?_eq hns hclear]
    conv_rhs => rw [chainRootOf?, if_neg (by simp)]

end

mutual

theorem leadsToCall_eq : ∀ {n n' : Node}, Commented src src' pos n n' →
    leadsToCall n = leadsToCall n'
  | .mk k r a b cs, .mk _ _ a' b' cs', .mk _ hcs => by
    unfold leadsToCall
    split
    · rfl
    · exact objectLeadsToCall_eq hcs
    · rfl

theorem objectLeadsToCall_eq : ∀ {ns ns' : List Node}, CommentedAll src src' pos ns ns' →
    objectLeadsToCall ns = objectLeadsToCall ns'
  | [], [], .nil => by rw [objectLeadsToCall]
  | .mk k r a b cs :: ns, .mk _ _ a' b' cs' :: ns', .cons (.mk htext hcs) hns => by
    unfold objectLeadsToCall
    split
    · exact leadsToCall_eq (.mk htext hcs)
    · exact objectLeadsToCall_eq hns
  | _, _ :: ns', .comment _ hns => by
    rw [objectLeadsToCall_eq hns]
    conv_rhs => rw [objectLeadsToCall, if_neg (by simp)]

end

/-- A field access is a field of the enclosing object, or a chain, or kept as it is written. -/
theorem fieldReceiver_cases (src : Source) (n : Node) :
    (∃ object field, n.child? .object = some object ∧ n.child? .field = some field ∧
      object.kind = .thisReference ∧ fieldReceiver src n = .thisField (field.text src)) ∨
    ((∀ object field, n.child? .object = some object → n.child? .field = some field →
        object.kind ≠ .thisReference) ∧
      fieldReceiver src n =
        if leadsToCall n then .chained (chainRoot? src n)
        else .expression (Text.collapse (n.text src))) := by
  unfold fieldReceiver
  split
  · rename_i object field hobject hfield
    by_cases hk : object.kind = .thisReference
    · exact .inl ⟨object, field, hobject, hfield, hk, by simp [hk]⟩
    · refine .inr ⟨?_, by simp [hk]⟩
      intro o f ho _
      obtain rfl := Option.some.inj (hobject.symm.trans ho)
      exact hk
  · rename_i hne
    exact .inr ⟨fun o f ho hf => absurd hf (hne o f ho), rfl⟩

theorem fieldReceiver_eq (h : Commented src src' pos n n')
    (hclear : Clear pos (fieldReceiverTexts src' n')) :
    fieldReceiver src n = fieldReceiver src' n' := by
  rcases fieldReceiver_cases src' n' with ⟨o', f', ho', hf', hk', he'⟩ | ⟨hother', he'⟩
  · obtain ⟨o, ho, hoo⟩ := exists_left_of_rel (h.child? .object) ho'
    obtain ⟨f, hf, hff⟩ := exists_left_of_rel (h.child? .field) hf'
    rw [fieldReceiverTexts, he'] at hclear
    have hk : (o.kind == .thisReference) = true := by rw [hoo.kind_eq, hk']; rfl
    rw [he', fieldReceiver, ho, hf]
    simp only [hk, if_true]
    rw [hff.text_eq (hclear f' (by simp [hf']))]
  · rcases fieldReceiver_cases src n with ⟨o, f, ho, hf, hk, he⟩ | ⟨_, he⟩
    · obtain ⟨o', ho', hoo⟩ := exists_right_of_rel (h.child? .object) ho
      obtain ⟨f', hf', _⟩ := exists_right_of_rel (h.child? .field) hf
      exact absurd (hoo.kind_eq.symm.trans hk) (hother' o' f' ho' hf')
    · rw [fieldReceiverTexts, he'] at hclear
      rw [he, he', leadsToCall_eq h]
      by_cases hl : leadsToCall n' = true
      · rw [if_pos hl] at hclear
        rw [if_pos hl, if_pos hl, chainRoot?_eq h hclear]
      · rw [if_neg hl] at hclear
        rw [if_neg hl, if_neg hl, h.text_eq (hclear n' (by simp))]

mutual

theorem receiverOf_eq : ∀ {n n' : Node}, Commented src src' pos n n' →
    Clear pos (receiverTexts src' n') → receiverOf src n = receiverOf src' n'
  | .mk k r a b cs, .mk _ _ a' b' cs', .mk htext hcs, hclear => by
    have h : Commented src src' pos (.mk k r a b cs) (.mk k r a' b' cs') := .mk htext hcs
    unfold receiverTexts at hclear
    unfold receiverOf
    split
    · rfl
    · rfl
    · exact congrArg Receiver.identifier (htext (hclear _ (by simp)))
    · exact fieldReceiver_eq h hclear
    · exact congrArg Receiver.chained (chainRoot?_eq h hclear)
    · have htype := h.child? .type
      simp only at hclear
      generalize (Node.mk _ r a b cs).child? .type = t at htype
      generalize (Node.mk _ r a' b' cs').child? .type = t' at htype hclear
      cases htype with
      | none => rfl
      | some ht => exact congrArg Receiver.construct (ht.text_eq (hclear _ (by simp)))
    · rfl
    · exact firstReceiver_eq hcs hclear
    · rfl

theorem firstReceiver_eq : ∀ {ns ns' : List Node}, CommentedAll src src' pos ns ns' →
    Clear pos (firstReceiverTexts src' ns') → firstReceiver src ns = firstReceiver src' ns'
  | [], [], .nil, _ => by rw [firstReceiver, firstReceiver]
  | n :: ns, n' :: ns', .cons hn hns, hclear => by
    unfold firstReceiverTexts at hclear
    unfold firstReceiver
    rw [hn.kind_eq]
    split
    · rename_i hnamed
      rw [if_pos hnamed] at hclear
      exact receiverOf_eq hn hclear
    · rename_i hnamed
      rw [if_neg hnamed] at hclear
      exact firstReceiver_eq hns hclear
  | _, _ :: ns', @CommentedAll.comment _ _ _ stop _ _ hstop hns, hclear => by
    -- the comment would be taken for the receiver
    have hnamed : (Node.mk .blockComment none pos stop []).kind.isNamed = true := rfl
    rw [firstReceiverTexts, if_pos hnamed, receiverTexts] at hclear
    exact absurd (covers_comment hstop) (hclear _ (by simp))

end

theorem callEdge?_link (ctx : CallContext) (caller : String) (h : Commented src src' pos n n')
    (hclear : Clear pos (callTexts src' n')) :
    (callEdge? src ctx caller n).map CallEdge.link =
      (callEdge? src' ctx caller n').map CallEdge.link := by
  unfold callTexts at hclear
  unfold callEdge?
  rw [h.kind_eq]
  split
  · rename_i hk
    rw [if_pos hk, clear_append_iff] at hclear
    have hname := h.child? .name
    have hobject := h.child? .object
    obtain ⟨hname', hobject'⟩ := hclear
    unfold nameTexts at hname'
    generalize n.child? .name = m at hname
    generalize n'.child? .name = m' at hname hname'
    generalize n.child? .object = o at hobject
    generalize n'.child? .object = o' at hobject hobject'
    cases hname with
    | none => rfl
    | some hm =>
      have hm := hm.text_eq (hname' _ (by simp))
      cases hobject with
      | none => simp [CallEdge.link, hm]
      | some ho =>
        have ho := receiverOf_eq ho (by simpa using hobject')
        simp [CallEdge.link, hm, ho]
  · rfl

theorem textPair?_eq {t t' m m' : Option Node} (ht : Option.Rel (Commented src src' pos) t t')
    (hm : Option.Rel (Commented src src' pos) m m')
    (hclear : Clear pos (t'.toList ++ m'.toList)) : textPair? src t m = textPair? src' t' m' := by
  cases ht with
  | none => rfl
  | some ht =>
    cases hm with
    | none => rfl
    | some hm =>
      simp [textPair?, ht.text_eq (hclear _ (by simp)), hm.text_eq (hclear _ (by simp))]

theorem inferredType?_eq (h : Commented src src' pos n n') (hclear : Clear pos (createdTexts n')) :
    inferredType? src n = inferredType? src' n' := by
  have hvalue := h.child? .value
  unfold createdTexts at hclear
  unfold inferredType?
  generalize n.child? .value = v at hvalue
  generalize n'.child? .value = v' at hvalue hclear
  cases hvalue with
  | none => rfl
  | some hv =>
    rename_i v v'
    have htype := hv.child? .type
    simp only [hv.kind_eq]
    split
    · rename_i hk
      simp only [Option.toList_some, List.filter_cons, hk, if_true, List.filter_nil,
        List.flatMap_singleton, typeTexts] at hclear
      generalize v.child? .type = t at htype
      generalize v'.child? .type = t' at htype hclear
      cases htype with
      | none => rfl
      | some ht => exact congrArg some (ht.text_eq (hclear _ (by simp)))
    · rfl

/-! ## Variables and fields -/

theorem localBindings_eq (h : Commented src src' pos n n')
    (hclear : Clear pos (localTexts src' n')) : localBindings src n = localBindings src' n' := by
  have hname := h.child? .name
  have htype := h.child? .type
  unfold localTexts nameTexts typeTexts at hclear
  unfold localBindings
  rw [h.kind_eq]
  split
  · rename_i hk
    simp only [hk, clear_append_iff] at hclear
    obtain ⟨⟨ht', hnames⟩, hcreated⟩ := hclear
    generalize n.child? .type = t at htype
    generalize n'.child? .type = t' at htype ht' hcreated
    cases htype with
    | none => rfl
    | some ht =>
      rename_i t t'
      have ht := ht.text_eq (ht' _ (by simp))
      simp only [List.filterMap_eq_flatMap_toList]
      refine flatMap_eq_of_rel (h.childrenOf .declarator) fun hmem hd => ?_
      rw [declaredName?_eq hd (hnames.of_flatMap hmem), ht]
      by_cases hvar : (t'.text src' == "var") = true
      · rw [if_pos (by simpa using hvar)] at hcreated
        rw [inferredType?_eq hd (hcreated.of_flatMap hmem)]
      · simp only [if_neg hvar]
  · rename_i hk
    simp only [hk] at hclear
    rw [textPair?_eq htype hname hclear]
  · rename_i hk
    simp only [hk] at hclear
    rw [textPair?_eq htype hname hclear]
  · rename_i hk
    simp only [hk] at hclear
    have hpair := rel_bind (h.childOfKind? (k := .catchType) nofun) fun hmem hc =>
      hc.children.named.head? (by
        rw [Option.mem_def.mp hmem, clear_append_iff] at hclear
        exact hclear.1)
    exact congrArg Option.toList (textPair?_eq hpair hname hclear)
  · rfl

theorem paramBinding?_eq (h : Commented src src' pos n n') (hclear : Clear pos (paramTexts n')) :
    paramBinding? src n = paramBinding? src' n' := by
  unfold paramTexts nameTexts typeTexts at hclear
  unfold paramBinding?
  rw [h.kind_eq]
  split
  · rename_i hk
    simp only [hk] at hclear
    exact textPair?_eq (h.child? .type) (h.child? .name) hclear
  · rename_i hk
    simp only [hk, clear_append_iff] at hclear
    obtain ⟨htype', hname'⟩ := hclear
    have htype : Option.Rel (Commented src src' pos)
        (n.named.find? fun c => c.kind != .modifiers && c.kind != .variableDeclarator)
        (n'.named.find? fun c => c.kind != .modifiers && c.kind != .variableDeclarator) := by
      rw [← List.head?_filter] at htype' ⊢
      rw [← List.head?_filter]
      exact (h.children.named.select fun k _ => k != .modifiers && k != .variableDeclarator).head?
        htype'
    have hname := rel_bind (h.childOfKind? (k := .variableDeclarator) nofun) fun _ hd =>
      hd.child? .name
    simp only
    rw [textPair?_eq htype hname]
    refine clear_append_iff.mpr ⟨htype', ?_⟩
    generalize n'.childOfKind? .variableDeclarator = d' at hname'
    cases d' with
    | none => exact hname'
    | some d' => simpa [nameTexts] using hname'
  · rfl

theorem paramBindings_eq (h : Commented src src' pos n n')
    (hclear : Clear pos (parameterTexts n')) :
    paramBindings src (n.child? .parameters) = paramBindings src' (n'.child? .parameters) := by
  have hparams := h.child? .parameters
  unfold parameterTexts at hclear
  generalize n.child? .parameters = ps at hparams
  generalize n'.child? .parameters = ps' at hparams hclear
  cases hparams with
  | none => rfl
  | some hps =>
    simp only [paramBindings, List.filterMap_eq_flatMap_toList]
    refine hps.children.named.flatMap_eq (fun _ => rfl) fun hmem hp => ?_
    rw [Option.toList_some, List.flatMap_singleton] at hclear
    rw [paramBinding?_eq hp (hclear.of_flatMap hmem)]

theorem fieldBindings_eq (h : Commented src src' pos n n') (hclear : Clear pos (fieldTexts n')) :
    fieldBindings src n = fieldBindings src' n' := by
  have htype := h.child? .type
  unfold fieldTexts typeTexts at hclear
  unfold fieldBindings
  rw [h.kind_eq]
  split
  · rename_i hk
    rw [if_pos hk, clear_append_iff] at hclear
    obtain ⟨htype', hnames⟩ := hclear
    generalize n.child? .type = t at htype
    generalize n'.child? .type = t' at htype htype'
    cases htype with
    | none => rfl
    | some ht =>
      have hdeclared : declaratorNames src n = declaratorNames src' n' := by
        simp only [declaratorNames, List.filterMap_eq_flatMap_toList]
        refine flatMap_eq_of_rel (h.childrenOf .declarator) fun hmem hd => ?_
        rw [declaredName?_eq hd (hnames.of_flatMap hmem)]
      simp only [hdeclared, ht.text_eq (htype' _ (by simp))]
  · rfl

theorem visibleFields_eq (h : Commented src src' pos n n') (outer : Bindings)
    (hclear : Clear pos (ownTypeTexts n')) :
    visibleFields src n outer = visibleFields src' n' outer := by
  unfold ownTypeTexts at hclear
  simp only [clear_append_iff] at hclear
  obtain ⟨⟨_, hparams⟩, hfields⟩ := hclear
  have hbody := h.child? .body
  unfold visibleFields
  rw [paramBindings_eq h hparams]
  generalize n.child? .body = body at hbody
  generalize n'.child? .body = body' at hbody hfields
  cases hbody with
  | none => rfl
  | some hb =>
    have hcomment (stop : Nat) : fieldBindings src' (.mk .blockComment none pos stop []) = [] := rfl
    refine congrArg (Bindings.insertAll _) ?_
    refine (membersIn_commented hb.children).flatMap_eq hcomment fun hmem hm => ?_
    rw [Option.toList_some, List.flatMap_singleton] at hfields
    exact fieldBindings_eq hm (hfields.of_flatMap hmem)

/-! ## The header -/

theorem dottedName?_eq (h : CommentedAll src src' pos ns ns')
    (hclear : ∀ c ∈ ns', c.kind = .identifier ∨ c.kind = .scopedIdentifier → ¬ c.Covers pos) :
    dottedName? src ns = dottedName? src' ns' := by
  refine map_eq_of_rel (h.find? (fun k _ => k == .identifier || k == .scopedIdentifier) rfl)
    fun hfound hc => ?_
  have hnamed := List.find?_some hfound
  rw [hc.text_eq (hclear _ (List.mem_of_find?_eq_some hfound) (by simpa using hnamed))]

theorem importOf?_eq (h : Commented src src' pos n n') (hclear : Clear pos (headerTexts n')) :
    importOf? src n = importOf? src' n' := by
  have hcovers {c : Node} (hc : c ∈ n'.children)
      (hk : c.kind = .identifier ∨ c.kind = .scopedIdentifier ∨ c.kind = .token) :
      ¬ c.Covers pos := hclear c (List.mem_filter.mpr ⟨hc, by simpa using hk⟩)
  have hpath : dottedName? src n.children = dottedName? src' n'.children :=
    dottedName?_eq h.children fun c hc hk => hcovers hc (by tauto)
  have hstatic : (n.children.any fun c => c.kind == .token && c.text src == "static") =
      n'.children.any fun c => c.kind == .token && c.text src' == "static" := by
    rw [← List.any_filter, ← List.any_filter]
    refine any_eq_of_rel (h.children.filter (fun k _ => k == .token) rfl) fun hmem hc => ?_
    obtain ⟨hmem, hk⟩ := List.mem_filter.mp hmem
    rw [hc.text_eq (hcovers hmem (by simp_all))]
  have hwildcard : (n.children.any fun c => c.kind == .asterisk) =
      n'.children.any fun c => c.kind == .asterisk :=
    h.children.any_eq (fun k _ => k == .asterisk) rfl
  simp only [importOf?, hpath, hstatic, hwildcard]

theorem clear_headerTexts (hclear : Clear pos (textsRead src' n')) {c : Node} {k : Kind}
    (hk : k = .packageDeclaration ∨ k = .importDeclaration)
    (hc : c ∈ n'.named.filter fun c => c.kind == k) : Clear pos (headerTexts c) := by
  obtain ⟨hmem, hkind⟩ := List.mem_filter.mp hc
  refine (clear_append_iff.mp hclear).1.of_flatMap (List.mem_filter.mpr ⟨hmem, ?_⟩)
  rcases hk with rfl | rfl <;> simp_all

theorem packageOf_eq (h : Commented src src' pos n n') (fallback : String)
    (hclear : Clear pos (textsRead src' n')) :
    packageOf src n fallback = packageOf src' n' fallback := by
  have hlast := rel_getLast? (h.namedOfKind (k := .packageDeclaration) nofun)
  have hheader {c : Node}
      (hc : c ∈ (n'.named.filter fun c => c.kind == .packageDeclaration).getLast?) :
      Clear pos (headerTexts c) := clear_headerTexts hclear (.inl rfl) (List.mem_of_getLast? hc)
  unfold packageOf
  generalize (n.named.filter fun c => c.kind == .packageDeclaration).getLast? = c at *
  generalize (n'.named.filter fun c => c.kind == .packageDeclaration).getLast? = c' at *
  cases hlast with
  | none => rfl
  | some hc =>
    simp only
    rw [dottedName?_eq hc.children.named fun d hd hk => ?_]
    refine hheader rfl d (List.mem_filter.mpr ⟨List.mem_of_mem_filter hd, ?_⟩)
    rcases hk with hk | hk <;> simp [hk]

theorem importsOf_eq (h : Commented src src' pos n n') (hclear : Clear pos (textsRead src' n')) :
    importsOf src n = importsOf src' n' := by
  simp only [importsOf, List.filterMap_eq_flatMap_toList]
  refine flatMap_eq_of_rel (h.namedOfKind (k := .importDeclaration) nofun) fun hmem hc => ?_
  rw [importOf?_eq hc (clear_headerTexts hclear (.inr rfl) hmem)]

end Node

end Java

end CodeAtlas
