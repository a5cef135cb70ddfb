import CodeAtlas.Java.Ending
import CodeAtlas.Proofs.Java.Displaced

/-! # The end of a displaced file

What the end of a file can close depends on the kinds of nodes and on the texts of leaves, so it
is the same wherever these stand.
-/

namespace CodeAtlas.Java

variable {d : Displacement} {src src' : Source} {n n' : Node} {ns ns' : List Node}

section Closing

variable (htext : ∀ {a b a' b'}, d.span a b a' b' → src.text a b = src'.text a' b')

include htext

theorem lexemeText?_displaced : ∀ {n n' : Node}, n.Displaced d n' →
    lexemeText? src n = lexemeText? src' n'
  | .mk _ _ _ _ [], _, .mk _ _ hspan .nil => congrArg some (htext (hspan rfl))
  | .mk _ _ _ _ [c], .mk _ _ _ _ [c'], .mk _ _ _ (.cons hc .nil) => by
    rw [lexemeText?, lexemeText?]
    exact lexemeText?_displaced hc
  | .mk _ _ _ _ (_ :: _ :: _), _, .mk _ _ _ (.cons _ (.cons _ _)) => rfl

theorem isToken_displaced (text : String) (h : n.Displaced d n') :
    isToken src text n = isToken src' text n' := by
  have hn := lexemeText?_displaced htext h
  obtain ⟨_, _, _, _⟩ := h
  rw [isToken, isToken, hn]
  rfl

theorem endsInToken_displaced (text : String) (h : List.Forall₂ (Node.Displaced d) ns ns') :
    endsInToken src text ns = endsInToken src' text ns' := by
  rw [endsInToken, endsInToken,
    map_eq_of_rel (rel_getLast? h) fun _ hn => isToken_displaced htext text hn]

omit htext in
theorem endsInKind_displaced (kinds : List Kind) (h : List.Forall₂ (Node.Displaced d) ns ns') :
    endsInKind kinds ns = endsInKind kinds ns' := by
  have hlast : ns.getLast?.map (fun n => kinds.contains n.kind) =
      ns'.getLast?.map fun n => kinds.contains n.kind := by
    refine map_eq_of_rel (rel_getLast? h) fun _ hn => ?_
    cases hn
    rfl
  rw [endsInKind, endsInKind, hlast]

theorem statementFits_displaced (h : List.Forall₂ (Node.Displaced d) ns ns') :
    statementFits src ns = statementFits src' ns' := by
  have hhead : ns.head?.bind (lexemeText? src) = ns'.head?.bind (lexemeText? src') := by
    have hn := rel_head? h
    generalize ns.head? = n at *
    generalize ns'.head? = n' at *
    cases hn with
    | none => rfl
    | some hn => exact lexemeText?_displaced htext hn
  have hkind : ((ns.drop 1).any fun n => n.kind == .statement || isToken src "finally" n) =
      (ns'.drop 1).any fun n => n.kind == .statement || isToken src' "finally" n :=
    any_eq_of_rel (List.forall₂_drop 1 h) fun _ hn => by
      rw [isToken_displaced htext "finally" hn]
      cases hn
      rfl
  have hparen : ns.any (isToken src ")") = ns'.any (isToken src' ")") :=
    any_eq_of_rel h fun _ hn => isToken_displaced htext ")" hn
  simp only [statementFits, hhead, hkind, hparen, endsInKind_displaced _ h,
    endsInToken_displaced htext _ h]

theorem endingFits_displaced (k : Kind) (h : List.Forall₂ (Node.Displaced d) ns ns') :
    endingFits src k ns = endingFits src' k ns' := by
  have hparen : ns.any (isToken src ")") = ns'.any (isToken src' ")") :=
    any_eq_of_rel h fun _ hn => isToken_displaced htext ")" hn
  simp only [endingFits, endsInKind_displaced _ h, endsInToken_displaced htext _ h, hparen,
    statementFits_displaced htext h]

mutual

theorem closable_displaced : ∀ {n n' : Node}, n.Displaced d n' →
    closable src n = closable src' n'
  | .mk k r a b cs, .mk _ _ a' b' cs', .mk _ _ _ hcs => by
    rw [closable, closable, endingFits_displaced htext k hcs, lastClosable_displaced k hcs]

theorem lastClosable_displaced (k : Kind) : ∀ {ns ns' : List Node},
    List.Forall₂ (Node.Displaced d) ns ns' → lastClosable src k ns = lastClosable src' k ns'
  | [], [], .nil => rfl
  | [.mk l r a b cs], [.mk _ _ a' b' cs'], .cons (.mk ha hb hspan hcs) .nil => by
    have hempty : cs.isEmpty = cs'.isEmpty := by cases hcs <;> rfl
    rw [lastClosable, lastClosable, hempty, closable_displaced (.mk ha hb hspan hcs)]
    split
    · rename_i hleaf
      have hnil : cs = [] := by simp_all
      rw [htext (hspan hnil)]
    · rfl
  | .mk .. :: m :: ms, .mk .. :: m' :: ms', .cons _ (.cons hm hms) => by
    have hlast := lastClosable_displaced k (.cons hm hms)
    simpa only [lastClosable] using hlast

end

end Closing

mutual

theorem finishedParts_displaced : ∀ {n n' : Node}, n.Displaced d n' →
    List.Forall₂ (Node.Displaced d) (finishedParts n) (finishedParts n')
  | .mk _ _ _ _ [], .mk _ _ _ _ [], .mk ha hb hspan .nil => .cons (.mk ha hb hspan .nil) .nil
  | .mk _ _ _ _ (_ :: _), .mk _ _ _ _ (_ :: _), .mk _ _ _ (.cons hc hcs) => by
    rw [finishedParts, finishedParts]
    exact finishedIn_displaced (.cons hc hcs)

theorem finishedIn_displaced : ∀ {ns ns' : List Node}, List.Forall₂ (Node.Displaced d) ns ns' →
    List.Forall₂ (Node.Displaced d) (finishedIn ns) (finishedIn ns')
  | [], [], .nil => .nil
  | [_], [_], .cons hn .nil => by
    rw [finishedIn, finishedIn]
    exact finishedParts_displaced hn
  | .mk .. :: m :: ms, .mk .. :: m' :: ms', .cons hn (.cons hm hms) => by
    have hlater := finishedIn_displaced (.cons hm hms)
    simpa only [finishedIn] using List.Forall₂.cons hn hlater

end

mutual

theorem finishedParts_ne_nil : ∀ n : Node, finishedParts n ≠ []
  | .mk _ _ _ _ [] => by simp [finishedParts]
  | .mk _ _ _ _ (c :: cs) => by
    rw [finishedParts]
    exact finishedIn_ne_nil c cs

theorem finishedIn_ne_nil : ∀ (n : Node) (ns : List Node), finishedIn (n :: ns) ≠ []
  | n, [] => by
    rw [finishedIn]
    exact finishedParts_ne_nil n
  | .mk .., _ :: _ => by simp [finishedIn]

end

theorem settleEnd_displaced
    (htext : ∀ {a b a' b'}, d.span a b a' b' → src.text a b = src'.text a' b') :
    ∀ {ns ns' : List Node}, List.Forall₂ (Node.Displaced d) ns ns' →
      List.Forall₂ (Node.Displaced d) (settleEnd src ns) (settleEnd src' ns')
  | [], [], .nil => .nil
  | [n], [n'], .cons hn .nil => by
    rw [settleEnd, settleEnd, closable_displaced htext hn]
    split
    · exact .cons hn .nil
    · have hparts := finishedParts_displaced hn
      obtain ⟨ha, hb, _, _⟩ := hn
      exact .cons (.mk ha hb (fun hnil => absurd hnil (finishedParts_ne_nil _)) hparts) .nil
  | .mk .. :: m :: ms, .mk .. :: m' :: ms', .cons hn (.cons hm hms) => by
    have hlater := settleEnd_displaced htext (.cons hm hms)
    simpa only [settleEnd] using List.Forall₂.cons hn hlater

end CodeAtlas.Java
