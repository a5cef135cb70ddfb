import CodeAtlas.Java.Grammar.Declarations
import CodeAtlas.Proofs.Java.Displaced

/-! # The grammar reads displaced lexemes alike

Every rule of the grammar reads lexemes alike wherever they stand, when the goals that it refers
to do. By induction on how deep the goals are nested, all of them do.
-/

namespace CodeAtlas.Java

open Rule

variable {d : Displacement}

/-! ## Looking ahead -/

section Lookahead

/-- What is found out about lexemes without regard to their places. -/
abbrev BlindTo {β : Type} (d : Displacement) (p : List Lexeme → β) : Prop :=
  Blind (List.Forall₂ (Lexeme.Displaced d)) p

instance : Blind (Lexeme.Displaced d) isName := ⟨fun h => by cases h; rfl⟩

instance : Blind (Lexeme.Displaced d) isMemberName := ⟨fun h => by cases h; rfl⟩

instance : Blind (Lexeme.Displaced d) isPrimitive := ⟨fun h => by cases h; rfl⟩

instance : Blind (Lexeme.Displaced d) startsOperand := ⟨fun h => by cases h; rfl⟩

instance (text : String) : Blind (Lexeme.Displaced d) fun l => l.isMark text :=
  ⟨fun h => by cases h; rfl⟩

instance (i : Nat) : BlindTo d fun ls => textAt ls i where
  eq {ls ls'} h := by
    have hl := rel_getElem? h i
    unfold textAt
    generalize ls[i]? = l at *
    generalize ls'[i]? = l' at *
    cases hl with
    | none => rfl
    | some hl =>
      cases hl
      rfl

instance (text : String) (i : Nat) : BlindTo d (tokenAt text i) := by
  unfold tokenAt
  infer_instance

instance (i : Nat) : BlindTo d (nameAt i) := by
  unfold nameAt
  infer_instance

instance (i : Nat) : BlindTo d (wordAt i) := by
  unfold wordAt
  infer_instance

instance (texts : List String) (i : Nat) : BlindTo d (anyTokenAt texts i) := by
  unfold anyTokenAt
  infer_instance

instance (bytes i : Nat) : BlindTo d (longWordAt bytes i) where
  eq {ls ls'} h := by
    have hl := rel_getElem? h i
    unfold longWordAt
    generalize ls[i]? = l at *
    generalize ls'[i]? = l' at *
    cases hl with
    | none => rfl
    | some hl =>
      cases hl
      rfl

instance (depth braces : Nat) : BlindTo d (arrowAfterParens depth braces) where
  eq h := by
    induction h generalizing depth braces with
    | nil => rfl
    | cons hl hls ih =>
      cases hl
      simp only [arrowAfterParens, ih, Blind.eq (p := tokenAt "->" 0) hls]

instance (stops : List String) (braces : Nat) : BlindTo d (lengthUpTo stops braces) where
  eq h := by
    induction h generalizing braces with
    | nil => rfl
    | cons hl hls ih =>
      have hstop := Blind.eq (p := anyTokenAt stops 0) (List.Forall₂.cons hl .nil)
      cases hl
      simp only [lengthUpTo, ih, hstop]
      rfl

instance : BlindTo d sealedAhead := by
  unfold sealedAhead
  infer_instance

instance (words : List String) : BlindTo d (introduces words) := by
  unfold introduces
  infer_instance

instance : BlindTo d recordAhead := by
  unfold recordAhead
  infer_instance

instance : BlindTo d wildcardBefore := by
  unfold wildcardBefore
  infer_instance

instance (depth questions : Nat) : BlindTo d (labelLength? depth questions) where
  eq h := by
    induction h generalizing depth questions with
    | nil => rfl
    | cons hl hls ih =>
      cases hl
      simp only [labelLength?, ih, Blind.eq (p := wildcardBefore) hls]

instance (text : String) : BlindTo d (labelEndsIn text) where
  eq h := by
    unfold labelEndsIn
    rw [Blind.eq (p := labelLength? 0 0) h]
    split
    · exact Blind.eq h
    · rfl

instance : BlindTo d strayBeforeGuard := by
  unfold strayBeforeGuard
  infer_instance

instance : BlindTo d typeAhead := by
  unfold typeAhead
  infer_instance

instance (depth angles : Nat) : BlindTo d (opensArguments.hasComma depth angles) where
  eq h := by
    induction h generalizing depth angles with
    | nil => rfl
    | cons hl hls ih =>
      cases hl
      simp only [opensArguments.hasComma, ih]
      rfl

instance : BlindTo d opensArguments := by
  unfold opensArguments
  infer_instance

instance : BlindTo d yieldAhead := by
  unfold yieldAhead
  infer_instance

instance (depth : Nat) : BlindTo d (openAnnotationAhead.unclosed depth) where
  eq h := by
    induction h generalizing depth with
    | nil => rfl
    | cons hl hls ih =>
      cases hl
      simp only [openAnnotationAhead.unclosed, ih]
      rfl

instance : BlindTo d openAnnotationAhead := by
  unfold openAnnotationAhead
  infer_instance

instance : BlindTo d endsDeclarator := by
  unfold endsDeclarator
  infer_instance

instance : BlindTo d startsMember where
  eq h := by
    cases h with
    | nil => rfl
    | cons hl _ =>
      cases hl
      rfl

instance (p : Lexeme → Bool) [Blind (Lexeme.Displaced d) p] :
    BlindTo d fun ls => (ls.takeWhile p).length where
  eq h := by
    induction h with
    | nil => rfl
    | cons hl hls ih =>
      rw [List.takeWhile_cons, List.takeWhile_cons, Blind.eq (p := p) hl]
      split
      · simpa using ih
      · rfl

instance : BlindTo d lengthToSemicolon where
  eq h := by
    have hrun := Blind.eq (p := fun ls => (ls.takeWhile fun l =>
      !([";", "(", ")", "[", "]", "\x7b", "\x7d", "."].any l.isMark)).length) h
    simp only [lengthToSemicolon, hrun, Blind.eq (p := tokenAt ";" _) h]

instance : BlindTo d loneWordAhead := by
  unfold loneWordAhead
  infer_instance

instance : BlindTo d List.isEmpty := ⟨fun h => by cases h <;> rfl⟩

instance (p : List Lexeme → Nat) [BlindTo d p] (n : Nat) : BlindTo d fun ls => n + p ls :=
  ⟨fun h => by rw [Blind.eq (p := p) h]⟩

end Lookahead

/-! ## Types and annotations -/

variable {g : Grammar} [∀ goal, Movable d (g goal)]

instance : Movable d name := inferInstanceAs (Movable d (Rule.lexeme _ _))

instance : Movable d anyWord := by unfold anyWord; infer_instance

instance : Movable d (typeArgument g) := by unfold typeArgument; infer_instance

instance : Movable d (typeArguments g) := by unfold typeArguments; infer_instance

instance : Movable d (plainType g) := by unfold plainType; infer_instance

instance : Movable d (dimensions g) := by unfold dimensions; infer_instance

instance : Movable d (typeRule g) := by unfold typeRule; infer_instance

/-- A word alone is taken out of the name around it at either place. -/
instance (first : Rule) [Movable d first] : Movable d (dotted first) where
  reads h := by
    unfold dotted
    rcases Alike.cases (node .scopedIdentifier (seq [first, many (seq [token ".", anyWord])]))
      (node .scopedIdentifier (seq [first, many (seq [token ".", anyWord])])) h with
      ⟨hr, hr'⟩ | ⟨xs, c₁, xs', c₁', hr, hr', hxs, h₁⟩
    · rw [hr, hr']
      exact .none
    rw [hr, hr']
    rcases hxs with _ | ⟨⟨hstart, hstop, hspan, hcs⟩, hrest⟩
    · exact .some ⟨.nil, h₁⟩
    rcases hcs with _ | ⟨hc, _ | ⟨hc', hcs⟩⟩
    · exact .some ⟨.cons (.mk hstart hstop hspan .nil) hrest, h₁⟩
    · rcases hrest with _ | ⟨hy, hys⟩
      · exact .some ⟨.cons hc .nil, h₁⟩
      · exact .some ⟨.cons (.mk hstart hstop hspan (.cons hc .nil)) (.cons hy hys), h₁⟩
    · exact .some ⟨.cons (.mk hstart hstop hspan (.cons hc (.cons hc' hcs))) hrest, h₁⟩

instance : Movable d dottedName := by unfold dottedName; infer_instance

instance (fuel : Nat) : Movable d (elementValue g fuel) := by
  induction fuel with
  | zero => exact ⟨fun _ => .none⟩
  | succ fuel ih => unfold elementValue; infer_instance

instance : Movable d (boundedElementValue g) where
  reads h := by
    simp only [boundedElementValue, h.left]
    exact Alike.reads h

instance : Movable d (elementPair g) := by unfold elementPair; infer_instance

instance : Movable d (annotationArguments g) := by unfold annotationArguments; infer_instance

instance : Movable d (annotationRule g) := by unfold annotationRule; infer_instance

instance : Movable d modifierWord := by unfold modifierWord; infer_instance

instance (word : Rule) [Movable d word] : Movable d (modifiersWith g word) := by
  unfold modifiersWith; infer_instance

instance : Movable d (modifiers g) := by unfold modifiers; infer_instance

instance : Movable d (memberModifiers g) := by unfold memberModifiers; infer_instance

instance : Movable d (typeParameter g) := by unfold typeParameter; infer_instance

instance : Movable d (typeParameters g) := by unfold typeParameters; infer_instance

/-! ## Expressions -/

instance (texts : List String) : Movable d (operator texts) := by unfold operator; infer_instance

instance : Movable d closingAngles := by unfold closingAngles; infer_instance

instance : Movable d (argumentList g) := by unfold argumentList; infer_instance

instance (fuel : Nat) : Movable d (arrayInitializer g fuel) := by
  induction fuel with
  | zero => exact ⟨fun _ => .none⟩
  | succ fuel ih => unfold arrayInitializer; infer_instance

instance : Movable d (boundedArrayInitializer g) where
  reads h := by
    simp only [boundedArrayInitializer, h.left]
    exact Alike.reads h

instance : Movable d (variableValue g) := by unfold variableValue; infer_instance

instance : Movable d (embedded g) := by unfold embedded; infer_instance

instance : Movable d (stringLiteral g) := by unfold stringLiteral; infer_instance

instance : Movable d (literal g) := by unfold literal; infer_instance

instance : Movable d thisWord := by unfold thisWord; infer_instance

instance : Movable d superWord := by unfold superWord; infer_instance

instance : Movable d (constructorCall g) := by unfold constructorCall; infer_instance

instance : Movable d (bareCall g) := by unfold bareCall; infer_instance

theorem Alike.bind {r r' : Rule} [Alike d r r'] {k k' : List Node → Rule}
    (hk : ∀ {xs xs'}, List.Forall₂ (Node.Displaced d) xs xs' → Alike d (k xs) (k' xs')) :
    Alike d
      (fun c => match r c with
        | none => none
        | some (xs, c₁) => k xs c₁)
      (fun c => match r' c with
        | none => none
        | some (xs, c₁) => k' xs c₁) where
  reads h := by
    rcases Alike.cases r r' h with ⟨hr, hr'⟩ | ⟨xs, c₁, xs', c₁', hr, hr', hxs, h₁⟩
    · simp only [hr, hr']
      exact .none
    · simp only [hr, hr']
      exact (hk hxs).reads h₁

/-- A rule that goes on with the nodes it has read, where there are any, and in another way
where there are none. -/
theorem Alike.either {r r' e e' : Rule} [Alike d r r'] [Alike d e e'] {k k' : List Node → Rule}
    (hk : ∀ {xs xs'}, List.Forall₂ (Node.Displaced d) xs xs' → Alike d (k xs) (k' xs')) :
    Alike d
      (fun c => match r c with
        | some (xs, c₁) => k xs c₁
        | none => e c)
      (fun c => match r' c with
        | some (xs, c₁) => k' xs c₁
        | none => e' c) where
  reads h := by
    rcases Alike.cases r r' h with ⟨hr, hr'⟩ | ⟨xs, c₁, xs', c₁', hr, hr', hxs, h₁⟩
    · simp only [hr, hr']
      exact Alike.reads h
    · simp only [hr, hr']
      exact (hk hxs).reads h₁

theorem alike_creation {left left' : List Node} (h : List.Forall₂ (Node.Displaced d) left left') :
    Alike d (creation g left) (creation g left') := by
  unfold creation
  refine Alike.bind fun {xs xs'} hxs => ?_
  have hopened := Alike.of_nodes (List.rel_append h hxs)
  refine ⟨fun {c c'} hc => ?_⟩
  simp only [Blind.eq (p := fun ls => tokenAt "[" 0 ls || tokenAt "@" 0 ls) hc.rest]
  split
  · exact Alike.reads hc
  · exact Alike.reads hc

instance : Movable d (creation g []) := alike_creation .nil

instance : Movable d (lambdaParameter g) := by unfold lambdaParameter; infer_instance

instance : Movable d (lambdaBody g) := by unfold lambdaBody; infer_instance

instance : Movable d (lambda g) := by unfold lambda; infer_instance

/-- Whether a cast goes on depends on the operand behind it and the type in it. -/
instance : Movable d (cast g) where
  reads {c c'} h := by
    have hprimitive := Blind.eq (p := fun ls => (ls[1]?.map isPrimitive) == some true) h.rest
    simp only [cast, hprimitive]
    rcases Alike.cases (seq [token "(", separated "&" (inRole .type (g .type)), token ")"])
      (seq [token "(", separated "&" (inRole .type (g .type)), token ")"]) h with
      ⟨hr, hr'⟩ | ⟨xs, c₁, xs', c₁', hr, hr', hxs, h₁⟩
    · rw [hr, hr']
      exact .none
    rw [hr, hr']
    have htyped := Alike.of_nodes hxs
    have hcast : Alike d (node .cast (seq [fun c => some (xs, c), inRole .value (g .operand)]))
        (node .cast (seq [fun c => some (xs', c), inRole .value (g .operand)])) := inferInstance
    have hrest := h₁.rest
    dsimp only
    generalize c₁.rest = ls at hrest ⊢
    generalize c₁'.rest = ls' at hrest ⊢
    rcases hrest with _ | ⟨hl, _⟩
    · exact .none
    · simp only [Blind.eq (p := startsOperand) hl, Blind.eq (p := Lexeme.text) hl]
      split
      · exact hcast.reads h₁
      · exact .none

instance : Movable d (parenthesized g) := by unfold parenthesized; infer_instance

instance : Movable d (labelItem g) := by unfold labelItem; infer_instance

instance : Movable d (labelItems g) := by unfold labelItems; infer_instance

instance : Movable d (caseItems g) where
  reads h := by
    unfold caseItems
    rw [Blind.eq (p := labelLength? 0 0) h.rest]
    split
    · exact Alike.reads h
    · exact Alike.reads h

instance : Movable d (switchLabel g) := by unfold switchLabel; infer_instance

instance : Movable d annotatedLabel := by unfold annotatedLabel; infer_instance

instance : Movable d (misplacedLabel g) where
  reads {c c'} h := by
    have hlabel := Blind.eq (p := fun ls => labelLength? 0 0 (ls.drop 1)) h.rest
    have hcase := Blind.eq (p := tokenAt "case" 0) h.rest
    simp only [misplacedLabel, hlabel, hcase]
    split
    · rename_i n _
      have harrow := Blind.eq (p := fun ls => tokenAt "->" n (ls.drop 1)) h.rest
      rw [harrow]
      split
      · have hwithin : Cursor.Displaced d ⟨(c.rest.drop 1).take n, n, c.last⟩
            ⟨(c'.rest.drop 1).take n, n, c'.last⟩ :=
          ⟨List.forall₂_take n (List.forall₂_drop 1 h.rest), rfl, h.last⟩
        rcases Alike.cases (g .expression) (g .expression) hwithin with
          ⟨hr, hr'⟩ | ⟨xs, c₁, xs', c₁', hr, hr', hxs, ⟨hrest, hleft, hlast⟩⟩
        · rw [hr, hr']
          exact .none
        rw [hr, hr']
        have hapart : Movable d (setApart fun ls => 1 + lengthUpTo [";"] 0 (ls.drop 1)) :=
          inferInstance
        obtain ⟨rest, left, last⟩ := c₁
        obtain ⟨rest', left', last'⟩ := c₁'
        split
        · rename_i heq
          cases heq
          cases hrest
          rcases hxs with _ | ⟨⟨_, _, _, _⟩, ⟨⟩⟩
          exact hapart.reads h
        · rename_i hne
          split
          · rename_i heq
            cases heq
            cases hrest
            rcases hxs with _ | ⟨⟨_, _, _, _⟩, ⟨⟩⟩
            exact absurd rfl (hne _ _ _ _ _ _)
          · exact .none
      · exact .none
    · exact .none

instance : Movable d (switchBlock g) where
  reads {c c'} h := by
    simp only [switchBlock, Blind.eq (p := fun ls => labelEndsIn ":" (ls.drop 2)) h.rest]
    split
    · exact Alike.reads h
    · exact Alike.reads h

instance : Movable d (switchRule g) := by unfold switchRule; infer_instance

instance : Movable d (typeExpression g) := by
  unfold typeExpression
  refine Alike.bind fun {xs xs'} hxs => ?_
  have htyped := Alike.of_nodes hxs
  dsimp only
  infer_instance

instance : Movable d (primary g) := by unfold primary; infer_instance

instance : Movable d points := by unfold points; infer_instance

theorem alike_suffix {left left' : List Node} (h : List.Forall₂ (Node.Displaced d) left left') :
    Alike d (suffix g left) (suffix g left') := by
  have hplain := Alike.of_nodes h
  have hobject := Alike.of_nodes (map_withRole_displaced h .object)
  have hqualified : Alike d
      (fun c => match token "." c with
        | some (dot, c₁) => creation g (left ++ dot) c₁
        | none => none)
      (fun c => match token "." c with
        | some (dot, c₁) => creation g (left' ++ dot) c₁
        | none => none) := by
    have hnone : Movable d fun _ => none := ⟨fun _ => .none⟩
    exact Alike.either fun hdot => alike_creation (List.rel_append h hdot)
  refine .firstOf ?_
  simp only [List.forall₂_cons]
  and_intros <;> first | infer_instance | exact .nil

theorem alike_suffixes {left left' : List Node} (h : List.Forall₂ (Node.Displaced d) left left')
    (fuel : Nat) : Alike d (suffixes g left fuel) (suffixes g left' fuel) := by
  induction fuel generalizing left left' with
  | zero => exact .of_nodes h
  | succ fuel ih =>
    have hsuffix := alike_suffix (g := g) h
    have hplain := Alike.of_nodes h
    exact Alike.either fun hlonger => ih hlonger

instance : Movable d (operandRule g) := by
  have hnone : Movable d fun _ => none := ⟨fun _ => .none⟩
  have hoperand : Movable d fun c => match primary g c with
      | some (left, c₁) => suffixes g left c₁.left c₁
      | none => none := Alike.either fun hleft => ⟨fun {c c'} h => by
    rw [h.left]
    exact (alike_suffixes hleft c'.left).reads h⟩
  unfold operandRule
  refine Alike.either fun {sign sign'} hsign => ?_
  have hsigned := Alike.of_nodes hsign
  infer_instance

instance : Movable d (operandTail g) := by unfold operandTail; infer_instance

instance : Movable d (expressionRule g) := by
  unfold expressionRule
  refine Alike.bind fun {left left'} hleft => ⟨fun h => ?_⟩
  rcases Alike.cases (many (operandTail g)) (many (operandTail g)) h with
    ⟨hr, hr'⟩ | ⟨tail, c₂, tail', c₂', hr, hr', htail, h₂⟩
  · rw [hr, hr']
    exact .some ⟨hleft, h⟩
  rw [hr, hr']
  have hrow := Alike.of_nodes (List.rel_append hleft htail)
  have hnode : Alike d (node .operation fun c => some (left ++ tail, c))
      (node .operation fun c => some (left' ++ tail', c)) := inferInstance
  cases htail with
  | nil => exact .some ⟨hleft, h₂⟩
  | cons _ _ => exact hnode.reads h₂

instance : Movable d (componentPattern g) := by unfold componentPattern; infer_instance

instance : Movable d (patternRule g) := by unfold patternRule; infer_instance

/-! ## Statements -/

instance : Movable d (declarator g) := by unfold declarator; infer_instance

instance : Movable d (declarators g) := by unfold declarators; infer_instance

instance : Movable d (localVariables g) := by unfold localVariables; infer_instance

instance : Movable d (blockRule g) := by unfold blockRule; infer_instance

instance : Movable d (condition g) := by unfold condition; infer_instance

instance : Movable d (substatement g) := by unfold substatement; infer_instance

instance : Movable d (ifStatement g) := by unfold ifStatement; infer_instance

instance : Movable d (whileStatement g) := by unfold whileStatement; infer_instance

instance : Movable d (doStatement g) := by unfold doStatement; infer_instance

instance : Movable d (enhancedFor g) := by unfold enhancedFor; infer_instance

instance : Movable d (expressions g) := by unfold expressions; infer_instance

instance : Movable d (forStatement g) := by unfold forStatement; infer_instance

instance : Movable d (resource g) := by unfold resource; infer_instance

instance : Movable d (resources g) := by unfold resources; infer_instance

instance : Movable d (catchParameter g) := by unfold catchParameter; infer_instance

instance : Movable d (catchClause g) := by unfold catchClause; infer_instance

instance : Movable d (tryStatement g) := by unfold tryStatement; infer_instance

instance : Movable d (wordStatement g) := by unfold wordStatement; infer_instance

instance : Movable d (statementRule g) := by unfold statementRule; infer_instance

/-! ## Declarations -/

instance : Movable d (receiverParameter g) := by unfold receiverParameter; infer_instance

instance : Movable d parameterName := by unfold parameterName; infer_instance

instance : Movable d (spreadTail g) := by unfold spreadTail; infer_instance

instance : Movable d (markedPoints g) := by unfold markedPoints; infer_instance

instance : Movable d (spreadParameter g) := by unfold spreadParameter; infer_instance

instance : Movable d (markedSpreadParameter g) := by unfold markedSpreadParameter; infer_instance

instance : Movable d (formalParameter g) := by unfold formalParameter; infer_instance

instance : Movable d (parameter g) := by unfold parameter; infer_instance

instance : Movable d (formalParameters g) := by unfold formalParameters; infer_instance

instance : Movable d (throws g) := by unfold throws; infer_instance

instance : Movable d (bodyOrEnd g) := by unfold bodyOrEnd; infer_instance

instance : Movable d strayNumber := by unfold strayNumber; infer_instance

instance (before : List String) : Movable d (strayWord before) := by
  unfold strayWord; infer_instance

instance : Movable d (openType g) := by unfold openType; infer_instance

instance : Movable d (memberType g) := by unfold memberType; infer_instance

instance : Movable d methodName := by unfold methodName; infer_instance

instance : Movable d (methodDeclaration g) := by unfold methodDeclaration; infer_instance

instance : Movable d (namelessMethod g) := by unfold namelessMethod; infer_instance

instance : Movable d constructorName := by unfold constructorName; infer_instance

instance : Movable d (constructorDeclaration g) := by unfold constructorDeclaration; infer_instance

instance : Movable d (compactConstructor g) := by unfold compactConstructor; infer_instance

instance : Movable d (fieldDeclarator g) := by unfold fieldDeclarator; infer_instance

instance : Movable d (namelessDeclarator g) := by unfold namelessDeclarator; infer_instance

instance : Movable d fieldEnd := by unfold fieldEnd; infer_instance

instance (kind : Kind) : Movable d (fieldDeclaration g kind) := by
  simp only [fieldDeclaration]; infer_instance

instance (kind : Kind) : Movable d (namelessField g kind) := by unfold namelessField; infer_instance

instance : Movable d (annotationElement g) := by unfold annotationElement; infer_instance

instance : Movable d (brokenRecord g) := by unfold brokenRecord; infer_instance

instance : Movable d (initializer g) := by unfold initializer; infer_instance

instance : Movable d (classMember g) := by unfold classMember; infer_instance

instance : Movable d (interfaceMember g) := by unfold interfaceMember; infer_instance

instance : Movable d (nestedType g) where
  reads h := by
    unfold nestedType
    rcases Alike.cases (g .typeDeclaration) (g .typeDeclaration) h with
      ⟨hr, hr'⟩ | ⟨xs, c₁, xs', c₁', hr, hr', hxs, h₁⟩
    · rw [hr, hr']
      exact .none
    rw [hr, hr']
    split
    · rename_i heq
      cases heq
      rcases hxs with _ | ⟨⟨_, _, _, _⟩, ⟨⟩⟩
      exact .none
    · rename_i hne
      split
      · rename_i heq
        cases heq
        rcases hxs with _ | ⟨⟨_, _, _, _⟩, ⟨⟩⟩
        exact absurd rfl (hne _ _ _ _ _)
      · exact .some ⟨hxs, h₁⟩

instance : Movable d (annotationMember g) := by unfold annotationMember; infer_instance

instance (member : Rule) [Movable d member] : Movable d (members g member) := by
  unfold members; infer_instance

instance (kind : Kind) (member : Rule) [Movable d member] : Movable d (bodyOf g kind member) := by
  unfold bodyOf; infer_instance

instance : Movable d (classBodyRule g) := by unfold classBodyRule; infer_instance

instance : Movable d (enumConstant g) := by unfold enumConstant; infer_instance

instance : Movable d (enumBody g) := by unfold enumBody; infer_instance

instance (kind : Kind) (word : String) : Movable d (typeList g kind word) := by
  unfold typeList; infer_instance

instance : Movable d (classClauses g) := by unfold classClauses; infer_instance

instance : Movable d (interfaceClauses g) := by unfold interfaceClauses; infer_instance

instance : Movable d (recordClauses g) := by unfold recordClauses; infer_instance

instance : Movable d typeName := by unfold typeName; infer_instance

instance : Movable d (typeDeclarationRule g) := by
  unfold typeDeclarationRule
  refine Alike.bind fun {before before'} hbefore => ?_
  have hopened := Alike.of_nodes hbefore
  dsimp only
  infer_instance

instance : Movable d (packageDeclaration g) := by unfold packageDeclaration; infer_instance

instance : Movable d importDeclaration := by unfold importDeclaration; infer_instance

instance : Movable d operatorRow := by simp only [operatorRow]; infer_instance

instance : Movable d (unitItem g) := by unfold unitItem; infer_instance

/-! ## All goals -/

instance (goal : Goal) : Movable d (grammarStep g goal) := by
  cases goal <;> (simp only [grammarStep]; infer_instance)

instance (fuel : Nat) (goal : Goal) : Movable d (grammar fuel goal) := by
  induction fuel generalizing goal with
  | zero => exact ⟨fun _ => .none⟩
  | succ fuel ih => exact inferInstanceAs (Movable d (grammarStep (grammar fuel) goal))

theorem unitItems_displaced {ls ls' : List Lexeme} (h : List.Forall₂ (Lexeme.Displaced d) ls ls')
    (hfirst : d.pos 0 0) : List.Forall₂ (Node.Displaced d) (unitItems ls) (unitItems ls') := by
  have hcursor : (Cursor.ofLexemes ls).Displaced d (Cursor.ofLexemes ls') :=
    ⟨h, h.length_eq, hfirst⟩
  unfold unitItems
  rw [h.length_eq]
  rcases Alike.cases (many (unitItem (grammar (5 * ls'.length + 5))))
    (many (unitItem (grammar (5 * ls'.length + 5)))) hcursor with
    ⟨hr, hr'⟩ | ⟨items, c₁, items', c₁', hr, hr', hitems, _⟩
  · rw [hr, hr']
    exact .nil
  · rw [hr, hr']
    exact hitems

end CodeAtlas.Java
