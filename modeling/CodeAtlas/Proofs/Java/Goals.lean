import CodeAtlas.Java.Grammar.Declarations
import CodeAtlas.Proofs.Java.Rules

/-! # The grammar keeps the order of the text

Every rule of the grammar lays out its nodes in order, when the goals that it refers to do.
By induction on how deep the goals are nested, all of them do.
-/

namespace CodeAtlas.Java

open Rule

/-- A rule that reads nodes in order, each fit for its role. -/
abbrev Orderly (W : Nat → Nat → Prop) (r : Rule) : Prop := Keeps W (Node.Fits W) r

variable {W : Nat → Nat → Prop} {g : Grammar} [∀ goal, Orderly W (g goal)] {lo mid : Nat}
  {left : List Node}

/-! ## Words -/

instance : Orderly W name := inferInstanceAs (Orderly W (Rule.lexeme _ _))

instance : Orderly W anyWord := inferInstanceAs (Orderly W (Rule.lexeme _ _))

instance : Keeps W (Node.IsWord W) name := .word fun l hl => by
  simp only [isName, Bool.and_eq_true, beq_iff_eq] at hl
  exact hl.1

instance : Keeps W (Node.IsWord W) anyWord := .word fun l hl => by simpa using hl

/-! ## Types and annotations -/

instance : Orderly W (typeArgument g) := by unfold typeArgument; infer_instance

instance : Orderly W (typeArguments g) := by unfold typeArguments; infer_instance

instance : Orderly W (plainType g) := by unfold plainType; infer_instance

instance : Orderly W (dimensions g) := by unfold dimensions; infer_instance

instance : Orderly W (typeRule g) := by unfold typeRule; infer_instance

instance (first : Rule) [Orderly W first] : Orderly W (dotted first) where
  reads hc hr := by
    unfold dotted at hr
    split at hr
    · rename_i only c₁ hnode
      cases hr
      unfold Rule.node at hnode
      split at hnode
      · cases hnode
      · rename_i hwords
        cases hnode
        exact Keeps.reads hc hwords
    · exact Keeps.reads hc hr

instance : Orderly W dottedName := by unfold dottedName; infer_instance

instance (fuel : Nat) : Orderly W (elementValue g fuel) := by
  induction fuel with
  | zero => exact ⟨fun _ hr => by cases hr⟩
  | succ fuel ih => unfold elementValue; infer_instance

instance : Orderly W (boundedElementValue g) where
  reads {_ c _ _} hc hr := Keeps.reads (r := elementValue g (c.left + 1)) hc hr

instance : Orderly W (elementPair g) := by unfold elementPair; infer_instance

instance : Orderly W (annotationArguments g) := by unfold annotationArguments; infer_instance

/-- The name of an annotation need not be a word, and is none of a declaration. -/
instance : Orderly W (annotationRule g) := by
  have any (r : Rule) [h : Orderly W r] : Keeps W (fun _ => True) r := h.mono fun _ _ => trivial
  have hat := any (token "@")
  have hname : Keeps W (fun _ => True) (inRole .name (dotted anyWord)) :=
    (any (dotted anyWord)).inRole fun _ _ => trivial
  have harguments := any (optional (inRole .arguments (annotationArguments g)))
  exact Keeps.node (T := fun _ => True) inferInstance nofun fun _ _ _ => fits_of_role_none

instance : Orderly W modifierWord := by unfold modifierWord; infer_instance

instance (word : Rule) [Orderly W word] : Orderly W (modifiersWith g word) := by
  unfold modifiersWith; infer_instance

instance : Orderly W (modifiers g) := by unfold modifiers; infer_instance

instance : Orderly W (memberModifiers g) := by unfold memberModifiers; infer_instance

instance : Orderly W (typeParameter g) := by unfold typeParameter; infer_instance

instance : Orderly W (typeParameters g) := by unfold typeParameters; infer_instance

/-! ## Expressions -/

instance (texts : List String) : Orderly W (operator texts) :=
  inferInstanceAs (Orderly W (Rule.lexeme _ _))

instance : Orderly W closingAngles := by unfold closingAngles; infer_instance

instance : Orderly W (argumentList g) := by unfold argumentList; infer_instance

instance (fuel : Nat) : Orderly W (arrayInitializer g fuel) := by
  induction fuel with
  | zero => exact ⟨fun _ hr => by cases hr⟩
  | succ fuel ih => unfold arrayInitializer; infer_instance

instance : Orderly W (boundedArrayInitializer g) where
  reads {_ c _ _} hc hr := Keeps.reads (r := arrayInitializer g (c.left + 1)) hc hr

instance : Orderly W (variableValue g) := by unfold variableValue; infer_instance

instance : Orderly W (embedded g) := by unfold embedded; infer_instance

instance : Orderly W (stringLiteral g) := by unfold stringLiteral; infer_instance

instance : Orderly W (literal g) := by unfold literal; infer_instance

instance : Orderly W thisWord := inferInstanceAs (Orderly W (Rule.lexeme _ _))

instance : Orderly W superWord := inferInstanceAs (Orderly W (Rule.lexeme _ _))

instance : Orderly W (constructorCall g) := by unfold constructorCall; infer_instance

instance : Orderly W (bareCall g) := by unfold bareCall; infer_instance

theorem continues_creation (h : Placed W (Node.Fits W) lo left mid) :
    Continues W (Node.Fits W) lo mid (creation g left) where
  reads {hi c _ _} hc hlo hmid hr := by
    simp only [creation] at hr
    split at hr
    · cases hr
    rename_i xs c₁ hxs
    have hhead : Reads W (Node.Fits W) c.last hi c xs c₁ := Keeps.reads hc hxs
    have hboth := hhead.behind h hmid
    have hopened := Continues.of_placed hboth.placed
    split at hr
    · exact hboth.continue (Nat.le_trans hlo hmid) inferInstance hr
    · exact hboth.continue (Nat.le_trans hlo hmid) inferInstance hr

instance : Orderly W (creation g []) :=
  .of_continues fun pos => continues_creation (.nil pos.le_refl)

instance : Orderly W (lambdaParameter g) := by unfold lambdaParameter; infer_instance

instance : Orderly W (lambdaBody g) := by unfold lambdaBody; infer_instance

instance : Orderly W (lambda g) := by unfold lambda; infer_instance

instance : Orderly W (cast g) where
  reads {hi c _ _} hc hr := by
    simp only [cast] at hr
    split at hr
    · cases hr
    rename_i xs c₁ hxs
    have hread : Reads W (Node.Fits W) c.last hi c xs c₁ := Keeps.reads hc hxs
    have htyped := Continues.of_placed hread.placed
    split at hr
    · split at hr
      · exact hread.continue (Nat.le_refl _) inferInstance hr
      · cases hr
    · cases hr

instance : Orderly W (parenthesized g) := by unfold parenthesized; infer_instance

instance : Orderly W (labelItem g) := by unfold labelItem; infer_instance

instance : Orderly W (labelItems g) := by unfold labelItems; infer_instance

instance : Orderly W (caseItems g) where
  reads {_ c _ _} hc hr := by
    unfold caseItems at hr
    split at hr
    · exact Keeps.reads hc hr
    · exact Keeps.reads hc hr

instance : Orderly W (switchLabel g) := by unfold switchLabel; infer_instance

instance : Orderly W annotatedLabel := by unfold annotatedLabel; infer_instance

instance : Orderly W (misplacedLabel g) where
  reads {_ c _ _} hc hr := by
    simp only [misplacedLabel] at hr
    split at hr
    · split at hr
      · split at hr
        · exact Keeps.reads hc hr
        · cases hr
      · cases hr
    · cases hr

instance : Orderly W (switchBlock g) where
  reads {_ c _ _} hc hr := by
    simp only [switchBlock] at hr
    split at hr
    · exact Keeps.reads hc hr
    · exact Keeps.reads hc hr

instance : Orderly W (switchRule g) := by unfold switchRule; infer_instance

instance : Orderly W (typeExpression g) where
  reads {hi c _ _} hc hr := by
    simp only [typeExpression] at hr
    split at hr
    · cases hr
    rename_i xs c₁ hxs
    have hread : Reads W (Node.Fits W) c.last hi c xs c₁ := Keeps.reads hc hxs
    have htyped := Continues.of_placed hread.placed
    exact hread.continue (Nat.le_refl _) inferInstance hr

instance : Orderly W (primary g) := by unfold primary; infer_instance

instance : Orderly W points := by unfold points; infer_instance

theorem continues_qualified (h : Placed W (Node.Fits W) lo left mid) :
    Continues W (Node.Fits W) lo mid fun c =>
      match token "." c with
      | some (dot, c₁) => creation g (left ++ dot) c₁
      | none => none := by
  refine ⟨fun {hi c _ _} hc hlo hmid hr => ?_⟩
  split at hr
  · rename_i dot c₁ hdot
    have hread : Reads W (Node.Fits W) c.last hi c dot c₁ := Keeps.reads hc hdot
    have hboth := hread.behind h hmid
    exact hboth.continue (Nat.le_trans hlo hmid) (continues_creation hboth.placed) hr
  · cases hr

theorem continues_suffix (h : Placed W (Node.Fits W) lo left mid) :
    Continues W (Node.Fits W) lo mid (suffix g left) := by
  have hplain := Continues.of_placed h
  have hobject : Continues W (Node.Fits W) lo mid fun c =>
      some (left.map (Node.withRole .object), c) :=
    .of_placed (h.withRole fun x _ => fits_withRole (by decide) (by decide) x)
  have hqualified := continues_qualified (g := g) h
  refine .firstOf ?_
  simp only [List.forall_mem_cons]
  and_intros <;> first | infer_instance | simp

theorem continues_suffixes (fuel : Nat) (h : Placed W (Node.Fits W) lo left mid) :
    Continues W (Node.Fits W) lo mid (suffixes g left fuel) := by
  induction fuel generalizing left mid with
  | zero => exact .of_placed h
  | succ fuel ih =>
    refine ⟨fun {hi c _ _} hc hlo hmid hr => ?_⟩
    simp only [suffixes] at hr
    split at hr
    · rename_i longer c₁ hlonger
      have hread := (continues_suffix h).reads hc hlo hmid hlonger
      exact hread.continue (Nat.le_trans hlo hmid) (ih hread.placed) hr
    · have hplain := Continues.of_placed h
      exact Continues.reads hc hlo hmid hr

instance : Orderly W (operandRule g) where
  reads {hi c _ _} hc hr := by
    unfold operandRule at hr
    split at hr
    · rename_i sign c₁ hsign
      have hread : Reads W (Node.Fits W) c.last hi c sign c₁ := Keeps.reads hc hsign
      have hsigned := Continues.of_placed hread.placed
      exact hread.continue (Nat.le_refl _) inferInstance hr
    · split at hr
      · rename_i left c₁ hleft
        have hread : Reads W (Node.Fits W) c.last hi c left c₁ := Keeps.reads hc hleft
        exact hread.continue (Nat.le_refl _) (continues_suffixes _ hread.placed) hr
      · cases hr

instance : Orderly W (operandTail g) := by unfold operandTail; infer_instance

instance : Orderly W (expressionRule g) where
  reads {hi c _ _} hc hr := by
    simp only [expressionRule] at hr
    split at hr
    · cases hr
    rename_i left c₁ hleft
    have hread : Reads W (Node.Fits W) c.last hi c left c₁ := Keeps.reads hc hleft
    split at hr
    · rename_i c₂ htail
      cases hr
      simpa using hread.trans (Keeps.reads hread.ready htail)
    · rename_i tail c₂ _ htail
      have hrow := hread.trans (Keeps.reads hread.ready htail)
      have hplaced := Continues.of_placed hrow.placed
      exact hrow.continue (Nat.le_refl _) inferInstance hr
    · cases hr
      exact hread

instance : Orderly W (componentPattern g) := by unfold componentPattern; infer_instance

instance : Orderly W (patternRule g) := by unfold patternRule; infer_instance

/-! ## Statements -/

instance : Orderly W (declarator g) := by unfold declarator; infer_instance

instance : Keeps W Node.IsDeclarator (declarator g) := by unfold declarator; infer_instance

instance : Orderly W (declarators g) := by unfold declarators; infer_instance

instance : Orderly W (localVariables g) := by unfold localVariables; infer_instance

instance : Orderly W (blockRule g) := by unfold blockRule; infer_instance

instance : Orderly W (condition g) := by unfold condition; infer_instance

instance : Orderly W (substatement g) := by unfold substatement; infer_instance

instance : Orderly W (ifStatement g) := by unfold ifStatement; infer_instance

instance : Orderly W (whileStatement g) := by unfold whileStatement; infer_instance

instance : Orderly W (doStatement g) := by unfold doStatement; infer_instance

instance : Orderly W (enhancedFor g) := by unfold enhancedFor; infer_instance

instance : Orderly W (expressions g) := by unfold expressions; infer_instance

instance : Orderly W (forStatement g) := by unfold forStatement; infer_instance

instance : Orderly W (resource g) := by unfold resource; infer_instance

instance : Orderly W (resources g) := by unfold resources; infer_instance

instance : Orderly W (catchParameter g) := by unfold catchParameter; infer_instance

instance : Orderly W (catchClause g) := by unfold catchClause; infer_instance

instance : Orderly W (tryStatement g) := by unfold tryStatement; infer_instance

instance : Orderly W (wordStatement g) := by unfold wordStatement; infer_instance

instance : Orderly W (statementRule g) := by unfold statementRule; infer_instance

/-! ## Declarations -/

instance : Orderly W (receiverParameter g) := by unfold receiverParameter; infer_instance

instance : Keeps W (Node.IsWord W) parameterName := by unfold parameterName; infer_instance

instance : Orderly W (spreadTail g) := by unfold spreadTail; infer_instance

instance : Orderly W (markedPoints g) := by unfold markedPoints; infer_instance

instance : Orderly W (spreadParameter g) := by unfold spreadParameter; infer_instance

instance : Orderly W (markedSpreadParameter g) := by unfold markedSpreadParameter; infer_instance

instance : Orderly W (formalParameter g) := by unfold formalParameter; infer_instance

instance : Orderly W (parameter g) := by unfold parameter; infer_instance

instance : Orderly W (formalParameters g) := by unfold formalParameters; infer_instance

instance : Orderly W (throws g) := by unfold throws; infer_instance

instance : Orderly W (bodyOrEnd g) := by unfold bodyOrEnd; infer_instance

instance : Orderly W strayNumber := by unfold strayNumber; infer_instance

instance (before : List String) : Orderly W (strayWord before) := by
  unfold strayWord; infer_instance

instance : Orderly W (openType g) := by unfold openType; infer_instance

instance : Orderly W (memberType g) := by unfold memberType; infer_instance

instance : Orderly W methodName := by unfold methodName; infer_instance

instance : Orderly W (methodDeclaration g) := by unfold methodDeclaration; infer_instance

instance : Orderly W (namelessMethod g) := by unfold namelessMethod; infer_instance

instance : Orderly W constructorName :=
  have : Keeps W (Node.IsWord W) (Rule.lexeme isMemberName .identifier) := .word fun l hl => by
    simp only [isMemberName, Bool.and_eq_true, beq_iff_eq] at hl
    exact hl.1
  inferInstanceAs (Orderly W (inRole .name _))

instance : Orderly W (constructorDeclaration g) := by unfold constructorDeclaration; infer_instance

instance : Orderly W (compactConstructor g) := by unfold compactConstructor; infer_instance

instance : Keeps W Node.IsDeclarator (fieldDeclarator g) := by
  unfold fieldDeclarator; infer_instance

instance : Keeps W Node.IsDeclarator (namelessDeclarator g) := by
  unfold namelessDeclarator; infer_instance

instance : Orderly W fieldEnd := by unfold fieldEnd; infer_instance

instance (kind : Kind) : Orderly W (fieldDeclaration g kind) := by
  simp only [fieldDeclaration]; infer_instance

instance (kind : Kind) : Orderly W (namelessField g kind) := by unfold namelessField; infer_instance

instance : Orderly W (annotationElement g) := by unfold annotationElement; infer_instance

instance : Orderly W (brokenRecord g) := by unfold brokenRecord; infer_instance

instance : Orderly W (initializer g) := by unfold initializer; infer_instance

instance : Orderly W (classMember g) := by unfold classMember; infer_instance

instance : Orderly W (interfaceMember g) := by unfold interfaceMember; infer_instance

instance : Orderly W (nestedType g) where
  reads hc hr := by
    unfold nestedType at hr
    split at hr
    · cases hr
    · exact Keeps.reads hc hr

instance : Orderly W (annotationMember g) := by unfold annotationMember; infer_instance

instance (member : Rule) [Orderly W member] : Orderly W (members g member) := by
  unfold members; infer_instance

instance (kind : Kind) (member : Rule) [Orderly W member] : Orderly W (bodyOf g kind member) := by
  unfold bodyOf; infer_instance

instance : Orderly W (classBodyRule g) := by unfold classBodyRule; infer_instance

instance : Orderly W (enumConstant g) := by unfold enumConstant; infer_instance

instance : Orderly W (enumBody g) := by unfold enumBody; infer_instance

instance (kind : Kind) (word : String) : Orderly W (typeList g kind word) := by
  unfold typeList; infer_instance

instance : Orderly W (classClauses g) := by unfold classClauses; infer_instance

instance : Orderly W (interfaceClauses g) := by unfold interfaceClauses; infer_instance

instance : Orderly W (recordClauses g) := by unfold recordClauses; infer_instance

instance : Orderly W typeName := by unfold typeName; infer_instance

instance : Orderly W (typeDeclarationRule g) where
  reads {hi c _ _} hc hr := by
    simp only [typeDeclarationRule] at hr
    split at hr
    · cases hr
    rename_i before c₁ hbefore
    have hread : Reads W (Node.Fits W) c.last hi c before c₁ := Keeps.reads hc hbefore
    have hopened := Continues.of_placed hread.placed
    exact hread.continue (Nat.le_refl _) inferInstance hr

instance : Orderly W (packageDeclaration g) := by unfold packageDeclaration; infer_instance

instance : Orderly W importDeclaration := by unfold importDeclaration; infer_instance

instance : Orderly W operatorRow := by simp only [operatorRow]; infer_instance

instance : Orderly W (unitItem g) := by unfold unitItem; infer_instance

/-! ## All goals -/

instance (goal : Goal) : Orderly W (grammarStep g goal) := by
  cases goal <;> (simp only [grammarStep]; infer_instance)

instance (fuel : Nat) (goal : Goal) : Orderly W (grammar fuel goal) := by
  induction fuel generalizing goal with
  | zero => exact ⟨fun _ hr => by cases hr⟩
  | succ fuel ih => exact inferInstanceAs (Orderly W (grammarStep (grammar fuel) goal))

end CodeAtlas.Java
