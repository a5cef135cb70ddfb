import CodeAtlas.Java.Grammar.Types

/-! # Expressions

Operators are read as a flat row of operands: nothing later depends on how they group.
What a call or a field access applies to is nested.
-/

namespace CodeAtlas.Java

open Rule

section

variable (g : Grammar)

/-- Binary operators. A closing angle bracket may be the first of a longer operator. -/
def binaryOperators : List String :=
  ["+", "-", "*", "/", "%", "&", "|", "^", "&&", "||", "==", "!=", "<", "<=", ">=", "<<"]

def assignmentOperators : List String :=
  ["=", "+=", "-=", "*=", "/=", "&=", "|=", "^=", "%=", "<<="]

def operator (texts : List String) : Rule :=
  lexeme (fun l => l.kind == .mark && texts.contains l.text) .token

/-- The operators that are written with closing angle brackets. -/
def closingAngles : Rule := seq [token ">", many (token ">"), optional (token ">=")]

/-- Arguments in parentheses. A parenthesis that only a semicolon follows opens no list. -/
def argumentList : Rule :=
  node .arguments
    (seq [ahead fun ls => !tokenAt ";" 1 ls, token "(", optional (g .expression),
      many (seq [token ",", optional (g .expression)]), assumed ")"])

def arrayInitializer : (fuel : Nat) → Rule
  | 0 => fun _ => none
  | fuel + 1 =>
    node .arrayInitializer
      (seq [token "\x7b",
        upTo "\x7d" (firstOf [arrayInitializer fuel, g .expression, token ","]),
        assumed "\x7d"])

def boundedArrayInitializer : Rule := fun c => arrayInitializer g (c.left + 1) c

def variableValue : Rule := firstOf [boundedArrayInitializer g, g .expression]

/-- What stands in a string between two of its parts. -/
def embedded : Rule :=
  many
    (firstOf
      [g .expression,
       seq [ahead fun ls =>
           !(anyTokenAt [";", "\x7b", "\x7d"] 0 ls)
             && (ls.head?.map fun l =>
               l.kind != .stringMiddle && l.kind != .stringClose) == some true,
         skipped]])

/-- A string or text block, with the expressions embedded in it. -/
def stringLiteral : Rule :=
  let part (k : LexemeKind) : Rule := lexeme (fun l => l.kind == k) .token
  firstOf
    [lexeme (fun l => l.kind == .string) .stringLiteral,
     node .stringLiteral
       (seq [part .stringOpen, embedded g, many (seq [part .stringMiddle, embedded g]),
         optional (part .stringClose)])]

def literal : Rule :=
  firstOf
    [lexeme (fun l => l.kind == .number) .literal,
     stringLiteral g,
     lexeme (fun l => l.kind == .character) .characterLiteral,
     lexeme (fun l => l.kind == .word && ["true", "false", "null"].contains l.text) .literal]

def thisWord : Rule := lexeme (fun l => l.kind == .word && l.text == "this") .thisReference

def superWord : Rule := lexeme (fun l => l.kind == .word && l.text == "super") .superReference

/-- A call of a constructor of the same or the parent class. -/
def constructorCall : Rule :=
  node .constructorCall
    (seq [optional (typeArguments g), firstOf [thisWord, superWord], argumentList g])

def bareCall : Rule :=
  node .methodInvocation
    (seq [ahead fun ls => tokenAt "(" 1 ls, inRole .name name, inRole .arguments (argumentList g)])

/-- What follows `new`, with or without a receiver in front of it. -/
def creation (before : List Node) : Rule := fun c =>
  let head := seq [token "new", many (g .annotationUse), optional (typeArguments g),
    many (g .annotationUse), inRole .type (plainType g)]
  match head c with
  | none => none
  | some (xs, c₁) =>
    let opened : Rule := fun c => some (before ++ xs, c)
    if tokenAt "[" 0 c₁.rest || tokenAt "@" 0 c₁.rest then
      node .arrayCreation
        (seq [opened,
          many (seq [many (g .annotationUse), token "[", optional (g .expression), assumed "]"]),
          optional (boundedArrayInitializer g)]) c₁
    else
      node .objectCreation
        (seq [opened, optional (inRole .arguments (argumentList g)), optional (g .classBody)]) c₁

def lambdaParameter : Rule :=
  firstOf
    [seq [modifiers g, g .type, optional (token "..."), name, dimensions g], name]

def lambdaBody : Rule := firstOf [g .block, g .expression]

def lambda : Rule :=
  node .lambda
    (firstOf
      [seq [ahead fun ls => tokenAt "->" 1 ls, name, token "->", optional (lambdaBody g)],
       seq [ahead fun ls => tokenAt "(" 0 ls && arrowAfterParens 0 0 ls,
         node .formalParameters
           (seq [token "(", upTo ")" (firstOf [lambdaParameter g, token ","]), assumed ")"]),
         token "->", optional (lambdaBody g)]])

/-- Whether an operand can start at a lexeme, signs left aside. -/
def startsOperand (l : Lexeme) : Bool :=
  match l.kind with
  | .word =>
    !isReserved l || isPrimitive l
      || ["this", "super", "new", "switch", "true", "false", "null"].contains l.text
  | .number | .string | .stringOpen | .character => true
  | .mark => l.text == "(" || l.text == "!" || l.text == "~"
  | _ => false

/-- A type in parentheses in front of an operand. After a primitive type the operand may
have a sign. -/
def cast : Rule := fun c =>
  let primitive := (c.rest[1]?.map isPrimitive) == some true
  match seq [token "(", separated "&" (inRole .type (g .type)), token ")"] c with
  | none => none
  | some (xs, c₁) =>
    match c₁.rest with
    | l :: _ =>
      if startsOperand l || (primitive && ["+", "-", "++", "--"].contains l.text) then
        node .cast (seq [fun c => some (xs, c), inRole .value (g .operand)]) c₁
      else none
    | [] => none

def parenthesized : Rule :=
  node .parenthesized (seq [token "(", optional (g .expression), assumed ")"])

/-- Whether a question mark that is followed by these lexemes is a wildcard type. -/
def wildcardBefore (ls : List Lexeme) : Bool := anyTokenAt [">", ",", "extends", "super"] 0 ls

/-- How many lexemes there are before the arrow or colon that ends a label: the first one
outside brackets, where a colon does not belong to a question mark. -/
def labelLength? (depth questions : Nat) : List Lexeme → Option Nat
  | [] => none
  | l :: ls =>
    let onward (depth questions : Nat) : Option Nat :=
      (labelLength? depth questions ls).map (· + 1)
    if l.kind != .mark then onward depth questions
    else if ["(", "[", "\x7b"].contains l.text then onward (depth + 1) questions
    else if [")", "]", "\x7d"].contains l.text then
      if depth == 0 then none else onward (depth - 1) questions
    else if 0 < depth then onward depth questions
    else if l.text == ";" then none
    else if l.text == "->" then some 0
    else if l.text == "?" && !wildcardBefore ls then onward depth (questions + 1)
    else if l.text == ":" then
      if questions == 0 then some 0 else onward depth (questions - 1)
    else onward depth questions

/-- Whether the label at the front ends in the given token. -/
def labelEndsIn (text : String) (ls : List Lexeme) : Bool :=
  match labelLength? 0 0 ls with
  | some n => tokenAt text n ls
  | none => false

/-- Whether a name that belongs to no pattern stands in front of a guard. -/
def strayBeforeGuard (ls : List Lexeme) : Bool :=
  nameAt 0 ls && !tokenAt "when" 0 ls && tokenAt "when" 1 ls

def labelItem : Rule :=
  firstOf
    [token "default",
     seq [g .pattern, optional (seq [ahead strayBeforeGuard, skipped]),
       ahead fun ls => ls.isEmpty || anyTokenAt ["->", ":", ",", "when", "&&"] 0 ls],
     g .expression]

/-- The values or patterns of a label with their guard. -/
def labelItems : Rule :=
  seq [separated "," (labelItem g),
    optional (seq [firstOf [token "when", token "&&"], g .expression])]

/-- What stands between `case` and the end of the label. What fits no rule is set apart. -/
def caseItems : Rule := fun c =>
  match labelLength? 0 0 c.rest with
  | some n => within n (seq [optional (labelItems g), many skipped]) c
  | none => labelItems g c

def switchLabel : Rule :=
  node .switchLabel
    (seq [firstOf [seq [token "case", caseItems g], token "default"],
      firstOf [token "->", assumed ":"]])

/-- A label cannot begin with an annotation. Where one does, the label and what belongs to it
are set apart. -/
def annotatedLabel : Rule :=
  seq [ahead fun ls => tokenAt "case" 0 ls && tokenAt "@" 1 ls,
    setApart fun ls => 1 + lengthUpTo ["case", "default"] 0 (ls.drop 1)]

/-- Where labels end in a colon, a computed one with an arrow is set apart together with the
statement after it. -/
def misplacedLabel : Rule := fun c =>
  let ls := c.rest.drop 1
  match labelLength? 0 0 ls with
  | some n =>
    if tokenAt "case" 0 c.rest && tokenAt "->" n ls then
      match g .expression ⟨ls.take n, n, c.last⟩ with
      | some ([.mk .operation _ _ _ _], ⟨[], _, _⟩) =>
        setApart (fun ls => 1 + lengthUpTo [";"] 0 (ls.drop 1)) c
      | _ => none
    else none
  | none => none

/-- The labels and statements of a switch. The first label tells how all of them end. -/
def switchBlock : Rule := fun c =>
  let labels :=
    if labelEndsIn ":" (c.rest.drop 2) then firstOf [misplacedLabel g, switchLabel g]
    else switchLabel g
  node .block
    (seq [token "\x7b", upTo "\x7d" (firstOf [annotatedLabel, labels, g .statement]),
      assumed "\x7d"]) c

def switchRule : Rule :=
  node .switchExpression (seq [token "switch", optional (parenthesized g), switchBlock g])

/-- The literal of a class, or a method reference, on an array, primitive or generic type. -/
def typeExpression : Rule := fun c =>
  match g .type c with
  | none => none
  | some (xs, c₁) =>
    let typed : Rule := fun c => some (xs, c)
    firstOf
      [node .classLiteral (seq [typed, token ".", token "class"]),
       node .methodReference
         (seq [typed, token "::", optional (typeArguments g), firstOf [token "new", anyWord]])] c₁

/-- Whether a name that is followed by brackets or angles may be a type in an expression. -/
def typeAhead (ls : List Lexeme) : Bool :=
  (ls.head?.map isPrimitive) == some true
    || (nameAt 0 ls && (tokenAt "<" 1 ls || (tokenAt "[" 1 ls && tokenAt "]" 2 ls)
      || tokenAt "." 1 ls || tokenAt "@" 1 ls))

def primary : Rule :=
  firstOf
    [literal g,
     lambda g,
     cast g,
     parenthesized g,
     seq [ahead fun ls => tokenAt "this" 0 ls || tokenAt "super" 0 ls || tokenAt "<" 0 ls,
       constructorCall g],
     thisWord,
     superWord,
     seq [ahead fun ls => tokenAt "new" 0 ls, creation g []],
     switchRule g,
     seq [ahead typeAhead, typeExpression g],
     bareCall g,
     name]

def points : Rule := seq [token ".", optional (node .error (token "."))]

/-- Everything that can be put behind an expression that stands to its left. -/
def suffix (left : List Node) : Rule :=
  let object : Rule := fun c => some (left.map (Node.withRole .object), c)
  let plain : Rule := fun c => some (left, c)
  firstOf
    [node .methodInvocation
       (seq [object, points, optional (seq [superWord, token "."]), optional (typeArguments g),
         ahead fun ls => tokenAt "(" 1 ls && !tokenAt "super" 0 ls && !tokenAt "new" 0 ls,
         inRole .name anyWord, inRole .arguments (argumentList g)]),
     node .constructorCall
       (seq [object, token ".", optional (typeArguments g), superWord, argumentList g]),
     node .classLiteral (seq [plain, token ".", token "class"]),
     seq [ahead fun ls => tokenAt "." 0 ls && tokenAt "new" 1 ls,
       fun c => match token "." c with
         | some (dot, c₁) => creation g (left ++ dot) c₁
         | none => none],
     node .fieldAccess
       (seq [object, points, optional (seq [superWord, token "."]),
         inRole .field (firstOf [thisWord, name])]),
     node .fieldAccess
       (seq [object, token ".", superWord, ahead fun ls => tokenAt "::" 0 ls]),
     node .fieldAccess
       (seq [object, token ".", lexeme (fun l => l.kind == .stray) .token, inRole .field anyWord]),
     node .literal (seq [plain, token ".", stringLiteral g]),
     node .arrayAccess
       (seq [plain, token "[", optional (g .expression), assumed "]"]),
     node .methodReference
       (seq [plain, token "::", optional (typeArguments g), firstOf [token "new", anyWord]])]

/-- An expression with everything put behind it. A sign comes last. -/
def suffixes (left : List Node) : (fuel : Nat) → Rule
  | 0 => fun c => some (left, c)
  | fuel + 1 => fun c =>
    match suffix g left c with
    | some (longer, c₁) => suffixes longer fuel c₁
    | none =>
      firstOf
        [node .operation (seq [fun c => some (left, c), operator ["++", "--"]]),
         fun c => some (left, c)] c

def operandRule : Rule := fun c =>
  match operator ["+", "-", "++", "--", "!", "~"] c with
  | some (sign, c₁) => node .operation (seq [fun c => some (sign, c), g .operand]) c₁
  | none =>
    match primary g c with
    | some (left, c₁) => suffixes g left c₁.left c₁
    | none => none

def operandTail : Rule :=
  firstOf
    [seq [firstOf [operator binaryOperators, closingAngles], g .operand],
     seq [operator assignmentOperators, g .expression],
     seq [token "instanceof", optional (token "final"), firstOf [g .pattern, g .type]],
     seq [token "?", optional (g .expression), assumed ":", optional (g .expression)]]

def expressionRule : Rule := fun c =>
  match g .operand c with
  | none => none
  | some (left, c₁) =>
    match many (operandTail g) c₁ with
    | some ([], c₂) => some (left, c₂)
    | some (tail, c₂) => node .operation (fun c => some (left ++ tail, c)) c₂
    | none => some (left, c₁)

/-- What a record pattern says about a component: any value will do, or a pattern. -/
def componentPattern : Rule :=
  firstOf
    [seq [ahead fun ls => tokenAt "_" 0 ls && anyTokenAt [",", ")"] 1 ls, name],
     g .pattern,
     node .pattern (seq [g .type, name])]

/-- A type with a name for what matches it, or a record taken apart. The record is named by
a word alone or with type arguments. -/
def patternRule : Rule :=
  node .pattern
    (firstOf
      [seq [firstOf
            [seq [ahead fun ls => tokenAt "(" 1 ls, name],
             node .typeName (seq [separated "." name, typeArguments g])],
          token "(", optional (separated "," (componentPattern g)), token ")"],
       seq [g .type, ahead fun ls => !tokenAt "when" 0 ls, name]])

end

end CodeAtlas.Java
