import CodeAtlas.Java.Tree

/-! # The end of a file

A file may end inside a declaration. Braces and the semicolons of statements are then taken
to be there, and so is the body of a method. Where something else is open, the declaration
is no declaration any more, and only the types inside it that were finished before the end
remain.
-/

namespace CodeAtlas.Java

/-- The tokens that may be the last ones of a file that ends too early. -/
def lastTokens : List String :=
  [";", "\x7b", "\x7d", ")", "]", ">", "++", "--", "else", "return", "break", "continue"]

section

variable (src : Source)

def lexemeText? : Node → Option String
  | .mk _ _ a b [] => some (src.text a b)
  | .mk _ _ _ _ [c] => lexemeText? c
  | _ => none

def isToken (text : String) (n : Node) : Bool := n.kind == .token && lexemeText? src n == some text

def endsInToken (text : String) (children : List Node) : Bool :=
  (children.getLast?.map (isToken src text)) == some true

def endsInKind (kinds : List Kind) (children : List Node) : Bool :=
  (children.getLast?.map fun n => kinds.contains n.kind) == some true

/-- Whether the children of a statement go on far enough for it to end there. -/
def statementFits (children : List Node) : Bool :=
  match children.head?.bind (lexemeText? src) with
  | some "try" =>
    endsInKind [.block, .statement] children
      && (children.drop 1).any fun n => n.kind == .statement || isToken src "finally" n
  | some "do" => endsInToken src ";" children || endsInKind [.parenthesized] children
  | some "synchronized" | some "catch" => endsInKind [.block] children
  | some "for" => children.any (isToken src ")")
  | some "(" => endsInToken src ")" children
  | _ => true

/-- Whether a node of a kind with these children may be the last one of a file, apart from
what is open in its last child. -/
def endingFits (kind : Kind) (children : List Node) : Bool :=
  match kind with
  | .arguments | .parenthesized | .formalParameters | .annotationArguments =>
    endsInToken src ")" children
  | .arrayAccess => endsInToken src "]" children
  | .arrayCreation => endsInToken src "]" children || endsInKind [.arrayInitializer] children
  | .arrayInitializer | .elementArray => endsInToken src "\x7d" children
  | .fieldDeclaration | .constantDeclaration | .annotationElement => endsInToken src ";" children
  | .objectCreation => endsInKind [.arguments, .classBody] children
  | .switchExpression => endsInKind [.block] children
  | .enhancedFor => children.any (isToken src ")")
  | .statement => statementFits src children
  | _ => true

/-- Whether a last token fits the node that it ends. -/
def lastTokenFits (kind : Kind) (text : String) : Bool :=
  match kind with
  | .typeName | .classLiteral | .methodReference | .stringLiteral => true
  | .switchLabel | .statement => text == ":" || lastTokens.contains text
  | .enumBody => text == "," || lastTokens.contains text
  | _ => lastTokens.contains text

mutual

/-- Whether the end of the file can close everything that is open at the end of a node. -/
def closable : Node → Bool
  | .mk k _ _ _ cs => k != .error && endingFits src k cs && lastClosable k cs

/-- The same for the last of the children of a node of a kind. -/
def lastClosable (kind : Kind) : List Node → Bool
  | [] => true
  | [.mk k r a b cs] =>
    if k == .token && cs.isEmpty then lastTokenFits kind (src.text a b)
    else closable (.mk k r a b cs)
  | _ :: ns => lastClosable kind ns

end

mutual

/-- The parts of a node that were finished before its end. -/
def finishedParts : Node → List Node
  | .mk k r a b [] => [.mk k r a b []]
  | .mk _ _ _ _ (c :: cs) => finishedIn (c :: cs)

def finishedIn : List Node → List Node
  | [] => []
  | [n] => finishedParts n
  | n :: ns => n :: finishedIn ns

end

/-- The items of a compilation unit. The last one is taken apart where the end of the file
cannot close it. -/
def settleEnd : List Node → List Node
  | [] => []
  | [n] =>
    if closable src n then [n] else [.mk .error none n.start n.stop (finishedParts n)]
  | n :: ns => n :: settleEnd ns

end

end CodeAtlas.Java
