import CodeAtlas.Java.Source
import CodeAtlas.Java.Token

/-! # Parse trees

A parse tree keeps every token of the source, each node with the offsets it stands
between. A child may play a role in its parent. Tokens without a meaning of their own are
unnamed; every other node, comments among them, is named. A part of the source that fits
no rule stands in an error node.
-/

namespace CodeAtlas.Java

/-- What a node is. -/
inductive Kind where
  | token
  | lineComment
  | blockComment
  | error
  | program
  | packageDeclaration
  | importDeclaration
  | identifier
  | scopedIdentifier
  | asterisk
  | classDeclaration
  | interfaceDeclaration
  | enumDeclaration
  | recordDeclaration
  | annotationDeclaration
  | modifiers
  | annotationUse
  | annotationArguments
  | elementPair
  | elementArray
  | typeParameters
  | superclass
  | superInterfaces
  | extendsInterfaces
  | permits
  | throws
  | classBody
  | interfaceBody
  | enumBody
  | enumBodyDeclarations
  | annotationBody
  | fieldDeclaration
  | constantDeclaration
  | methodDeclaration
  | annotationElement
  | constructorDeclaration
  | compactConstructor
  | enumConstant
  | initializer
  | formalParameters
  | formalParameter
  | spreadParameter
  | receiverParameter
  | variableDeclarator
  | typeName
  | typeArguments
  | pattern
  | block
  | statement
  | switchLabel
  | localVariables
  | enhancedFor
  | resource
  | catchParameter
  | catchType
  | literal
  | stringLiteral
  | characterLiteral
  | thisReference
  | superReference
  | methodInvocation
  | constructorCall
  | fieldAccess
  | objectCreation
  | arrayCreation
  | arrayInitializer
  | arrayAccess
  | classLiteral
  | methodReference
  | arguments
  | parenthesized
  | cast
  | lambda
  | switchExpression
  | operation
  deriving Repr, DecidableEq, Inhabited

namespace Kind

def isComment : Kind → Bool
  | .lineComment | .blockComment => true
  | _ => false

def isNamed : Kind → Bool
  | .token => false
  | _ => true

end Kind

/-- What a child is to its parent. -/
inductive Role where
  | name
  | type
  | body
  | parameters
  | declarator
  | value
  | object
  | field
  | arguments
  | key
  deriving Repr, DecidableEq, Inhabited

inductive Node where
  | mk (kind : Kind) (role : Option Role) (start stop : Nat) (children : List Node)
  deriving Repr, Inhabited

namespace Node

def kind : Node → Kind
  | .mk k _ _ _ _ => k

def role : Node → Option Role
  | .mk _ r _ _ _ => r

def start : Node → Nat
  | .mk _ _ a _ _ => a

def stop : Node → Nat
  | .mk _ _ _ b _ => b

def children : Node → List Node
  | .mk _ _ _ _ cs => cs

def isNamed (n : Node) : Bool := n.kind.isNamed

def withRole (r : Role) : Node → Node
  | .mk k _ a b cs => .mk k (some r) a b cs

def named (n : Node) : List Node := n.children.filter isNamed

def childOfKind? (n : Node) (k : Kind) : Option Node := n.named.find? fun c => c.kind == k

def child? (n : Node) (r : Role) : Option Node := n.children.find? fun c => c.role == some r

def childrenOf (n : Node) (r : Role) : List Node := n.children.filter fun c => c.role == some r

def text (src : Source) (n : Node) : String := src.text n.start n.stop

/-- The line of the node's first character, counted from one. -/
def line (src : Source) (n : Node) : Nat := src.row n.start + 1

mutual

/-- A node and all nodes below it, each before its children. -/
def preorder : Node → List Node
  | .mk k r a b cs => .mk k r a b cs :: preorderAll cs

def preorderAll : List Node → List Node
  | [] => []
  | n :: ns => preorder n ++ preorderAll ns

end

mutual

/-- A node and the nodes below it, each before its children, without those of a kind that
`skip` holds for and without what is below these. -/
def preorderOutside (skip : Kind → Bool) : Node → List Node
  | .mk k r a b cs => if skip k then [] else .mk k r a b cs :: preorderOutsideAll skip cs

def preorderOutsideAll (skip : Kind → Bool) : List Node → List Node
  | [] => []
  | n :: ns => preorderOutside skip n ++ preorderOutsideAll skip ns

end

def ofComment (l : Lexeme) : Node :=
  .mk (if l.kind == .lineComment then .lineComment else .blockComment) none l.start l.stop []

mutual

/-- A tree with comments, given in order, put into the innermost node that each stands in:
a comment before the first or after the last token of a node belongs to a node above it. -/
def weave (comments : List Lexeme) : Node → Node
  | .mk k r a b cs => .mk k r a b (weaveAll comments cs)

def weaveAll (comments : List Lexeme) : List Node → List Node
  | [] => comments.map ofComment
  | n :: ns =>
    let before := comments.takeWhile fun l => l.start < n.start
    let here := comments.dropWhile fun l => l.start < n.start
    let inside := here.takeWhile fun l => l.start < n.stop
    let later := here.dropWhile fun l => l.start < n.stop
    before.map ofComment ++ weave inside n :: weaveAll later ns

end

end Node

end CodeAtlas.Java
