import CodeAtlas.Java.Ending
import CodeAtlas.Java.Grammar.Statements

/-! # Declarations

Types with their bodies, members, and the compilation unit. A type without a body is no
declaration. Text that fits no declaration is set apart, one lexeme at a time.
-/

namespace CodeAtlas.Java

open Rule

section

variable (g : Grammar)

def receiverParameter : Rule :=
  node .receiverParameter
    (seq [modifiers g, g .type, optional (seq [name, token "."]), thisWord])

/-- The name of a parameter: any word, as none is reserved after a type. -/
def parameterName : Rule := seq [ahead fun ls => !tokenAt "this" 0 ls, anyWord]

/-- The points of a spread parameter with what follows them. -/
def spreadTail : Rule :=
  seq [token "...", many (g .annotationUse),
    node .variableDeclarator (seq [inRole .name parameterName, dimensions g])]

/-- An annotation without arguments in front of the points of a spread parameter. -/
def markedPoints : Rule :=
  seq [g .annotationUse, ahead fun ls => tokenAt "..." 0 ls]

/-- A spread parameter. Annotations in front of its points may have arguments. -/
def spreadParameter : Rule :=
  node .spreadParameter
    (seq [modifiers g, g .type,
      many (seq [ahead fun ls => tokenAt "(" 2 ls, g .annotationUse]), spreadTail g])

/-- A spread parameter with a plain annotation in front of its points does not fit. After
brackets the points are lost too, and everything up to the next points is set apart. -/
def markedSpreadParameter : Rule :=
  firstOf
    [node .error
       (seq [modifiers g, plainType g, markedPoints g, spreadTail g]),
     node .spreadParameter
       (seq [modifiers g, g .type, node .error (seq [markedPoints g, token "..."]),
         setApart (fun ls => (ls.takeWhile fun l => !l.isMark "...").length), spreadTail g])]

def formalParameter : Rule :=
  node .formalParameter
    (seq [modifiers g, inRole .type (g .type), inRole .name parameterName, dimensions g])

def parameter : Rule :=
  firstOf
    [receiverParameter g, spreadParameter g, markedSpreadParameter g, formalParameter g]

/-- Parameters in parentheses. A list that is not closed ends before a brace or semicolon. -/
def formalParameters : Rule :=
  node .formalParameters
    (seq [token "(",
      many (seq [ahead fun ls => !([")", "\x7b", "\x7d", ";"].any fun t => tokenAt t 0 ls),
        firstOf [parameter g, token ",", skipped]]),
      assumed ")"])

/-- The exceptions of a method. The word is passed over where it names none. -/
def throws : Rule :=
  firstOf
    [node .throws (seq [token "throws", separated "," (g .type)]),
     node .error (token "throws")]

def bodyOrEnd : Rule := firstOf [inRole .body (g .block), assumed ";"]

def strayNumber : Rule :=
  optional
    (seq [ahead fun ls => wordAt 1 ls, node .error (lexeme (fun l => l.kind == .number) .token)])

/-- A second word where a declaration has one name, in front of one of the given tokens. -/
def strayWord (before : List String) : Rule :=
  optional (seq [ahead fun ls => wordAt 0 ls && anyTokenAt before 1 ls, node .error anyWord])

/-- A type whose arguments are not closed in front of the name that it is the type of. -/
def openType : Rule :=
  node .typeName
    (seq [separated "." name,
      node .typeArguments (seq [token "<", separated "," (typeArgument g)]),
      ahead fun ls => wordAt 0 ls])

/-- The type of a member. Words that are reserved elsewhere name types here. -/
def memberType : Rule :=
  firstOf
    [openType g,
     g .type,
     node .typeName
       (seq [lexeme isMemberName .identifier, many (seq [token ".", anyWord]), dimensions g])]

/-- The name of a method, its parameters next. A second word is passed over where it is
short enough: otherwise it names a constructor, and a semicolon is missing in front of it. -/
def methodName : Rule :=
  seq [strayNumber, ahead fun ls => !tokenAt "_" 0 ls, inRole .name anyWord,
    optional (seq [ahead fun ls => !longWordAt 10 0 ls, strayWord ["("]]),
    ahead fun ls => tokenAt "(" 0 ls]

def methodDeclaration : Rule :=
  node .methodDeclaration
    (seq [memberModifiers g, optional (typeParameters g), many (g .annotationUse),
      inRole .type (memberType g), methodName,
      inRole .parameters (formalParameters g), dimensions g, optional (throws g), bodyOrEnd g])

/-- A method cannot be named by an underscore. Such a declaration is set apart. -/
def namelessMethod : Rule :=
  node .error
    (seq [memberModifiers g, optional (typeParameters g), g .type, token "_",
      ahead fun ls => tokenAt "(" 0 ls, formalParameters g, dimensions g, optional (throws g),
      bodyOrEnd g])

def constructorName : Rule := inRole .name (lexeme isMemberName .identifier)

def constructorDeclaration : Rule :=
  node .constructorDeclaration
    (seq [memberModifiers g, optional (typeParameters g), constructorName,
      ahead fun ls => tokenAt "(" 0 ls, inRole .parameters (formalParameters g),
      optional (throws g), inRole .body (g .block)])

def compactConstructor : Rule :=
  node .compactConstructor
    (seq [memberModifiers g, constructorName, inRole .body (g .block)])

/-- Whether an annotation at the front has arguments that are not closed before a
semicolon. -/
def openAnnotationAhead (ls : List Lexeme) : Bool :=
  let rec unclosed (depth : Nat) : List Lexeme → Bool
    | [] => false
    | l :: ls =>
      if l.isMark "(" then unclosed (depth + 1) ls
      else if l.isMark ")" then if depth ≤ 1 then false else unclosed (depth - 1) ls
      else l.isMark ";" || unclosed depth ls
  tokenAt "@" 0 ls && tokenAt "(" 2 ls && unclosed 0 (ls.drop 2)

/-- Whether a declarator may stand in front of these lexemes. -/
def endsDeclarator (ls : List Lexeme) : Bool := anyTokenAt [";", "=", ",", "["] 0 ls

/-- The name and value of a field. A second word after the name is passed over. -/
def fieldDeclarator : Rule :=
  node .variableDeclarator
    (seq [strayNumber,
      firstOf [inRole .name name,
        seq [ahead fun ls =>
            endsDeclarator (ls.drop 1) || (wordAt 1 ls && endsDeclarator (ls.drop 2)),
          inRole .name anyWord]],
      strayWord [";", "=", ",", "["],
      dimensions g,
      optional (seq [token "=", optional (inRole .value (variableValue g))])])

/-- The place of a name that is missing in front of what may follow it. -/
def namelessDeclarator : Rule :=
  node .variableDeclarator
    (seq [ahead fun ls => anyTokenAt [";", "=", ","] 0 ls, inRole .name (missing .identifier),
      optional (seq [token "=", optional (inRole .value (variableValue g))])])

/-- Whether a field may end in front of these lexemes without a semicolon. -/
def startsMember (ls : List Lexeme) : Bool :=
  match ls.head? with
  | none => true
  | some l => l.kind == .word || ["@", "@interface", "\x7b", "\x7d", "<"].any l.isMark

/-- How many lexemes stand before a semicolon, when there are no brackets among them. -/
def lengthToSemicolon (ls : List Lexeme) : Nat :=
  let run := ls.takeWhile fun l => !([";", "(", ")", "[", "]", "\x7b", "\x7d", "."].any l.isMark)
  if tokenAt ";" run.length ls then run.length else 0

/-- The end of a field. What does not fit in front of its semicolon is set apart. -/
def fieldEnd : Rule :=
  firstOf
    [token ";",
     ahead startsMember,
     seq [setApart lengthToSemicolon, token ";"]]

def fieldDeclaration (kind : Kind) : Rule :=
  let declarators := seq [inRole .declarator (fieldDeclarator g),
    many (seq [token ",", inRole .declarator (declarator g)])]
  node kind (seq [memberModifiers g, inRole .type (memberType g), declarators, fieldEnd])

/-- Whether a word alone in front of a semicolon is passed over: it is no longer than the
name that it lacks is worth. -/
def loneWordAhead (ls : List Lexeme) : Bool :=
  wordAt 0 ls && !longWordAt 11 0 ls && tokenAt ";" 1 ls

def namelessField (kind : Kind) : Rule :=
  node kind
    (seq [ahead fun ls => !loneWordAhead ls, memberModifiers g, inRole .type (memberType g),
      inRole .declarator (namelessDeclarator g),
      many (seq [token ",", inRole .declarator (declarator g)]), fieldEnd,
      ahead fun ls => !openAnnotationAhead ls])

def annotationElement : Rule :=
  node .annotationElement
    (seq [memberModifiers g, inRole .type (memberType g), methodName, token "(", token ")",
      dimensions g,
      optional (seq [token "default", optional (inRole .value (boundedElementValue g))]),
      assumed ";"])

/-- The word of a record declaration that does not go on, with the name after it. -/
def brokenRecord : Rule :=
  node .error (seq [memberModifiers g, ahead (introduces ["record"]), token "record", anyWord])

def initializer : Rule := node .initializer (seq [optional (token "static"), g .block])

def classMember : Rule :=
  firstOf
    [token ";",
     seq [ahead fun ls => tokenAt "\x7b" 0 ls || (tokenAt "static" 0 ls && tokenAt "\x7b" 1 ls),
       initializer g],
     g .typeDeclaration,
     brokenRecord g,
     constructorDeclaration g,
     compactConstructor g,
     methodDeclaration g,
     namelessMethod g,
     fieldDeclaration g .fieldDeclaration,
     namelessField g .fieldDeclaration]

def interfaceMember : Rule :=
  firstOf
    [token ";", g .typeDeclaration, brokenRecord g, methodDeclaration g, namelessMethod g,
     fieldDeclaration g .constantDeclaration, namelessField g .constantDeclaration]

def nestedType : Rule := fun c =>
  match g .typeDeclaration c with
  | some ([.mk .recordDeclaration _ _ _ _], _) => none
  | result => result

def annotationMember : Rule :=
  firstOf
    [token ";", nestedType g, annotationElement g,
     fieldDeclaration g .constantDeclaration, namelessField g .constantDeclaration]

/-- The members of a type. An annotation that belongs to none is set apart, and one with
open arguments takes the rest of the body with it. -/
def members (member : Rule) : Rule :=
  upTo "\x7d"
    (firstOf
      [seq [ahead openAnnotationAhead, setApart (lengthUpTo [] 0)],
       member,
       node .error (g .annotationUse)])

def bodyOf (kind : Kind) (member : Rule) : Rule :=
  node kind (seq [token "\x7b", members g member, assumed "\x7d"])

def classBodyRule : Rule := bodyOf g .classBody (classMember g)

def enumConstant : Rule :=
  node .enumConstant
    (seq [modifiers g, inRole .name name, optional (inRole .arguments (argumentList g)),
      optional (inRole .body (g .classBody))])

def enumBody : Rule :=
  node .enumBody
    (seq [token "\x7b",
      many (firstOf [node .error (token "sealed"), enumConstant g, token ","]),
      optional
        (node .enumBodyDeclarations (seq [token ";", members g (classMember g)])),
      members g (classMember g),
      assumed "\x7d"])

/-- A word and a list of types. Without a type the word is set apart. -/
def typeList (kind : Kind) (word : String) : Rule :=
  firstOf
    [node kind (seq [token word, separated "," (g .type)]),
     node .error (token word)]

def classClauses : Rule :=
  many
    (firstOf
      [typeParameters g,
       firstOf [node .superclass (seq [token "extends", g .type]), node .error (token "extends")],
       typeList g .superInterfaces "implements",
       typeList g .permits "permits"])

def interfaceClauses : Rule :=
  many
    (firstOf
      [typeParameters g,
       typeList g .extendsInterfaces "extends",
       typeList g .permits "permits"])

def recordClauses : Rule :=
  seq [optional (typeParameters g), optional (inRole .parameters (formalParameters g)),
    many (firstOf [typeList g .superInterfaces "implements"])]

/-- The name of a type: any word. A second word in front of the body is passed over. -/
def typeName : Rule := seq [strayNumber, inRole .name anyWord, strayWord ["\x7b"]]

def typeDeclarationRule : Rule := fun c =>
  match modifiers g c with
  | none => none
  | some (before, c₁) =>
    let opened : Rule := fun c => some (before, c)
    firstOf
      [node .classDeclaration
         (seq [opened, token "class", typeName, classClauses g,
           inRole .body (classBodyRule g)]),
       node .interfaceDeclaration
         (seq [opened, token "interface", typeName, interfaceClauses g,
           inRole .body (bodyOf g .interfaceBody (interfaceMember g))]),
       node .enumDeclaration
         (seq [opened, token "enum", typeName,
           many (typeList g .superInterfaces "implements"), inRole .body (enumBody g)]),
       node .recordDeclaration
         (seq [opened, ahead recordAhead, token "record", inRole .name anyWord, recordClauses g,
           inRole .body (classBodyRule g)]),
       node .annotationDeclaration
         (seq [opened, token "@interface", typeName,
           inRole .body (bodyOf g .annotationBody (annotationMember g))])] c₁

def packageDeclaration : Rule :=
  node .packageDeclaration
    (seq [modifiers g, token "package",
      optional (seq [ahead fun ls => !tokenAt "class" 0 ls, dottedName]), assumed ";"])

def importDeclaration : Rule :=
  node .importDeclaration
    (seq [token "import", optional (token "static"), optional dottedName,
      optional (seq [token ".", lexeme (fun l => l.kind == .mark && l.text == "*") .asterisk]),
      assumed ";"])

/-- A row of operands that begins with a binary operator, up to its last name and the word
that this name is taken to declare. -/
def operatorRow : Rule :=
  let sign := operator ["*", "/", "%", "&", "|", "^", "&&", "||"]
  node .error (seq [sign, many (seq [name, sign]), name, anyWord])

def unitItem : Rule :=
  firstOf
    [packageDeclaration g,
     importDeclaration,
     g .typeDeclaration,
     token ";",
     methodDeclaration g,
     g .statement,
     node .error (g .annotationUse),
     operatorRow,
     skipped]

end

/-- The rules of all goals, given a way to read each of them. -/
def grammarStep (g : Grammar) : Grammar
  | .type => typeRule g
  | .annotationUse => annotationRule g
  | .expression => expressionRule g
  | .operand => operandRule g
  | .pattern => patternRule g
  | .block => blockRule g
  | .statement => statementRule g
  | .typeDeclaration => typeDeclarationRule g
  | .classBody => classBodyRule g

/-- The grammar with its goals nested at most `fuel` deep. -/
def grammar : (fuel : Nat) → Grammar
  | 0, _ => fun _ => none
  | fuel + 1, goal => grammarStep (grammar fuel) goal

/-- The items of a compilation unit. A goal inside a goal takes a lexeme at the latest four
goals down, so five for each lexeme are enough. -/
def unitItems (ls : List Lexeme) : List Node :=
  match many (unitItem (grammar (5 * ls.length + 5))) (Cursor.ofLexemes ls) with
  | some (items, _) => items
  | none => []

/-- The parse tree of a source file, its comments included. -/
def parseTree (bytes : List UInt8) : Node :=
  let ls := lex bytes
  let items := settleEnd (Source.ofBytes bytes) (unitItems (significant false ls))
  (Node.mk .program none 0 bytes.length items).weave (ls.filter Lexeme.isComment)

end CodeAtlas.Java
