import CodeAtlas.Java.Grammar.Expressions

/-! # Statements

A statement that begins with a type and a name declares variables. A missing semicolon or
closing bracket is assumed.
-/

namespace CodeAtlas.Java

open Rule

section

variable (g : Grammar)

def declarator : Rule :=
  node .variableDeclarator
    (seq [inRole .name name, dimensions g,
      optional (seq [token "=", optional (inRole .value (variableValue g))])])

def declarators : Rule := separated "," (inRole .declarator (declarator g))

def localVariables : Rule :=
  node .localVariables
    (seq [modifiers g, inRole .type (g .type), declarators g, assumed ";"])

def blockRule : Rule :=
  node .block (seq [token "\x7b", upTo "\x7d" (g .statement), assumed "\x7d"])

def condition : Rule := optional (parenthesized g)

def substatement : Rule := optional (g .statement)

def ifStatement : Rule :=
  seq [token "if", condition g, substatement g, optional (seq [token "else", substatement g])]

def whileStatement : Rule := seq [token "while", condition g, substatement g]

def doStatement : Rule :=
  seq [token "do", substatement g, optional (token "while"), condition g, assumed ";"]

def enhancedFor : Rule :=
  node .enhancedFor
    (seq [token "for", token "(", modifiers g, inRole .type (g .type), inRole .name name,
      dimensions g, token ":", optional (inRole .value (g .expression)), assumed ")",
      inRole .body (substatement g)])

def expressions : Rule := separated "," (g .expression)

def forStatement : Rule :=
  seq [token "for", token "(",
    firstOf [localVariables g, seq [optional (expressions g), assumed ";"]],
    optional (g .expression), assumed ";", optional (expressions g), assumed ")",
    substatement g]

def resource : Rule :=
  node .resource
    (firstOf
      [seq [modifiers g, inRole .type (g .type), inRole .name name, token "=",
        optional (inRole .value (g .expression))],
       g .expression])

def resources : Rule :=
  node .statement
    (seq [token "(", upTo ")" (firstOf [resource g, token ";"]), assumed ")"])

def catchParameter : Rule :=
  node .catchParameter
    (seq [modifiers g, node .catchType (separated "|" (g .type)), inRole .name name])

def catchClause : Rule :=
  node .statement
    (seq [token "catch", token "(", upTo ")" (catchParameter g), assumed ")",
      optional (g .block)])

def tryStatement : Rule :=
  seq [token "try", optional (resources g), optional (g .block), many (catchClause g),
    optional (seq [token "finally", optional (g .block)])]

/-- Whether the parenthesis at the front can only open a list of arguments: it is empty, or
has a comma in it outside other brackets and angles, and no lambda follows from it. -/
def opensArguments (ls : List Lexeme) : Bool :=
  let rec hasComma (depth angles : Nat) : List Lexeme → Bool
    | [] => false
    | l :: ls =>
      if ["(", "[", "\x7b"].any l.isMark then hasComma (depth + 1) angles ls
      else if [")", "]", "\x7d"].any l.isMark then
        if depth ≤ 1 then false else hasComma (depth - 1) angles ls
      else if l.isMark "<" then hasComma depth (angles + 1) ls
      else if l.isMark ">" then hasComma depth (angles - 1) ls
      else (l.isMark "," && depth == 1 && angles == 0) || hasComma depth angles ls
  tokenAt "(" 0 ls && !arrowAfterParens 0 0 ls && (tokenAt ")" 1 ls || hasComma 0 0 ls)

/-- A statement yields a value where its first word is followed by an operand. Arguments
make the word the name of a method. -/
def yieldAhead (ls : List Lexeme) : Bool :=
  tokenAt "yield" 0 ls && (ls[1]?.map startsOperand) == some true && !opensArguments (ls.drop 1)

def wordStatement : Rule :=
  firstOf
    [ifStatement g,
     whileStatement g,
     doStatement g,
     forStatement g,
     tryStatement g,
     switchRule g,
     seq [token "synchronized", parenthesized g, optional (g .block)],
     seq [token "throw", optional (g .expression), assumed ";"],
     seq [token "return", optional (g .expression), assumed ";"],
     seq [token "break", optional name, assumed ";"],
     seq [token "continue", optional name, assumed ";"],
     seq [token "assert", optional (g .expression),
       optional (seq [token ":", optional (g .expression)]), assumed ";"],
     seq [ahead yieldAhead, token "yield", g .expression, assumed ";"]]

def statementRule : Rule :=
  firstOf
    [g .block,
     node .statement (token ";"),
     enhancedFor g,
     node .statement (wordStatement g),
     node .statement (seq [ahead fun ls => tokenAt ":" 1 ls, name, token ":", substatement g]),
     g .typeDeclaration,
     seq [ahead (introduces ["record", "module"]), setApart fun _ => 2],
     localVariables g,
     node .statement (seq [g .expression, assumed ";"])]

end

end CodeAtlas.Java
