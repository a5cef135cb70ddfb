import CodeAtlas.Java.Grammar

/-! # Types, annotations and modifiers -/

namespace CodeAtlas.Java

open Rule

section

variable (g : Grammar)

def typeArgument : Rule :=
  firstOf
    [node .typeName (seq [many (g .annotationUse), token "?",
      optional (seq [firstOf [token "extends", token "super"], g .type])]),
     g .type]

def typeArguments : Rule :=
  node .typeArguments
    (seq [token "<", optional (typeArgument g), many (seq [token ",", optional (typeArgument g)]),
      token ">"])

/-- A primitive type or a dotted name with type arguments, without brackets. -/
def plainType : Rule :=
  node .typeName
    (firstOf
      [lexeme isPrimitive .token,
       seq [name, optional (typeArguments g),
         many (seq [token ".", many (g .annotationUse), name, optional (typeArguments g)])]])

def dimensions : Rule := many (seq [many (g .annotationUse), token "[", token "]"])

def typeRule : Rule :=
  node .typeName (seq [many (g .annotationUse), plainType g, dimensions g])

/-- Words with points between them, the first as given. A word alone stands for itself. -/
def dotted (first : Rule) : Rule := fun c =>
  match node .scopedIdentifier (seq [first, many (seq [token ".", anyWord])]) c with
  | some ([.mk _ _ _ _ [only]], c₁) => some ([only], c₁)
  | result => result

/-- A dotted name of a package or an import. A second word in front of its first point is
set apart inside it. -/
def dottedName : Rule :=
  dotted
    (seq [anyWord,
      optional (seq [ahead fun ls => wordAt 0 ls && tokenAt "." 1 ls, node .error anyWord])])

/-- A value in an annotation: an annotation, a list in braces, or an expression. The depth
of lists in braces is bounded by `fuel`. -/
def elementValue : (fuel : Nat) → Rule
  | 0 => fun _ => none
  | fuel + 1 =>
    firstOf
      [seq [ahead fun ls => tokenAt "@" 0 ls, g .annotationUse],
       node .elementArray
         (seq [token "\x7b",
           upTo "\x7d" (firstOf [elementValue fuel, token ","]),
           assumed "\x7d"]),
       g .expression]

def boundedElementValue : Rule := fun c => elementValue g (c.left + 1) c

def elementPair : Rule :=
  node .elementPair
    (seq [ahead fun ls => tokenAt "=" 1 ls, inRole .key anyWord, token "=",
      inRole .value (boundedElementValue g)])

def annotationArguments : Rule :=
  node .annotationArguments
    (seq [token "(",
      upTo ")" (firstOf [elementPair g, boundedElementValue g, token ","]),
      assumed ")"])

def annotationRule : Rule :=
  node .annotationUse
    (seq [token "@", inRole .name (dotted anyWord),
      optional (inRole .arguments (annotationArguments g))])

def modifierWord : Rule :=
  firstOf
    [lexeme (fun l => l.kind == .word && modifierWords.contains l.text) .token,
     seq [ahead sealedAhead, token "sealed"],
     token "non-sealed"]

/-- Annotations and the given words, where there are any. -/
def modifiersWith (word : Rule) : Rule :=
  let one := firstOf [g .annotationUse, word]
  optional (node .modifiers (seq [one, many one]))

/-- Annotations and modifier words, where there are any. -/
def modifiers : Rule := modifiersWith g modifierWord

/-- The modifiers of a member of a type. No word that may be a modifier is a name there. -/
def memberModifiers : Rule := modifiersWith g (firstOf [modifierWord, token "sealed"])

def typeParameter : Rule :=
  node .typeName
    (seq [many (g .annotationUse), name,
      optional (seq [token "extends", separated "&" (g .type)])])

def typeParameters : Rule :=
  node .typeParameters
    (seq [token "<",
      firstOf [seq [ahead fun ls => tokenAt ">" 0 ls], separated "," (typeParameter g)],
      assumed ">"])

end

end CodeAtlas.Java
