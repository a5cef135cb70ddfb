import CodeAtlas.Java.Tree

/-! # Grammar rules

A rule takes lexemes from the front of the input and yields the nodes it read, or does
not apply. Rules are put together by sequence, ordered choice and repetition.
-/

namespace CodeAtlas.Java

/-- The lexemes that are left, their number, and the offset where the last one taken
ended. -/
structure Cursor where
  rest : List Lexeme
  left : Nat
  last : Nat := 0

def Cursor.ofLexemes (ls : List Lexeme) : Cursor := ⟨ls, ls.length, 0⟩

abbrev Rule := Cursor → Option (List Node × Cursor)

namespace Rule

def nothing : Rule := fun c => some ([], c)

def thenDo (a b : Rule) : Rule := fun c =>
  match a c with
  | none => none
  | some (xs, c) =>
    match b c with
    | none => none
    | some (ys, c) => some (xs ++ ys, c)

def seq : List Rule → Rule
  | [] => nothing
  | [r] => r
  | r :: rs => thenDo r (seq rs)

def firstOf : List Rule → Rule
  | [] => fun _ => none
  | r :: rs => fun c =>
    match r c with
    | some result => some result
    | none => firstOf rs c

def optional (r : Rule) : Rule := fun c =>
  match r c with
  | some result => some result
  | none => some ([], c)

/-- A rule as often as it applies and takes a lexeme, at most `fuel` times. -/
def repeated (r : Rule) : (fuel : Nat) → Rule
  | 0 => nothing
  | fuel + 1 => fun c =>
    match r c with
    | none => some ([], c)
    | some (xs, c₁) =>
      if c₁.left < c.left then
        match repeated r fuel c₁ with
        | some (ys, c₂) => some (xs ++ ys, c₂)
        | none => some (xs, c₁)
      else some (xs, c₁)

def many (r : Rule) : Rule := fun c => repeated r c.left c

/-- Applies where the lexemes ahead satisfy `p`; takes none. -/
def ahead (p : List Lexeme → Bool) : Rule := fun c => if p c.rest then some ([], c) else none

/-- One lexeme that satisfies `p`, as a node of a kind. -/
def lexeme (p : Lexeme → Bool) (k : Kind) : Rule := fun c =>
  match c.rest with
  | l :: rest =>
    if p l then some ([.mk k none l.start l.stop []], ⟨rest, c.left - 1, l.stop⟩) else none
  | [] => none

def token (text : String) : Rule :=
  lexeme (fun l => l.text == text && (l.kind == .mark || l.kind == .word)) .token

/-- A token that is taken where it stands and assumed where it is missing. -/
def assumed (text : String) : Rule := optional (token text)

/-- The nodes of a rule as the children of one node. It spans them, or nothing at all where
there are none. -/
def node (k : Kind) (r : Rule) : Rule := fun c =>
  match r c with
  | none => none
  | some (xs, c₁) =>
    let start := (xs.head?.map Node.start).getD c.last
    let stop := (xs.getLast?.map Node.stop).getD c.last
    some ([.mk k none start stop xs], c₁)

def inRole (role : Role) (r : Rule) : Rule := fun c =>
  match r c with
  | none => none
  | some (xs, c₁) => some (xs.map (Node.withRole role), c₁)

/-- A rule once or more, with a token between each two. -/
def separated (sep : String) (r : Rule) : Rule := seq [r, many (seq [token sep, r])]

def skipped : Rule := node .error (lexeme (fun _ => true) .token)

/-- The lexemes that are counted from the front, set apart as one error. Applies where there
are any. -/
def setApart (count : List Lexeme → Nat) : Rule := fun c =>
  match c.rest.take (count c.rest) with
  | [] => none
  | taken =>
    let last := (taken.getLast?.map Lexeme.stop).getD c.last
    node .error (fun c => some (taken.map fun l => .mk .token none l.start l.stop [], c))
      ⟨c.rest.drop taken.length, c.left - taken.length, last⟩

/-- A rule on the first `n` lexemes alone. -/
def within (n : Nat) (r : Rule) : Rule := fun c =>
  match r ⟨c.rest.take n, min n c.left, c.last⟩ with
  | none => none
  | some (xs, c₁) =>
    let taken := min n c.left - c₁.left
    some (xs, ⟨c.rest.drop taken, c.left - taken, c₁.last⟩)

/-- A node of a kind for something that is missing. -/
def missing (k : Kind) : Rule := fun c => some ([.mk k none c.last c.last []], c)

/-- A rule as often as it applies, up to a closing token or the end. Lexemes that it does
not apply to are set apart. -/
def upTo (close : String) (r : Rule) : Rule :=
  many (seq [
    ahead fun ls => (ls.head?.map fun l => l.text == close && l.kind == .mark) != some true,
    firstOf [r, skipped]])

end Rule

/-- The text of the lexeme at a place ahead, when it is a word or a mark. -/
def textAt (ls : List Lexeme) (i : Nat) : Option String :=
  match ls[i]? with
  | some l => if l.kind == .word || l.kind == .mark then some l.text else none
  | none => none

end CodeAtlas.Java
