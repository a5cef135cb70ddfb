import CodeAtlas.Text.Blank

/-! # Wildcard patterns

In a wildcard pattern `*` stands for any run of characters and `?` for any one. The matcher
keeps one place to return to: on a mismatch it lets the last star take one more character.
A character of the text that equals the pattern's is taken first, also when it is a star.
-/

namespace CodeAtlas

def hasWildcards (pattern : String) : Bool :=
  pattern.toList.any fun c => c == '*' || c == '?'

namespace Wildcard

/-- Where the matcher stands: what is left of the pattern and the text, and the pattern
after the last star with the text that this star has left. -/
structure State where
  pattern : List Char
  text : List Char
  resume : Option (List Char × List Char) := none
  deriving Repr, DecidableEq

/-- The matcher goes on from a state or has an answer. -/
inductive Step where
  | next (s : State)
  | done (answer : Bool)
  deriving Repr, DecidableEq

def State.retry (s : State) : Step :=
  match s.resume with
  | some (p, _ :: t) => .next ⟨p, t, some (p, t)⟩
  | _ => .done false

def State.step (s : State) : Step :=
  match s.text with
  | [] => .done (s.pattern.all (· == '*'))
  | t :: text =>
    match s.pattern with
    | [] => s.retry
    | p :: pattern =>
      if p == '?' || p == t then .next ⟨pattern, text, s.resume⟩
      else if p == '*' then .next ⟨pattern, t :: text, some (pattern, t :: text)⟩
      else s.retry

def run : Nat → State → Option Bool
  | 0, _ => none
  | n + 1, s =>
    match s.step with
    | .done answer => some answer
    | .next s => run n s

/-- Moves that are enough: each star can be resumed at each place of the text, and from
there the text is read once. -/
def moveBound (pattern text : List Char) : Nat :=
  (pattern.length + 1) * (text.length + 2) * (text.length + 2) + 1

def matchChars (pattern text : List Char) : Bool :=
  (run (moveBound pattern text) ⟨pattern, text, none⟩).getD false

end Wildcard

/-- Whether a wildcard pattern matches a whole text. -/
def wildcardMatch (pattern text : String) : Bool :=
  Wildcard.matchChars pattern.toList text.toList

end CodeAtlas
