import CodeAtlas.Json.Skip

/-! # The body of a registration

A registration is read as it comes: the first fault in the text decides whether it is no
JSON or JSON of another shape. It is an object, or an array of its fields in order. Other
members of the object are skipped.
-/

namespace CodeAtlas.Http

structure Registration where
  rootPath : String
  language : String
  name : Option String
  deriving Repr, DecidableEq, Inhabited

/-- Why a body is refused. -/
inductive BodyFault where
  | malformed
  | wrongShape
  deriving Repr, DecidableEq, Inhabited

namespace Registration

open Json (skipGap)

/-- The fault of a value that is not what was expected. Only its front is looked at. -/
def mismatch (cs : List Char) : BodyFault :=
  match cs with
  | '[' :: _ => .wrongShape
  | '\x7b' :: _ => .wrongShape
  | '"' :: _ => if (Json.readString cs).isSome then .wrongShape else .malformed
  | _ => if (Json.readValue 0 1 cs).isSome then .wrongShape else .malformed

def text (cs : List Char) : Except BodyFault (String × List Char) :=
  match skipGap cs with
  | '"' :: rest =>
    match Json.readString ('"' :: rest) with
    | some r => .ok r
    | none => .error .malformed
  | cs => .error (mismatch cs)

def optionalText (cs : List Char) : Except BodyFault (Option String × List Char) :=
  match skipGap cs with
  | 'n' :: rest =>
    match Json.readWord "null" .null ('n' :: rest) with
    | some r => .ok (none, r.2)
    | none => .error .malformed
  | cs => (text cs).map fun r => (some r.1, r.2)

/-- The fields read so far. -/
structure Draft where
  rootPath : Option String := none
  language : Option String := none
  name : Option (Option String) := none

def Draft.finish (d : Draft) : Except BodyFault Registration :=
  match d.rootPath, d.language with
  | some rootPath, some language => .ok ⟨rootPath, language, d.name.join⟩
  | _, _ => .error .wrongShape

def afterColon (cs : List Char) : Except BodyFault (List Char) :=
  match skipGap cs with
  | ':' :: rest => .ok rest
  | _ => .error .malformed

/-- The value of a member, put into its field. A field may come once. -/
def member (d : Draft) (key : String) (cs : List Char) : Except BodyFault (Draft × List Char) := do
  if key == "root_path" then
    if d.rootPath.isSome then throw .wrongShape
    let (value, rest) ← text (← afterColon cs)
    pure ({ d with rootPath := some value }, rest)
  else if key == "language" then
    if d.language.isSome then throw .wrongShape
    let (value, rest) ← text (← afterColon cs)
    pure ({ d with language := some value }, rest)
  else if key == "name" then
    if d.name.isSome then throw .wrongShape
    let (value, rest) ← optionalText (← afterColon cs)
    pure ({ d with name := some value }, rest)
  else
    match Json.skipValue (← afterColon cs) with
    | some rest => pure (d, rest)
    | none => throw .malformed

/-- The members of an object from a key on, up to its closing brace. -/
def members (d : Draft) : (fuel : Nat) → List Char → Except BodyFault (Registration × List Char)
  | 0, _ => .error .malformed
  | fuel + 1, cs => do
    match Json.readString (skipGap cs) with
    | none => throw .malformed
    | some (key, rest) =>
      let (d, rest) ← member d key rest
      match skipGap rest with
      | ',' :: rest => members d fuel rest
      | '\x7d' :: rest => pure (← d.finish, rest)
      | _ => throw .malformed

def nextElement (cs : List Char) : Except BodyFault (List Char) :=
  match skipGap cs with
  | ',' :: rest =>
    match skipGap rest with
    | ']' :: _ => .error .malformed
    | _ => .ok rest
  | ']' :: _ => .error .wrongShape
  | _ => .error .malformed

/-- The fields of an array after its opening bracket. -/
def elements (cs : List Char) : Except BodyFault (Registration × List Char) := do
  if (skipGap cs).head? == some ']' then throw .wrongShape
  let (rootPath, rest) ← text cs
  let (language, rest) ← text (← nextElement rest)
  match skipGap rest with
  | ']' :: rest => pure (⟨rootPath, language, none⟩, rest)
  | _ =>
    let (name, rest) ← optionalText (← nextElement rest)
    match skipGap rest with
    | ']' :: rest => pure (⟨rootPath, language, name⟩, rest)
    | _ => throw .malformed

/-- The registration that a whole body spells. -/
def parse (body : String) : Except BodyFault Registration := do
  let (registration, rest) ←
    match skipGap body.toList with
    | '\x7b' :: rest =>
      match skipGap rest with
      | '\x7d' :: _ => throw .wrongShape
      | rest => members {} (rest.length + 1) rest
    | '[' :: rest => elements rest
    | cs => throw (mismatch cs)
  if (skipGap rest).isEmpty then pure registration else throw .malformed

end Registration

end CodeAtlas.Http
