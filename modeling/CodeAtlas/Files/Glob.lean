import CodeAtlas.Text.Blank

/-! # Globs over paths

A glob is matched against the bytes of a whole path whose segments are joined by slashes. A
star stays within a segment; two stars that fill a segment stand for any number of segments.
Braces list alternatives and may nest.
-/

namespace CodeAtlas.Glob

inductive Part where
  | byte (b : UInt8)
  /-- Any one byte but a separator. -/
  | anyByte
  /-- Any run of bytes without a separator. -/
  | anyRun
  /-- Any number of whole segments in front of the path. -/
  | deepFront
  /-- Everything inside a directory. -/
  | deepBack
  /-- Any number of whole segments between two. -/
  | deepMiddle
  /-- One byte within, or outside of, ranges. -/
  | oneOf (negated : Bool) (ranges : List (UInt8 × UInt8))
  /-- One of several sequences. Without any it stands for the empty run. -/
  | choice (branches : List (List Part))

def separator : UInt8 := 0x2F

def bytesOf (c : Char) : List UInt8 := c.toString.toUTF8.toList

/-! ## Matching -/

def ends : List UInt8 → List (List UInt8)
  | [] => [[]]
  | b :: bs => (b :: bs) :: ends bs

/-- The ends that a run without separators can lead to. -/
def runEnds : List UInt8 → List (List UInt8)
  | [] => [[]]
  | b :: bs => if b == separator then [b :: bs] else (b :: bs) :: runEnds bs

def afterSeparators : List UInt8 → List (List UInt8)
  | [] => []
  | b :: bs => if b == separator then bs :: afterSeparators bs else afterSeparators bs

def inClass (negated : Bool) (ranges : List (UInt8 × UInt8)) (b : UInt8) : Bool :=
  (ranges.any fun r => r.1 ≤ b && b ≤ r.2) != negated

/-- The end after one byte that satisfies `p`. -/
def afterByte (p : UInt8 → Bool) : List UInt8 → List (List UInt8)
  | b :: bs => if p b then [bs] else []
  | [] => []

def distinct (ends : List (List UInt8)) : List (List UInt8) :=
  ends.foldr (fun e kept => if kept.any fun k => k.length == e.length then kept else e :: kept) []

mutual

def Part.after (text : List UInt8) : Part → List (List UInt8)
  | .byte b => afterByte (· == b) text
  | .anyByte => afterByte (· != separator) text
  | .anyRun => runEnds text
  | .deepFront => text :: afterSeparators text
  | .deepMiddle =>
    match text with
    | b :: bs => if b == separator then bs :: afterSeparators bs else []
    | [] => []
  | .deepBack =>
    match text with
    | b :: bs => if b == separator then ends bs else []
    | [] => []
  | .oneOf negated ranges => afterByte (inClass negated ranges) text
  | .choice branches => if branches.isEmpty then [text] else afterAny text branches

/-- The ends that a sequence of parts can lead to from any of the given ones. -/
def afterAll (texts : List (List UInt8)) : List Part → List (List UInt8)
  | [] => texts
  | p :: ps => afterAll (distinct (texts.flatMap fun t => p.after t)) ps

/-- The ends that one of several sequences can lead to. -/
def afterAny (text : List UInt8) : List (List Part) → List (List UInt8)
  | [] => []
  | branch :: branches => afterAll [text] branch ++ afterAny text branches

end

/-- Whether a glob matches a whole path. A lone deep front stands for every path. -/
def isMatch (glob : List Part) (path : List UInt8) : Bool :=
  match glob with
  | [.deepFront] => true
  | _ => (afterAll [path] glob).any List.isEmpty

/-! ## Reading -/

/-- What a bracket expression turns out to be. -/
inductive ClassReading where
  /-- Ranges of characters, and the text after the closing bracket. -/
  | ranges (members : List (Char × Char)) (rest : List Char)
  /-- There is no closing bracket. -/
  | unclosed
  /-- A range ends before it begins. -/
  | backward

/-- Read the members of a bracket expression; `read` holds those before, last first. A closing
bracket in front is an ordinary member, a hyphen between two members spans a range from the
start of the one before it, and a hyphen at either end stands for itself. -/
def readMembers (first spanning : Bool) (read : List (Char × Char)) : List Char → ClassReading
  | [] => .unclosed
  | c :: cs =>
    if c == ']' && !first then
      .ranges ((if spanning then ('-', '-') :: read else read).reverse) cs
    else if c == '-' && !first && !spanning then readMembers false true read cs
    else
      match spanning, read with
      | true, (lo, _) :: before =>
        if c < lo then .backward else readMembers false false ((lo, c) :: before) cs
      | _, _ => readMembers false false ((c, c) :: read) cs

/-- A range of characters as ranges of bytes. Only the last byte of its first character and
the first byte of its last one are joined; the others stand for themselves. -/
def byteRanges (r : Char × Char) : List (UInt8 × UInt8) :=
  let los := bytesOf r.1
  if r.1 == r.2 then los.map fun b => (b, b)
  else
    let his := bytesOf r.2
    (los.dropLast.map fun b => (b, b)) ++ [(los.getLastD 0, his.headD 0)]
      ++ (his.drop 1).map fun b => (b, b)

def Part.isVoid : Part → Bool
  | .choice [] => true
  | _ => false

/-- A group of alternatives; those with nothing in them do not count. -/
def group (branches : List (List Part)) : Part :=
  .choice (branches.filter fun b => !b.all Part.isVoid)

/-- A glob being read. -/
structure Draft where
  /-- The parts of the present sequence, last first. -/
  parts : List Part := []
  /-- The finished alternatives of the innermost open group, last first. -/
  branches : List (List Part) := []
  /-- The parts and alternatives around each open group, the innermost first. -/
  outer : List (List Part × List (List Part)) := []
  /-- The character before. -/
  previous : Option Char := none
  /-- An opening bracket was left without a closing one, and all later ones are literal. -/
  plainBrackets : Bool := false

namespace Draft

def push (d : Draft) (new : List Part) (last : Char) : Draft :=
  { d with parts := new.reverse ++ d.parts, previous := some last }

def literal (d : Draft) (c : Char) : Draft := d.push ((bytesOf c).map .byte) c

def isOpen (d : Draft) : Bool := !d.outer.isEmpty

def openGroup (d : Draft) : Draft :=
  { d with
    parts := [], branches := [], outer := (d.parts, d.branches) :: d.outer
    previous := some '\x7b' }

def nextBranch (d : Draft) : Draft :=
  { d with parts := [], branches := d.parts.reverse :: d.branches, previous := some ',' }

def closeGroup? (d : Draft) : Option Draft :=
  match d.outer with
  | [] => none
  | (parts, branches) :: outer =>
    some { d with
      parts := group (d.parts.reverse :: d.branches).reverse :: parts
      branches := branches, outer := outer, previous := some '\x7d' }

/-- Whether two stars can fill a segment here: after a separator, and in a group also after an
escaped comma or brace. -/
def atSegment (d : Draft) : Bool :=
  d.previous == some '/' || (d.isOpen && (d.previous == some ',' || d.previous == some '\x7b'))

/-- Put a deep part in place of the character before it. Deep parts in a row are one. -/
def deepen (d : Draft) (deep : Part) : Draft :=
  match d.parts with
  | .deepFront :: _ => d
  | .deepBack :: _ => d
  | _ => { d with parts := deep :: d.parts.drop 1 }

def twoStars (d : Draft) (rest : List Char) : Draft × List Char :=
  let plain := (d.push [.anyRun] '*', rest)
  match d.parts, rest with
  | [], [] => (d.push [.deepFront] '*', [])
  | [], '/' :: rest => (d.push [.deepFront] '/', rest)
  | [], _ => plain
  | _, _ =>
    if !d.atSegment then plain
    else
      match rest with
      | [] => ({ d.deepen .deepBack with previous := some '*' }, [])
      | '/' :: rest => ({ d.deepen .deepMiddle with previous := some '/' }, rest)
      | c :: _ =>
        if d.isOpen && (c == ',' || c == '\x7d') then
          ({ d.deepen .deepBack with previous := some '*' }, rest)
        else plain

/-- A bracket expression after its opening bracket, with the text after it. -/
def bracket? (d : Draft) (rest : List Char) : Option (Draft × List Char) :=
  let (negated, body) :=
    match rest with
    | '!' :: more => (true, more)
    | '^' :: more => (true, more)
    | _ => (false, rest)
  match readMembers true false [] body with
  | .ranges members rest => some (d.push [.oneOf negated (members.flatMap byteRanges)] ']', rest)
  | .unclosed => some ({ d.literal '[' with plainBrackets := true }, rest)
  | .backward => none

end Draft

/-- Read a glob from a draft on; none when it is malformed. -/
def readFrom (d : Draft) : (fuel : Nat) → List Char → Option (List Part)
  | 0, _ => none
  | fuel + 1, cs =>
    match cs with
    | [] => if d.isOpen then none else some d.parts.reverse
    | '?' :: rest => readFrom (d.push [.anyByte] '?') fuel rest
    | '*' :: '*' :: rest =>
      let (d, rest) := d.twoStars rest
      readFrom d fuel rest
    | '*' :: rest => readFrom (d.push [.anyRun] '*') fuel rest
    | '\x7b' :: rest => readFrom d.openGroup fuel rest
    | '\x7d' :: rest => d.closeGroup?.bind fun d => readFrom d fuel rest
    | '\\' :: c :: rest => readFrom (d.literal c) fuel rest
    | ['\\'] => none
    | c :: rest =>
      if c == '[' && !d.plainBrackets then
        (d.bracket? rest).bind fun r => readFrom r.1 fuel r.2
      else if c == ',' && d.isOpen then readFrom d.nextBranch fuel rest
      else readFrom (d.literal c) fuel rest

/-- The parts of a glob; none when it is malformed. -/
def parse? (glob : List Char) : Option (List Part) := readFrom {} (glob.length + 1) glob

end CodeAtlas.Glob
