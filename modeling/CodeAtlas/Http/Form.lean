import CodeAtlas.Json.Parser
import CodeAtlas.Number.Reader
import CodeAtlas.Text.Blank
import CodeAtlas.Text.Utf8

/-! # Query strings

A query string is a list of keys and values. A plus stands for a space, and a percent sign
with two hexadecimal digits for a byte. A field of a request may be given once; keys that
no field has are ignored.
-/

namespace CodeAtlas.Http

/-- The bytes that a text with percent signs stands for. A percent sign without two
hexadecimal digits stands for itself. -/
def percentBytes : List UInt8 → List UInt8
  | 0x25 :: a :: b :: rest =>
    match Json.hexValue? (Char.ofNat a.toNat), Json.hexValue? (Char.ofNat b.toNat) with
    | some x, some y => UInt8.ofNat (x * 16 + y) :: percentBytes rest
    | _, _ => 0x25 :: percentBytes (a :: b :: rest)
  | c :: rest => c :: percentBytes rest
  | [] => []

/-- The text of a path segment, when its bytes are text. -/
def decodeSegment? (s : String) : Option String := Text.decode? (percentBytes s.toUTF8.toList)

def decodeField (cs : List Char) : String :=
  Text.decode (percentBytes
    (String.ofList (cs.map fun c => if c == '+' then ' ' else c)).toUTF8.toList)

abbrev Form := List (String × String)

/-- A key and the value after the first equals sign. -/
def pairOf (cs : List Char) : String × String :=
  (decodeField (cs.takeWhile (· != '=')), decodeField ((cs.dropWhile (· != '=')).drop 1))

def formOf (query : String) : Form :=
  ((Text.splitBy (· == '&') query.toList).filter fun p => !p.isEmpty).map pairOf

namespace Form

/-- The value of a field that may be left out. It is an error to give it twice. -/
def field? (f : Form) (key : String) : Option (Option String) :=
  match f.filter fun e => e.1 == key with
  | [] => some none
  | [e] => some (some e.2)
  | _ => none

def required? (f : Form) (key : String) : Option String := (f.field? key).join

/-- The value of a field as something read from its text. It is an error when that fails. -/
def read? {α : Type} (f : Form) (key : String) (read : String → Option α) : Option (Option α) :=
  match f.field? key with
  | none => none
  | some none => some none
  | some (some text) => (read text).map some

def bool? (s : String) : Option Bool :=
  if s == "true" then some true else if s == "false" then some false else none

end Form

end CodeAtlas.Http
