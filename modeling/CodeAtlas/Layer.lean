import CodeAtlas.Text.Blank
import CodeAtlas.Text.LetterCase

/-! # Layers

The architectural layer that a qualified name suggests. The innermost segment that looks
like a type name decides by its ending; failing that, the innermost segment that is a
keyword.
-/

namespace CodeAtlas

inductive Layer where
  | entry
  | business
  | storage
  | utility
  | unknown
  deriving Repr, DecidableEq, Inhabited

namespace Layer

def text : Layer → String
  | .entry => "UCC"
  | .business => "BS"
  | .storage => "DAO"
  | .utility => "UTIL"
  | .unknown => "unknown"

/-- The keywords of each layer, in the order in which layers are tried. -/
def keywords : List (Layer × List String) :=
  [(.storage, ["dao", "mapper", "repository", "repo"]),
   (.entry, ["controller", "ucc", "action", "endpoint", "resource"]),
   (.business, ["service", "bs", "biz", "manager"]),
   (.utility, ["util", "utils", "helper", "common"])]

/-- The first layer with a keyword that passes a test. -/
def firstWith? (test : String → Bool) : Option Layer :=
  (keywords.find? fun e => e.2.any test).map fun e => e.1

/-- The innermost segment that starts like a type name. -/
def typeSegment? (segments : List String) : Option String :=
  segments.reverse.find? fun s => (s.toList.head?.map Text.isUppercase).getD false

/-- A name in lower case without the ending that marks an implementation. -/
def stem (name : String) : String :=
  let lower := Text.asciiLower name
  match Text.afterPrefix? "impl".toList.reverse lower.toList.reverse with
  | some rest => String.ofList rest.reverse
  | none => lower

def ofTypeName? (name : String) : Option Layer :=
  firstWith? fun k => Text.finishesWith (stem name) k

def ofSegment? (segment : String) : Option Layer := firstWith? fun k => Text.asciiLower segment == k

def ofName (fqn : String) : Layer :=
  let segments := (Text.pieces '.' fqn).filter fun s => !s.isEmpty
  (((typeSegment? segments).bind ofTypeName?).or (segments.reverse.findSome? ofSegment?)).getD
    .unknown

/-- The statement id that a storage method suggests: its type and its own name. -/
def statementId? (fqn : String) : Option String :=
  let segments := Text.pieces '.' fqn
  match typeSegment? segments, segments.getLast? with
  | some owner, some method => if method == owner then none else some (owner ++ "." ++ method)
  | _, _ => none

end Layer

end CodeAtlas
