import CodeAtlas.Text.Blank

/-! # Paths

A path is read as components: repeated separators and inner dots do not count.
-/

namespace CodeAtlas.Path

inductive Component where
  | root
  | current
  | parent
  | normal (name : String)
  deriving Repr, DecidableEq, Inhabited

/-- The component that a piece between separators is; a dot counts only in front. -/
def component? (first : Bool) (piece : String) : Option Component :=
  if piece.isEmpty then none
  else if piece == "." then (if first then some .current else none)
  else if piece == ".." then some .parent
  else some (.normal piece)

def components (path : String) : List Component :=
  match Text.pieces '/' path with
  | [] => []
  | first :: rest =>
    if first.isEmpty && !rest.isEmpty then .root :: rest.filterMap (component? false)
    else (component? true first).toList ++ rest.filterMap (component? false)

def Component.name? : Component → Option String
  | .normal name => some name
  | _ => none

def names (path : String) : List String := (components path).filterMap Component.name?

def fileName? (path : String) : Option String := (components path).getLast?.bind Component.name?

/-- What follows the last dot of the file name. A dot in front is no separator. -/
def extension? (path : String) : Option String :=
  match fileName? path with
  | none => none
  | some name =>
    let stem := (name.toList.reverse.dropWhile (· != '.')).drop 1
    if stem.isEmpty then none
    else some (String.ofList (name.toList.reverse.takeWhile (· != '.')).reverse)

/-- The components of `path` after those of `root`, or all of them when it lies elsewhere. -/
def within : (root path : List Component) → Option (List Component)
  | [], path => some path
  | _ :: _, [] => none
  | r :: root, p :: path => if r == p then within root path else none

/-- The names of a path below a root, joined by separators. -/
def relative (root path : String) : String :=
  let all := components path
  let rest := (within (components root) all).getD all
  "/".intercalate (rest.filterMap Component.name?)

def absolute (names : List String) : String := "/" ++ "/".intercalate names

/-- A path put behind a directory. An absolute path stands for itself. -/
def join (dir path : String) : String :=
  if Text.beginsWith path "/" then path
  else if dir.isEmpty then path
  else if Text.finishesWith dir "/" then dir ++ path
  else dir ++ "/" ++ path

end CodeAtlas.Path
