import CodeAtlas.Error
import CodeAtlas.Files.Name

/-! # File trees

A file tree is a directory of files and directories, as seen at one moment. Paths are
followed from its root, or from a working directory when they are relative.
-/

namespace CodeAtlas

inductive FileTree where
  | file (content : List UInt8)
  | dir (entries : List (FileName × FileTree))
  deriving Inhabited

namespace FileTree

def empty : FileTree := .dir []

def isDir : FileTree → Bool
  | .dir _ => true
  | .file _ => false

def entries : FileTree → List (FileName × FileTree)
  | .dir es => es
  | .file _ => []

def entry? (t : FileTree) (name : FileName) : Option FileTree :=
  (t.entries.find? fun e => e.1 == name).map fun e => e.2

def at? (t : FileTree) : List FileName → Option FileTree
  | [] => some t
  | name :: rest =>
    match t.entry? name with
    | some child => child.at? rest
    | none => none

/-- A directory listing with one entry set. New entries come last. -/
def setEntry (name : FileName) (child : FileTree) :
    List (FileName × FileTree) → List (FileName × FileTree)
  | [] => [(name, child)]
  | e :: rest => if e.1 == name then (name, child) :: rest else e :: setEntry name child rest

/-- The tree with something put at a list of names. Directories on the way are made. -/
def put (t : FileTree) (new : FileTree) : List FileName → FileTree
  | [] => new
  | name :: rest =>
    let child := (t.entry? name).getD empty
    .dir (setEntry name (child.put new rest) t.entries)

def write (t : FileTree) (path : List FileName) (content : List UInt8) : FileTree :=
  t.put (.file content) path

/-- The tree with a directory made, where there is none yet. -/
def makeDir (t : FileTree) (path : List FileName) : FileTree :=
  match t.at? path with
  | some (.dir _) => t
  | _ => t.put empty path

/-- The tree without the file or directory at a list of names. -/
def remove (t : FileTree) : List FileName → FileTree
  | [] => t
  | [name] => .dir (t.entries.filter fun e => e.1 != name)
  | name :: rest =>
    match t.entry? name with
    | some child => .dir (setEntry name (child.remove rest) t.entries)
    | none => t

def maxName : Nat := 255

def maxPath : Nat := 4095

/-- Follow the pieces of a path between its separators from a place that exists, given by its
names. Every piece, also an empty one, leads on from a directory only. -/
def follow (t : FileTree) (here : List FileName) :
    List FileName → Except FileFault (List FileName)
  | [] => .ok here
  | piece :: rest =>
    match t.at? here with
    | some (.dir es) =>
      if piece = .text "" ∨ piece = .text "." then t.follow here rest
      else if piece = .text ".." then t.follow here.dropLast rest
      else if maxName < piece.size then .error .nameTooLong
      else if es.any fun e => e.1 == piece then t.follow (here ++ [piece]) rest
      else .error .notFound
    | _ => .error .notADirectory

/-- The names of the place that a path leads to from a working directory. -/
def resolve (t : FileTree) (cwd : List FileName) (path : DiskPath) :
    Except FileFault (List FileName) :=
  if path.pieces.any FileName.hasNul then .error .nulInName
  else if path.size = 0 then .error .notFound
  else if maxPath < path.size then .error .nameTooLong
  else
    match path.pieces with
    | .text "" :: rest => t.follow [] rest
    | pieces => t.follow cwd pieces

def isDirAt (t : FileTree) (cwd : List FileName) (path : DiskPath) : Bool :=
  match t.resolve cwd path with
  | .ok names => ((t.at? names).map isDir) == some true
  | .error _ => false

def isFileAt (t : FileTree) (cwd : List FileName) (path : DiskPath) : Bool :=
  match t.resolve cwd path with
  | .ok names => ((t.at? names).map isDir) == some false
  | .error _ => false

def read (t : FileTree) (cwd : List FileName) (path : DiskPath) : Except FileFault (List UInt8) :=
  match t.resolve cwd path with
  | .error fault => .error fault
  | .ok names =>
    match t.at? names with
    | some (.file content) => .ok content
    | some (.dir _) => .error .isADirectory
    | none => .error .notFound

end FileTree

end CodeAtlas
