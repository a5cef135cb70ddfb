import CodeAtlas.Files.Ignore

/-! # Scanning

A scan finds the source files below a root: files with one of the given extensions, and no
excluded name on the way to them. Excluded and ignored directories are not entered.
-/

namespace CodeAtlas

structure Scanner where
  /-- Extensions in lower case. -/
  extensions : List String
  excluded : List String
  useGitIgnore : Bool := true
  deriving Repr, Inhabited

/-- A file that a scan found. -/
structure ScannedFile where
  /-- The names below the root as they are shown, joined by separators. -/
  relPath : String
  /-- Where the file is. -/
  absPath : DiskPath
  deriving Repr, DecidableEq, Inhabited

namespace Scanner

def make (extensions excluded : List String) (useGitIgnore : Bool) : Scanner :=
  ⟨extensions.map Text.asciiLower, excluded, useGitIgnore⟩

/-- Whether a path below the root has a wanted extension and no excluded name. -/
def accepts (s : Scanner) (path : String) : Bool :=
  s.extensions.contains (Text.asciiLower ((Path.extension? path).getD ""))
    && !(Path.names path).any s.excluded.contains

mutual

/-- The files of a tree, as names below its root; `skip` tells which entries are not
visited. -/
def walk (skip : List FileName → Bool → Bool) (here : List FileName) :
    FileTree → List (List FileName)
  | .file _ => [here]
  | .dir es => walkEntries skip here es

def walkEntries (skip : List FileName → Bool → Bool) (here : List FileName) :
    List (FileName × FileTree) → List (List FileName)
  | [] => []
  | (name, t) :: rest =>
    (if skip (here ++ [name]) t.isDir then [] else walk skip (here ++ [name]) t)
      ++ walkEntries skip here rest

end

def skips (s : Scanner) (t : FileTree) (root path : List FileName) (isDir : Bool) : Bool :=
  (isDir && (path.getLast?.map FileName.shown).any s.excluded.contains)
    || Ignore.isIgnored t s.useGitIgnore (root ++ path) isDir

def fileBelow (root names : List FileName) : ScannedFile :=
  ⟨FileName.shownPath names, .absolute (root ++ names)⟩

/-- The accepted files below a place of a tree, by relative path. -/
def scanAt (s : Scanner) (t : FileTree) (root : List FileName) : List ScannedFile :=
  let found := ((t.at? root).map (walk (s.skips t root) [])).getD []
  ((found.map (fileBelow root)).filter fun f => s.accepts f.relPath).mergeSort
    fun a b => Text.bytesLe a.relPath b.relPath

/-- The accepted files below the place that a path leads to. -/
def scan (s : Scanner) (t : FileTree) (cwd : List FileName) (root : String) :
    Except Error (List ScannedFile) :=
  match t.resolve cwd root with
  | .error fault => .error (.file fault)
  | .ok names => .ok (s.scanAt t names)

end Scanner

end CodeAtlas
