import CodeAtlas.Files.Glob
import CodeAtlas.Files.Tree
import CodeAtlas.Text.Utf8

/-! # Ignore files

A directory may hold rules about what below it is left out. A rule of a deeper directory
comes before one of a directory above it, and in one file the last rule that matches
decides. Rules for every tool come before those for version control, which count only
inside a repository.
-/

namespace CodeAtlas.Ignore

open Text (finishesWith beginsWith)

/-- One line of an ignore file. -/
structure Rule where
  glob : List Glob.Part
  /-- The rule takes back an earlier one. -/
  keeps : Bool
  onlyDirs : Bool

/-- A line without the blanks at its end, unless the last one is escaped. -/
def trimmedLine (line : String) : String :=
  if finishesWith line "\\ " then line
  else String.ofList (line.toList.reverse.dropWhile Text.isBlank).reverse

/-- A glob that names no directory matches at any depth, and one that ends in a deep star
does not match the directory itself. -/
def anchoredGlob (anchored : Bool) (body : List Char) : List Char :=
  let deep := body == ['*', '*'] || (Text.afterPrefix? ['*', '*', '/'] body).isSome
  let glob :=
    if !anchored && !body.contains '/' && !deep then ['*', '*', '/'] ++ body else body
  if (Text.afterPrefix? ['*', '*', '/'] glob.reverse).isSome then glob ++ ['/', '*'] else glob

/-- The rule on a line; comments, empty lines and malformed globs give none. -/
def ruleOf? (line : String) : Option Rule :=
  if beginsWith line "#" then none
  else
    let line := (trimmedLine line).toList
    if line.isEmpty then none
    else
      let escaped := (Text.afterPrefix? ['\\', '!'] line).isSome
        || (Text.afterPrefix? ['\\', '#'] line).isSome
      let keeps := !escaped && line.head? == some '!'
      let body := if escaped || keeps then line.drop 1 else line
      let anchored := !escaped && body.head? == some '/'
      let body := if anchored then body.drop 1 else body
      let onlyDirs := body.getLast? == some '/'
      let body := if onlyDirs then body.dropLast else body
      let body := if onlyDirs && body.getLast? == some '\\' then body.dropLast else body
      (Glob.parse? (anchoredGlob anchored body)).map fun glob => ⟨glob, keeps, onlyDirs⟩

/-- The lines of a byte string. There is always at least one. -/
def byteLines : List UInt8 → List (List UInt8)
  | [] => [[]]
  | b :: bs =>
    match byteLines bs with
    | [] => [[b]]
    | line :: lines => if b == 0x0A then [] :: line :: lines else (b :: line) :: lines

/-- The texts in front of a list, up to the first that is not well-formed. -/
def readable : List (List UInt8) → List String
  | [] => []
  | line :: lines =>
    match Text.decode? line with
    | some s => s :: readable lines
    | none => []

/-- The lines of an ignore file without a carriage return at their ends. Reading stops at a line
that is no text, and marks of the byte order in front of the first line do not count. -/
def linesOf (content : List UInt8) : List String :=
  let lines := (readable (byteLines content)).map fun l =>
    if finishesWith l "\r" then String.ofList l.toList.dropLast else l
  match lines with
  | [] => []
  | first :: rest => String.ofList (first.toList.dropWhile (·.toNat == 0xFEFF)) :: rest

def rulesOf (content : List UInt8) : List Rule := (linesOf content).filterMap ruleOf?

/-- What the rules of a directory say about a path below it: whether to leave it out. -/
def verdict? (rules : List Rule) (path : List FileName) (isDir : Bool) : Option Bool :=
  let text := [Glob.separator].intercalate (path.map FileName.bytes)
  (rules.reverse.find? fun r => (isDir || !r.onlyDirs) && Glob.isMatch r.glob text).map
    fun r => !r.keeps

def rulesAt (t : FileTree) (path : List FileName) : List Rule :=
  match t.at? path with
  | some (.file content) => rulesOf content
  | _ => []

/-- The directories above a path, the nearest first, each with the rest of the path. -/
def above (path : List FileName) : List (List FileName × List FileName) :=
  ((List.range path.length).map fun n => (path.take n, path.drop n)).reverse

def nearest? (verdict : List FileName × List FileName → Option Bool)
    (dirs : List (List FileName × List FileName)) : Option Bool := dirs.findSome? verdict

def isRepository (t : FileTree) (dir : List FileName) : Bool :=
  (t.at? (dir ++ [.text ".git"])).isSome

/-- The directories up to and with the nearest one that holds a repository. -/
def withinRepository (t : FileTree) :
    List (List FileName × List FileName) → List (List FileName × List FileName)
  | [] => []
  | d :: ds => if isRepository t d.1 then [d] else d :: withinRepository t ds

/-- Whether ignore files leave out a path of a tree. -/
def isIgnored (t : FileTree) (useGit : Bool) (path : List FileName) (isDir : Bool) : Bool :=
  let dirs := above path
  let fromFile (file : List FileName) (dirs : List (List FileName × List FileName)) :=
    nearest? (fun d => verdict? (rulesAt t (d.1 ++ file)) d.2 isDir) dirs
  let inRepository := useGit && dirs.any fun d => isRepository t d.1
  let fromGit (file : List FileName) : Option Bool :=
    if inRepository then fromFile file (withinRepository t dirs) else none
  (((fromFile [".ignore"] dirs).or (fromGit [".gitignore"])).or
    (fromGit [".git", "info", "exclude"])).getD false

end CodeAtlas.Ignore
