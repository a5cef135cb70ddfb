import CodeAtlas.Cli.Arguments
import CodeAtlas.Files.Tree
import CodeAtlas.Store.Image

/-! # The database file

The store of a command is kept in a file. The directory of the file is made when it is not
there. Without a path, or in memory, nothing is kept.
-/

namespace CodeAtlas.Cli

/-- An open database: its store, and the place of its file when it has one. -/
structure Database where
  store : Store
  place : Option (List FileName)

/-- Make the directories that components lead through, from a place that exists. -/
def makeDirs (t : FileTree) (here : List FileName) :
    List Path.Component → Except FileFault (FileTree × List FileName)
  | [] => .ok (t, here)
  | c :: rest =>
    match c with
    | .root => makeDirs t [] rest
    | .current => makeDirs t here rest
    | .parent => makeDirs t here.dropLast rest
    | .normal name =>
      let place := here ++ [.text name]
      match t.at? place with
      | some (.dir _) => makeDirs t place rest
      | some (.file _) => .error (if rest.isEmpty then .alreadyExists else .notADirectory)
      | none => makeDirs (t.makeDir place) place rest

/-- The directory part of a path, empty when it has none. -/
def directoryOf (path : String) : String :=
  let rest := (path.toList.reverse.dropWhile (· == '/')).dropWhile (· != '/')
  let dir := rest.dropWhile (· == '/')
  if dir.isEmpty && !rest.isEmpty then "/" else String.ofList dir.reverse

def isTransient (settings : Settings) : Bool :=
  settings.inMemory || settings.databasePath.isEmpty || settings.databasePath == ":memory:"

/-- The database of a path, whose directory is there. -/
def openAt (t : FileTree) (dir : List FileName) (path : String) : Except Error Database :=
  match Path.fileName? path with
  | none => .error (.cannotOpen path)
  | some name =>
    let place := dir ++ [.text name]
    if Text.finishesWith path "/" then .error (.cannotOpen path)
    else
      match t.at? place with
      | none => .ok ⟨{}, some place⟩
      | some (.dir _) => .error (.cannotOpen path)
      | some (.file content) =>
        match Store.ofImage? content with
        | some store => .ok ⟨store, some place⟩
        | none => .error .notADatabase

def openDatabase (t : FileTree) (cwd : List FileName) (settings : Settings) :
    Except Failure (FileTree × Database) :=
  if isTransient settings then .ok (t, ⟨{}, none⟩)
  else
    let path := settings.databasePath
    let dir := directoryOf path
    match makeDirs t cwd (Path.components dir) with
    | .error fault =>
      .error ⟨s!"Cannot create database directory {dir}", [fault.message]⟩
    | .ok (t, place) =>
      match openAt t place path with
      | .error e => .error (.inContext s!"Cannot open database {path}" e)
      | .ok database => .ok (t, database)

def Database.save (d : Database) (t : FileTree) : FileTree :=
  match d.place with
  | some place => t.write place d.store.image
  | none => t

end CodeAtlas.Cli
