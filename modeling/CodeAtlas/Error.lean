/-! # Failures

Why an operation failed. Each cause has one wording.
-/

namespace CodeAtlas

/-- What the file system refuses. -/
inductive FileFault where
  | notFound
  | notADirectory
  | isADirectory
  | alreadyExists
  | nameTooLong
  | nulInName
  | invalidText
  deriving Repr, DecidableEq, Inhabited

def FileFault.message : FileFault → String
  | .notFound => "No such file or directory (os error 2)"
  | .notADirectory => "Not a directory (os error 20)"
  | .isADirectory => "Is a directory (os error 21)"
  | .alreadyExists => "File exists (os error 17)"
  | .nameTooLong => "File name too long (os error 36)"
  | .nulInName => "file name contained an unexpected NUL byte"
  | .invalidText => "stream did not contain valid UTF-8"

inductive Error where
  /-- A row refers to a codebase that is not there. -/
  | danglingReference
  /-- A column that needs a value is given none. -/
  | missingValue (column : String)
  /-- A query for one row finds none. -/
  | noRow
  /-- A search term is cut off by a NUL character. -/
  | unterminatedTerm
  /-- The database file cannot be opened. -/
  | cannotOpen (path : String)
  /-- The database file holds something else. -/
  | notADatabase
  | file (fault : FileFault)
  /-- A source file that its front end refuses. -/
  | unparsable (path reason : String)
  /-- A setting whose value cannot be read. -/
  | invalidSetting (name value : String)
  | noWorkers
  | notADirectory (path : String)
  | rootNotADirectory (path : String)
  | unsupportedLanguage (language : String)
  | codebaseNotFound (id : Int)
  | alreadyIndexing (id : Int)
  | vcs (reason : String)
  | timedOut (seconds : Nat)
  | panicked (reason : String)
  deriving Repr, DecidableEq, Inhabited

namespace Error

def message : Error → String
  | .danglingReference => "database error: FOREIGN KEY constraint failed"
  | .missingValue column => s!"database error: NOT NULL constraint failed: {column}"
  | .noRow => "database error: Query returned no rows"
  | .unterminatedTerm => "database error: unterminated string"
  | .cannotOpen path => s!"database error: unable to open database file: {path}"
  | .notADatabase => "database error: file is not a database"
  | .file fault => s!"I/O error: {fault.message}"
  | .unparsable path reason => s!"failed to parse {path}: {reason}"
  | .invalidSetting name value =>
    s!"configuration error: invalid value for {name}: '" ++ value ++ "'"
  | .noWorkers => "configuration error: CODESCOPE_INDEX_CONCURRENCY must be at least 1"
  | .notADirectory path => s!"configuration error: {path} is not a directory"
  | .rootNotADirectory path => s!"configuration error: codebase root {path} is not a directory"
  | .unsupportedLanguage language => "no parser registered for language '" ++ language ++ "'"
  | .codebaseNotFound id => s!"codebase {id} not found"
  | .alreadyIndexing id => s!"codebase {id} is already being indexed"
  | .vcs reason => s!"vcs error: {reason}"
  | .timedOut seconds => s!"operation timed out after {seconds}s"
  | .panicked reason => s!"index run panicked: {reason}"

/-- What is behind an error, the nearest cause first. -/
def causes : Error → List String
  | .danglingReference =>
    ["FOREIGN KEY constraint failed", "Error code 787: A foreign key constraint failed"]
  | .unterminatedTerm => ["unterminated string", "Error code 1: SQL logic error"]
  | .cannotOpen path =>
    [s!"unable to open database file: {path}", "Error code 14: Unable to open the database file"]
  | .notADatabase =>
    ["file is not a database", "Error code 26: File opened that is not a database file"]
  | .file fault => [fault.message]
  | _ => []

end Error

end CodeAtlas
