import CodeAtlas.Json.Parser
import CodeAtlas.Json.Records
import CodeAtlas.Store.Basic
import CodeAtlas.Text.Utf8

/-! # Images of the store

A store is kept in a file as JSON text: its tables, each with the last id that it handed
out. An empty file is an empty store.
-/

namespace CodeAtlas

namespace Image

/-! ## Writing -/

def rowJson {α : Type} (write : α → List Json) (r : Row α) : Json :=
  .array (.integer r.id :: write r.data)

def tableJson {α : Type} (write : α → List Json) (t : Table α) : Json :=
  .array [.integer t.lastId, .array (t.rows.map (rowJson write))]

def ownedItems {α : Type} (write : α → List Json) (o : Owned α) : List Json :=
  .integer o.owner :: write o.item

def codebaseItems (c : Codebase) : List Json :=
  [.string c.rootPath, .string c.language, .string c.name, .ofOption .string c.commit,
    .ofOption .string c.indexedAt]

def fileItems (f : FileEntry) : List Json :=
  [.integer f.codebase, .string f.path, .string f.hash, .string f.language, .nat f.lineCount]

def symbolItems (s : Symbol) : List Json :=
  [.string s.fqn, .string s.name, .string s.kind.text, .nat s.lineStart, .nat s.lineEnd,
    .string s.signature, .string s.parent, .string s.visibility.text]

def callItems (e : CallEdge) : List Json :=
  [.string e.caller, .string e.callee, .string e.callType.text, .nat e.line,
    .decimal e.confidence]

def annotationItems (a : Annotation) : List Json :=
  [.string a.symbol, .string a.name, .string a.scope.text,
    .object (a.params.map fun p => (p.1, .string p.2))]

def importItems (i : Import) : List Json := [.string i.path, .string i.kind.text]

/-! ## Reading -/

def text? : Json → Option String
  | .string s => some s
  | _ => none

def optionalText? : Json → Option (Option String)
  | .null => some none
  | j => (text? j).map some

def int? : Json → Option Int
  | .integer n => some n
  | _ => none

def nat? (j : Json) : Option Nat := (int? j).map Int.toNat

def double? : Json → Option Binary64
  | .decimal x => some x
  | _ => none

def row? {α : Type} (read : List Json → Option α) : Json → Option (Row α)
  | .array (id :: items) => do pure ⟨← int? id, ← read items⟩
  | _ => none

def table? {α : Type} (read : List Json → Option α) : Json → Option (Table α)
  | .array [last, .array rows] => do pure ⟨← rows.mapM (row? read), ← int? last⟩
  | _ => none

def owned? {α : Type} (read : List Json → Option α) : List Json → Option (Owned α)
  | owner :: items => do pure ⟨← int? owner, ← read items⟩
  | [] => none

def codebase? : List Json → Option Codebase
  | [rootPath, language, name, commit, indexedAt] => do
    pure ⟨← text? rootPath, ← text? language, ← text? name, ← optionalText? commit,
      ← optionalText? indexedAt⟩
  | _ => none

def file? : List Json → Option FileEntry
  | [codebase, path, hash, language, lines] => do
    pure ⟨← int? codebase, ← text? path, ← text? hash, ← text? language, ← nat? lines⟩
  | _ => none

def symbol? : List Json → Option Symbol
  | [fqn, name, kind, lineStart, lineEnd, signature, parent, visibility] => do
    pure ⟨← text? fqn, ← text? name, ← (text? kind).bind SymbolKind.ofText?, ← nat? lineStart,
      ← nat? lineEnd, ← text? signature, ← text? parent,
      ← (text? visibility).bind Visibility.ofText?⟩
  | _ => none

def call? : List Json → Option CallEdge
  | [caller, callee, callType, line, confidence] => do
    pure ⟨← text? caller, ← text? callee, ← (text? callType).bind CallType.ofText?, ← nat? line,
      ← double? confidence⟩
  | _ => none

def params? : Json → Option (List (String × String))
  | .object members => members.mapM fun m => (text? m.2).map fun v => (m.1, v)
  | _ => none

def annotation? : List Json → Option Annotation
  | [symbol, name, scope, params] => do
    pure ⟨← text? symbol, ← text? name, ← (text? scope).bind AnnotationScope.ofText?,
      ← params? params⟩
  | _ => none

def import? : List Json → Option Import
  | [path, kind] => do pure ⟨← text? path, ← (text? kind).bind ImportKind.ofText?⟩
  | _ => none

end Image

namespace Store

open Image

def toJson (s : Store) : Json :=
  .array
    [tableJson codebaseItems s.codebases, tableJson fileItems s.files,
      tableJson (ownedItems symbolItems) s.symbols, tableJson (ownedItems callItems) s.calls,
      tableJson (ownedItems annotationItems) s.annotations,
      tableJson (ownedItems importItems) s.imports]

def ofJson? : Json → Option Store
  | .array [codebases, files, symbols, calls, annotations, imports] => do
    pure ⟨← table? Image.codebase? codebases, ← table? Image.file? files,
      ← table? (owned? symbol?) symbols,
      ← table? (owned? call?) calls, ← table? (owned? annotation?) annotations,
      ← table? (owned? import?) imports⟩
  | _ => none

def image (s : Store) : List UInt8 := s.toJson.render.toUTF8.toList

def ofImage? (content : List UInt8) : Option Store :=
  if content.isEmpty then some {}
  else ((Text.decode? content).bind Json.parse?).bind ofJson?

end Store

end CodeAtlas
