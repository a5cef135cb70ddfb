import CodeAtlas.Index.Run
import CodeAtlas.Json.Records
import CodeAtlas.Query.AnnotationSearch
import CodeAtlas.Query.CallChain
import CodeAtlas.Query.SourceText
import CodeAtlas.Query.SymbolSearch
import CodeAtlas.Store.Stats

/-! # Answers as JSON

What the service answers. A member that is left out when there is no value is written with
`Json.optional`; all others are null then.
-/

namespace CodeAtlas

open Json

/-! ## The store -/

def withId (id : Int) (members : List (String × Json)) : List (String × Json) :=
  ("id", .integer id) :: members

def codebaseMembers (r : Row Codebase) : List (String × Json) :=
  withId r.id
    [("root_path", .string r.data.rootPath), ("language", .string r.data.language),
      ("name", .string r.data.name), ("commit_hash", ofOption .string r.data.commit),
      ("last_indexed_at", ofOption .string r.data.indexedAt)]

def codebaseJson (r : Row Codebase) : Json := .object (codebaseMembers r)

def CodebaseSummary.toJson (s : CodebaseSummary) : Json :=
  .object (codebaseMembers s.codebase
    ++ [("file_count", nat s.files), ("symbol_count", nat s.symbols)])

def fileJson (r : Row FileEntry) : Json :=
  .object (withId r.id
    [("codebase_id", .integer r.data.codebase), ("path", .string r.data.path),
      ("content_hash", .string r.data.hash), ("language", .string r.data.language),
      ("line_count", nat r.data.lineCount)])

def PlacedSymbol.members (p : PlacedSymbol) : List (String × Json) :=
  withId p.id (("file_id", .integer p.file.id) :: p.symbol.members)

def PlacedSymbol.toJson (p : PlacedSymbol) : Json := .object p.members

/-- The members of a symbol with its ids and its file. -/
def PlacedSymbol.fullMembers (p : PlacedSymbol) : List (String × Json) :=
  p.members ++ [("codebase_id", .integer p.file.data.codebase),
    ("file_path", .string p.file.data.path), ("language", .string p.file.data.language)]

def callJson (r : Row (Owned CallEdge)) : Json := .object (withId r.id r.data.item.members)

def annotationMembers (r : Row (Owned Annotation)) : List (String × Json) :=
  withId r.id r.data.item.members ++ [("codebase_id", .integer r.data.owner)]

def StoreStats.toJson (s : StoreStats) : Json :=
  .object
    [("codebases", nat s.codebases), ("files", nat s.files), ("symbols", nat s.symbols),
      ("call_edges", nat s.calls), ("annotations", nat s.annotations),
      ("imports", nat s.imports)]

/-! ## Queries -/

def faultMember (fault : Option QueryFault) : List (String × Json) :=
  optional "error" (fun f => .string f.message) fault

def SymbolAnswer.toJson (a : SymbolAnswer) : Json :=
  .object
    ([("pattern", .string a.pattern),
      ("results", .array (a.results.map fun h =>
        .object (h.symbol.fullMembers ++ [("score", .decimal h.score)]))),
      ("total", nat a.results.length)] ++ faultMember a.fault)

def AnnotationHit.toJson (h : AnnotationHit) : Json :=
  .object (annotationMembers h.row
    ++ optional "file_path" (fun p => .string p.file.data.path) h.place
    ++ optional "line" (fun p => nat p.symbol.lineStart) h.place)

def AnnotationAnswer.toJson (a : AnnotationAnswer) : Json :=
  .object
    ([("annotation", .string a.name),
      ("results", .array (a.results.map AnnotationHit.toJson)), ("total", nat a.total),
      ("limit", nat a.limit), ("offset", nat a.offset)] ++ faultMember a.fault)

def SourceAnswer.toJson (a : SourceAnswer) : Json :=
  .object
    ([("fqn", .string a.fqn), ("found", .bool a.target.isSome)]
      ++ optional "symbol_type" (fun t => .string t.symbol.symbol.kind.text) a.target
      ++ optional "file_path" (fun t => .string t.symbol.file.data.path) a.target
      ++ optional "line_start" (fun t => nat t.symbol.symbol.lineStart) a.target
      ++ optional "line_end" (fun t => nat t.symbol.symbol.lineEnd) a.target
      ++ [("source", .string a.source), ("truncated", .bool a.truncated),
        ("overloads", nat ((a.target.map SourceTarget.overloads).getD 0))]
      ++ faultMember a.fault)

def ChainCall.toJson (c : ChainCall) : Json :=
  .object
    [("fqn", .string c.fqn), ("line", nat c.line), ("confidence", .decimal c.confidence),
      ("call_type", .string c.callType.text)]

def ChainNode.toJson (n : ChainNode) : Json :=
  .object
    ([("fqn", .string n.fqn), ("depth", nat n.depth), ("layer", .string n.layer.text)]
      ++ optional "sql_id" .string n.statementId?
      ++ [("calls", .array (n.calls.map ChainCall.toJson))])

def externalCallJson (e : CallEdge) : Json :=
  .object
    [("caller_fqn", .string e.caller), ("callee_fqn", .string e.callee), ("line", nat e.line),
      ("confidence", .decimal e.confidence)]

def ChainFindings.members (f : ChainFindings) : List (String × Json) :=
  [("found", .bool f.found), ("direction", .string f.direction.text),
    ("mode", .string f.mode.text), ("depth", nat f.depth),
    ("min_confidence", .decimal f.minConfidence),
    ("nodes", .array (f.nodes.map ChainNode.toJson)),
    ("external_calls", .array (f.externalCalls.map externalCallJson)),
    ("edge_count", nat f.edgeCount)]

def noFindings (fault : QueryFault) : List (String × Json) :=
  [("found", .bool false), ("direction", .null), ("mode", .null), ("depth", nat 0),
    ("min_confidence", .decimal .zero), ("nodes", .array []), ("external_calls", .array []),
    ("edge_count", nat 0), ("error", .string fault.message)]

def ChainAnswer.toJson (a : ChainAnswer) : Json :=
  .object (("root", .string a.root)
    :: (match a.outcome with
      | .ok f => f.members
      | .error fault => noFindings fault))

/-! ## Runs -/

def IndexStatus.toJson (s : IndexStatus) : Json :=
  .object
    [("status", .string s.state.text), ("progress", .decimal s.progress),
      ("files_total", nat s.filesTotal), ("files_done", nat s.filesDone),
      ("message", .string s.message)]

def IndexSummary.toJson (s : IndexSummary) : Json :=
  .object
    [("codebase_id", .integer s.codebase), ("mode", .string s.mode.text),
      ("files_total", nat s.filesTotal), ("files_indexed", nat s.indexed),
      ("files_skipped", nat s.unchanged), ("files_deleted", nat s.deleted),
      ("files_failed", nat s.failed), ("commit_hash", ofOption .string s.commit)]

end CodeAtlas
