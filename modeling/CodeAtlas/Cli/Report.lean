import CodeAtlas.Index.Run
import CodeAtlas.Number.Fixed
import CodeAtlas.Query.CallChain
import CodeAtlas.Query.SymbolSearch
import CodeAtlas.Settings
import CodeAtlas.Store.Stats

/-! # What commands print -/

namespace CodeAtlas.Cli

open QueryFault (quoted)

def unlines (lines : List String) : String := String.join (lines.map fun l => l ++ "\n")

def usage : String :=
  unlines
    ["codescope: code intelligence indexing service",
     "",
     "USAGE:",
     "    codescope <COMMAND> [OPTIONS]",
     "",
     "COMMANDS:",
     "    serve [--port <PORT>]               Start the HTTP API",
     "    index <path> [--full] [--language]  Register and index a codebase",
     "    status                              Show registered codebases and totals",
     "    search <pattern> [--type <TYPE>]    Search for symbols by name (* and ? wildcards)",
     "    chain <fqn> [--up] [--depth <N>]    Print the call chain of a method",
     "    help                                Show this help message",
     "",
     "GLOBAL OPTIONS:",
     "    --db <PATH>       Database file (default: codescope.db, env CODESCOPE_DB)",
     "    --in-memory       Keep the store in memory (serve, index)",
     "",
     "EXAMPLES:",
     "    codescope index ~/projects/loan-service",
     "    codescope search \"*Controller\" --type CLASS",
     "    codescope chain com.acme.loan.web.LoanController.apply --depth 4",
     "    codescope serve --port 8400",
     ""]

def version : String := "codescope 0.1.0\n"

def indexReport (c : Row Codebase) (summary : IndexSummary) (stats : StoreStats) : String :=
  unlines
    (["", s!"Indexing complete! ({summary.mode.text} mode)",
      s!"  Codebase:      {c.data.name} (id {c.id})",
      s!"  Files indexed: {summary.indexed}",
      s!"  Unchanged:     {summary.unchanged}",
      s!"  Removed:       {summary.deleted}"]
      ++ (if 0 < summary.failed then [s!"  Failed:        {summary.failed}"] else [])
      ++ [s!"  Symbols:       {stats.symbols}",
        s!"  Call edges:    {stats.calls}",
        s!"  Annotations:   {stats.annotations}"]
      ++ (match summary.commit with
        | some commit => [s!"  Commit:        {commit}"]
        | none => []))

def codebaseLine (s : CodebaseSummary) : String :=
  let c := s.codebase.data
  s!"  [{s.codebase.id}] {c.name} ({c.language}) {c.rootPath} - {s.files} files, "
    ++ s!"{s.symbols} symbols, last indexed " ++ c.indexedAt.getD "never"

def statusReport (settings : Settings) (store : Store) : String :=
  let stats := store.stats
  let codebases := store.summaries
  unlines
    (["codescope Index Status", "======================"]
      ++ (if settings.inMemory then [] else [s!"Database: {settings.databasePath}"])
      ++ [s!"Codebases: {stats.codebases}", s!"Files: {stats.files}",
        s!"Symbols: {stats.symbols}", s!"Call edges: {stats.calls}",
        s!"Annotations: {stats.annotations}", s!"Imports: {stats.imports}"]
      ++ (if codebases.isEmpty then [] else ["", "Codebases:"] ++ codebases.map codebaseLine))

def shortened (signature : String) : String :=
  if 80 < signature.length then String.ofList (signature.toList.take 80) ++ "..." else signature

def hitLines (h : SymbolHit) : List String :=
  let s := h.symbol.symbol
  s!"  {s.kind.text} {s.fqn} - {h.symbol.file.data.path}:{s.lineStart} ({h.score.tenths})"
    :: (if s.signature.isEmpty then [] else ["    " ++ shortened s.signature])

def searchReport (pattern : String) (a : SymbolAnswer) : String :=
  match a.fault with
  | some fault => unlines ["Invalid search: " ++ fault.message]
  | none =>
    if a.results.isEmpty then unlines ["No symbols found matching " ++ quoted pattern]
    else
      unlines ([s!"Found {a.results.length} symbols matching " ++ quoted pattern ++ ":", ""]
        ++ a.results.flatMap hitLines)

def nodeLines (arrow : String) (n : ChainNode) : List String :=
  let indent := String.join (List.replicate n.depth "  ")
  let head := s!"{indent}{n.fqn} [{n.layer.text}]"
  (match n.statementId? with
    | some id => head ++ s!" sql:{id}"
    | none => head)
    :: n.calls.map fun c =>
      s!"{indent}  {arrow} {c.fqn} (line {c.line}, {c.confidence.tenths})"

def chainReport (fqn : String) (toCallers : Bool) (a : ChainAnswer) : String :=
  match a.outcome with
  | .error fault => unlines ["Invalid query: " ++ fault.message]
  | .ok f =>
    if !f.found && f.edgeCount == 0 then
      unlines ["No symbol or calls found for " ++ quoted fqn]
    else
      unlines (f.nodes.flatMap (nodeLines (if toCallers then "<-" else "->"))
        ++ ["", s!"{f.nodes.length} nodes, {f.edgeCount} edges"])

end CodeAtlas.Cli
