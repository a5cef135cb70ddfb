import CodeAtlas.Http.Form
import CodeAtlas.Query.AnnotationSearch
import CodeAtlas.Query.CallChain
import CodeAtlas.Query.SourceText
import CodeAtlas.Query.SymbolSearch

/-! # Requests in query strings -/

namespace CodeAtlas.Http

def symbolQuery? (f : Form) : Option SymbolQuery := do
  let pattern ← f.required? "pattern"
  let kind ← f.field? "symbol_type"
  let language ← f.field? "language"
  let limit ← f.read? "limit" Number.word64?
  let codebase ← f.read? "codebase_id" Number.int64?
  pure ⟨pattern, kind, language, limit, codebase⟩

def chainQuery? (f : Form) : Option ChainQuery := do
  let fqn ← f.required? "fqn"
  let direction ← f.field? "direction"
  let depth ← f.read? "depth" Number.word32?
  let includeExternal ← f.read? "include_external" Form.bool?
  let minConfidence ← f.read? "min_confidence" Number.binary64?
  let mode ← f.field? "mode"
  let codebase ← f.read? "codebase_id" Number.int64?
  pure ⟨fqn, direction, depth, includeExternal.getD false, minConfidence, mode, codebase⟩

def annotationQuery? (f : Form) : Option AnnotationQuery := do
  let name ← f.required? "annotation"
  let value ← f.field? "value"
  let scope ← f.field? "scope"
  let codebase ← f.read? "codebase_id" Number.int64?
  let limit ← f.read? "limit" Number.word64?
  let offset ← f.read? "offset" Number.word64?
  pure ⟨name, value, scope, codebase, limit, offset⟩

def sourceQuery? (f : Form) : Option SourceQuery := do
  let fqn ← f.required? "fqn"
  let includeBody ← f.read? "include_body" Form.bool?
  let maxTokens ← f.read? "max_tokens" Number.word64?
  let codebase ← f.read? "codebase_id" Number.int64?
  pure ⟨fqn, includeBody, maxTokens, codebase⟩

end CodeAtlas.Http
