import CodeAtlas.Http.Registration
import CodeAtlas.Http.Requests
import CodeAtlas.Json.Answers
import CodeAtlas.Service

/-! # Routes

What the service answers to HTTP requests. A request that no route takes, or whose parts do
not fit, is refused without a body.
-/

namespace CodeAtlas.Http

structure Request where
  method : String
  /-- The path, and the query string after a question mark; a scheme and an authority may
  stand before them. -/
  uri : String
  body : Option String := none
  deriving Repr, DecidableEq, Inhabited

structure Response where
  status : Nat
  body : Option Json := none
  deriving Repr, Inhabited

/-- A resource. Ids stand as they are written. -/
inductive Resource where
  | codebases
  | codebase (id : String)
  | index (id : String)
  | indexStatus (id : String)
  | symbols
  | callChain
  | annotations
  | source
  | semanticSearch
  | health
  | stats
  deriving Repr, DecidableEq, Inhabited

def Resource.ofPath? (path : String) : Option Resource :=
  match Text.pieces '/' path with
  | ["", "codebases"] => some .codebases
  | ["", "codebases", id] => if id.isEmpty then none else some (.codebase id)
  | ["", "codebases", id, "index"] => if id.isEmpty then none else some (.index id)
  | ["", "codebases", id, "index", "status"] => if id.isEmpty then none else some (.indexStatus id)
  | ["", "query", "symbols"] => some .symbols
  | ["", "query", "call-chain"] => some .callChain
  | ["", "query", "annotations"] => some .annotations
  | ["", "query", "source"] => some .source
  | ["", "query", "semantic-search"] => some .semanticSearch
  | ["", "health"] => some .health
  | ["", "stats"] => some .stats
  | _ => none

/-- What is done with a resource. -/
inductive Action where
  | register
  | list
  | delete (id : String)
  | start (id : String)
  | status (id : String)
  | symbols
  | callChain
  | annotations
  | source
  | semanticSearch
  | health
  | stats
  deriving Repr, DecidableEq, Inhabited

def Resource.action? : Resource → (method : String) → Option Action
  | .codebases, "POST" => some .register
  | .codebases, "GET" => some .list
  | .codebase id, "DELETE" => some (.delete id)
  | .index id, "POST" => some (.start id)
  | .indexStatus id, "GET" => some (.status id)
  | .symbols, "GET" => some .symbols
  | .callChain, "GET" => some .callChain
  | .annotations, "GET" => some .annotations
  | .source, "GET" => some .source
  | .semanticSearch, "POST" => some .semanticSearch
  | .health, "GET" => some .health
  | .stats, "GET" => some .stats
  | _, _ => none

/-- The path and the query of a URI: what follows its scheme and authority, when it has them,
and stands before its fragment. -/
def targetOf (uri : String) : List Char :=
  let cs := uri.toList.takeWhile (· != '#')
  if cs.head? == some '/' then cs
  else
    match Text.afterFirst? "://".toList cs with
    | some rest => rest.dropWhile fun c => c != '/' && c != '?'
    | none => cs

def pathOf (uri : String) : String := String.ofList ((targetOf uri).takeWhile (· != '?'))

def queryOf (uri : String) : String :=
  String.ofList (((targetOf uri).dropWhile (· != '?')).drop 1)

def Response.ok (body : Json) : Response := ⟨200, some body⟩

def Response.refused (status : Nat) : Response := ⟨status, none⟩

def statusOf : Error → Nat
  | .codebaseNotFound _ => 404
  | .alreadyIndexing _ => 409
  | .unsupportedLanguage _ => 400
  | .invalidSetting _ _ => 400
  | .noWorkers => 400
  | .notADirectory _ => 400
  | .rootNotADirectory _ => 400
  | .timedOut _ => 504
  | _ => 500

def Response.ofError (e : Error) : Response :=
  ⟨statusOf e, some (.object [("error", .string e.message)])⟩

def bodyFaultStatus : BodyFault → Nat
  | .malformed => 400
  | .wrongShape => 422

def idOf? (segment : String) : Option Int := (decodeSegment? segment).bind Number.int64?

/-- The response to a query that its form may fail to spell. -/
def respondForm {α : Type} (query : Option α) (respond : α → Response) : Response :=
  match query with
  | some q => respond q
  | none => .refused 400

/-- An answer to a query that its form may fail to spell. -/
def answerForm {α : Type} (query : Option α) (answer : α → Json) : Response :=
  respondForm query fun q => .ok (answer q)

def register (s : Service) (w : Surroundings) (body : Option String) : Service × Response :=
  match body with
  | none => (s, .refused 415)
  | some body =>
    match Registration.parse body with
    | .error fault => (s, .refused (bodyFaultStatus fault))
    | .ok r =>
      match s.register w r.rootPath r.language r.name with
      | .ok (s, row) => (s, .ok (codebaseJson row))
      | .error e => (s, .ofError e)

def delete (s : Service) (id : Int) : Service × Response :=
  match s.delete id with
  | .ok s => (s, .ok (.object [("deleted", .integer id)]))
  | .error e => (s, .ofError e)

/-- Claim a run. It is left open, for the caller to take to its end. -/
def start (s : Service) (id : Int) (f : Form) : Service × Response :=
  match f.read? "force_full" Form.bool? with
  | none => (s, .refused 400)
  | some force =>
    let force := force.getD false
    match s.claim id force with
    | .error e => (s, .ofError e)
    | .ok s =>
      (s, ⟨202, some (.object
        [("codebase_id", .integer id), ("status", .string "indexing"),
          ("force_full", .bool force)])⟩)

def status (s : Service) (id : Int) : Response :=
  match s.store.codebase? id with
  | none => .ofError (.codebaseNotFound id)
  | some _ => .ok (s.status id).toJson

def list (s : Service) : Response :=
  let all := s.store.summaries
  .ok (.object
    [("codebases", .array (all.map CodebaseSummary.toJson)), ("total", Json.nat all.length)])

/-- Do something with the id in a path, when it is one. -/
def withPathId (s : Service) (segment : String) (f : Int → Service × Response) :
    Service × Response :=
  match idOf? segment with
  | some id => f id
  | none => (s, .refused 400)

def perform (s : Service) (w : Surroundings) (r : Request) : Action → Service × Response
  | .register => register s w r.body
  | .list => (s, list s)
  | .delete id => withPathId s id (delete s)
  | .start id => withPathId s id fun id => start s id (formOf (queryOf r.uri))
  | .status id => withPathId s id fun id => (s, status s id)
  | .symbols =>
    (s, respondForm (symbolQuery? (formOf (queryOf r.uri))) fun q =>
      match s.store.searchSymbols q with
      | .ok answer => .ok answer.toJson
      | .error e => .ofError e)
  | .callChain =>
    (s, answerForm (chainQuery? (formOf (queryOf r.uri))) fun q => (s.store.callChain q).toJson)
  | .annotations =>
    (s, answerForm (annotationQuery? (formOf (queryOf r.uri))) fun q =>
      (s.store.searchAnnotations q).toJson)
  | .source =>
    (s, answerForm (sourceQuery? (formOf (queryOf r.uri))) fun q =>
      (s.store.readSource w.tree q).toJson)
  | .semanticSearch =>
    (s, ⟨501, some (.object
      [("error", .string "semantic search is not implemented"),
        ("hint", .string "use /query/symbols for name-based search")])⟩)
  | .health => (s, .ok (.object [("status", .string "ok")]))
  | .stats =>
    (s, .ok (.object
      [("stats", s.store.stats.toJson), ("languages", Json.strings s.registry.languages)]))

/-- The answer to a request. A resource that can be got can be asked for without its body. -/
def handle (s : Service) (w : Surroundings) (r : Request) : Service × Response :=
  match Resource.ofPath? (pathOf r.uri) with
  | none => (s, .refused 404)
  | some resource =>
    let method := if r.method == "HEAD" then "GET" else r.method
    match resource.action? method with
    | none => (s, .refused 405)
    | some action =>
      let (s, response) := perform s w r action
      (s, if r.method == "HEAD" then .refused response.status else response)

end CodeAtlas.Http
