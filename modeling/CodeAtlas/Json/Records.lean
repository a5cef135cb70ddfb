import CodeAtlas.Json.Basic
import CodeAtlas.Symbol

/-! # Records as JSON -/

namespace CodeAtlas

open Json

def Symbol.members (s : Symbol) : List (String × Json) :=
  [("fqn", .string s.fqn), ("name", .string s.name), ("symbol_type", .string s.kind.text),
    ("line_start", nat s.lineStart), ("line_end", nat s.lineEnd),
    ("signature", .string s.signature), ("parent_fqn", .string s.parent),
    ("visibility", .string s.visibility.text)]

def CallEdge.members (e : CallEdge) : List (String × Json) :=
  [("caller_fqn", .string e.caller), ("callee_fqn", .string e.callee),
    ("call_type", .string e.callType.text), ("line", nat e.line),
    ("confidence", .decimal e.confidence)]

def Annotation.members (a : Annotation) : List (String × Json) :=
  [("symbol_fqn", .string a.symbol), ("annotation_name", .string a.name),
    ("scope", .string a.scope.text),
    ("params", .object (a.params.map fun p => (p.1, .string p.2)))]

def Import.members (i : Import) : List (String × Json) :=
  [("import_path", .string i.path), ("import_type", .string i.kind.text)]

def Outline.toJson (o : Outline) : Json :=
  .object
    [("symbols", .array (o.symbols.map fun s => .object s.members)),
     ("call_edges", .array (o.calls.map fun e => .object e.members)),
     ("annotations", .array (o.annotations.map fun a => .object a.members)),
     ("imports", .array (o.imports.map fun i => .object i.members))]

end CodeAtlas
