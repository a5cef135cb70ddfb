import CodeAtlas.Proofs.Java.Declarations
import Mathlib.Tactic.Choose

/-! # Every call once

The calls of a file are the method invocations below the bodies of its methods and
constructors. Each invocation with a name gives one edge, whatever stands around it in the
body: an argument, a receiver, a lambda, or a class that is declared there. Bodies of two
methods or constructors do not overlap, so no invocation is counted twice, and the edges come
in the order of the tree.
-/

namespace CodeAtlas.Java

/-- Everything of a type, once, in the order of the positions in a tree. -/
structure Enumerates {β : Type} (position : β → List Nat) (bs : List β) : Prop where
  complete : ∀ b, b ∈ bs
  ordered : bs.Pairwise fun a b => Before (position a) (position b)

/-! ## Methods and constructors -/

/-- A method or constructor that is read of a file, with its position, and the name and the
fields of the type that it is in. -/
structure Callable (f : ParsedFile) where
  position : List Nat
  owner : String
  fields : Bindings
  node : Node
  kind : SymbolKind
  name : String
  isRead : f.Visited position (.inType owner fields, node)
  isCallable : callableKind? node.kind = some kind
  isNamed : declaredName? f.source node = some name

namespace Callable

variable {f : ParsedFile} (r : Callable f)

def fqn : String := qualify r.owner (if r.kind == .constructor then "<init>" else r.name)

def symbol : Symbol where
  fqn := r.fqn
  name := r.name
  kind := r.kind
  lineStart := (spanOf f.source f.facts r.node).1
  lineEnd := (spanOf f.source f.facts r.node).2
  signature := callableSignature f.source r.node r.name (modifierTexts f.source r.node)
  parent := r.owner
  visibility := .ofModifiers (modifierTexts f.source r.node)

def calls : List CallEdge := routineCalls f.source f.scope r.owner r.fields r.fqn r.node

/-- What tells a method or constructor from what else is read. -/
def key : List Nat × Place × Node := (r.position, .inType r.owner r.fields, r.node)

theorem key_injective : (key (f := f)).Injective := by
  rintro ⟨p, owner, fields, n, kind, name, hread, hkind, hname⟩
    ⟨p', owner', fields', n', kind', name', hread', hkind', hname'⟩ h
  simp only [key, Prod.mk.injEq, Place.inType.injEq] at h
  obtain ⟨rfl, ⟨rfl, rfl⟩, rfl⟩ := h
  obtain rfl := Option.some.inj (hkind.symm.trans hkind')
  obtain rfl := Option.some.inj (hname.symm.trans hname')
  rfl

/-- What is read for a method or constructor yields its symbol and its calls. -/
theorem yield_key : f.yield r.key.2 =
    { symbols := [r.symbol]
      calls := r.calls
      annotations := annotationsOf f.source r.node r.fqn (.ofSymbol r.kind) } :=
  ownOutline_of_routine r.isCallable r.isNamed

theorem yield_of_not_key {v : List Nat × Place × Node} (hv : f.Visited v.1 v.2)
    (h : ∀ r : Callable f, r.key ≠ v) : (f.yield v.2).calls = [] ∧
      ∀ s ∈ (f.yield v.2).symbols, s.kind.isCallable = false := by
  obtain ⟨p, place, n⟩ := v
  apply ownOutline_of_not_routine
  rintro owner fields kind name rfl hkind hname
  exact h ⟨p, owner, fields, n, kind, name, hv, hkind, hname⟩ rfl

theorem not_prefix {r s : Callable f} (h : Before r.position s.position) :
    ¬r.position <+: s.position := by
  rintro ⟨q, hq⟩
  have hs := s.isRead
  rw [← hq] at hs h
  obtain rfl := r.isRead.eq_nil_of_append (typeKind?_of_callable r.isCallable) hs
  rw [List.append_nil] at h
  exact Before.irrefl _ h

end Callable

/-- The methods and constructors of a file give its symbols of these kinds, and its calls. -/
theorem exists_callables (f : ParsedFile) : ∃ rs : List (Callable f),
    Enumerates Callable.position rs ∧
      f.outline.symbols.filter (fun s => s.kind.isCallable) = rs.map Callable.symbol ∧
      f.outline.calls = rs.flatMap Callable.calls := by
  obtain ⟨xs, hxs, hsymbols, hcalls, -⟩ := f.exists_lists_visited
  have hkey := Callable.key_injective (f := f)
  refine ⟨select Callable.key xs, ⟨fun r => ?_, pairwise_select hkey hxs.ordered⟩, ?_, ?_⟩
  · exact (mem_select_iff hkey).mpr (hxs.mem_iff.mpr r.isRead)
  · rw [hsymbols, List.filter_flatMap, List.map_eq_flatMap]
    refine flatMap_select hkey (fun r _ => ?_) fun v hv hnone => ?_
    · have hcallable : r.symbol.kind.isCallable = true := isCallable_of_callableKind? r.isCallable
      simp only [r.yield_key, List.filter_singleton, hcallable, cond_true]
    · refine List.filter_eq_nil_iff.mpr fun s hs => ?_
      simp [(Callable.yield_of_not_key (hxs.mem_iff.mp hv) hnone).2 s hs]
  · rw [hcalls]
    refine flatMap_select hkey (fun r _ => by rw [r.yield_key]) fun v hv hnone => ?_
    exact (Callable.yield_of_not_key (hxs.mem_iff.mp hv) hnone).1

/-! ## Invocations -/

/-- A method invocation with a name, anywhere below the body of a method or constructor:
`below` is its position in the body, and `index` the number of the body. -/
structure Invocation (f : ParsedFile) where
  caller : Callable f
  index : Nat
  body : Node
  below : List Nat
  node : Node
  method : Node
  isBody : caller.node.childIndex? .body = some index
  hasBody : caller.node.child? .body = some body
  isBelow : body.at? below = some node
  isInvocation : node.kind = .methodInvocation
  hasMethod : node.child? .name = some method

namespace Invocation

variable {f : ParsedFile} (c : Invocation f)

def position : List Nat := c.caller.position ++ c.index :: c.below

def context : CallContext :=
  ⟨f.scope, c.caller.owner, localTypes f.source c.caller.fields c.caller.node c.body⟩

def receiver : Receiver :=
  match c.node.child? .object with
  | some object => receiverOf f.source object
  | none => .none

def target : ResolvedCall := c.context.resolve c.receiver (c.method.text f.source)

/-- The edge from the method or constructor to what its receiver is resolved to, on the line
of the name that is called. -/
def edge : CallEdge where
  caller := c.caller.fqn
  callee := c.target.callee
  callType := c.target.callType
  line := f.source.row c.method.start + 1
  confidence := c.target.confidence

def key : Callable f × List Nat × Node := (c.caller, c.below, c.node)

theorem key_injective : (key (f := f)).Injective := by
  rintro ⟨r, i, body, q, n, m, hi, hbody, hq, hn, hm⟩
    ⟨r', i', body', q', n', m', hi', hbody', hq', hn', hm'⟩ h
  simp only [key, Prod.mk.injEq] at h
  obtain ⟨rfl, rfl, rfl⟩ := h
  obtain rfl := Option.some.inj (hi.symm.trans hi')
  obtain rfl := Option.some.inj (hbody.symm.trans hbody')
  obtain rfl := Option.some.inj (hm.symm.trans hm')
  rfl

theorem callEdge?_node : callEdge? f.source c.context c.caller.fqn c.node = some c.edge := by
  rw [callEdge?, if_pos (by rw [c.isInvocation]; rfl), c.hasMethod]
  rfl

theorem at?_position : f.root.at? c.position = some c.node := by
  obtain ⟨i, hi, hbody⟩ := Node.exists_childIndex? c.hasBody
  obtain rfl := Option.some.inj (c.isBody.symm.trans hi)
  rw [position, Node.at?_append c.caller.isRead.at?, Node.at?_cons, hbody]
  exact c.isBelow

end Invocation

theorem Callable.exists_invocation {f : ParsedFile} (r : Callable f) {ctx : CallContext}
    {caller : String} {body n : Node} {q : List Nat} (hbody : r.node.child? .body = some body)
    (hq : body.at? q = some n) (hn : callEdge? f.source ctx caller n ≠ none) :
    ∃ c : Invocation f, c.key = (r, q, n) := by
  obtain ⟨i, hi, -⟩ := Node.exists_childIndex? hbody
  unfold callEdge? at hn
  split at hn
  · have hkind : n.kind = .methodInvocation := by simpa using ‹(n.kind == _) = true›
    obtain ⟨m, hm⟩ := Option.ne_none_iff_exists'.mp (mt Option.map_eq_none_iff.mpr hn)
    exact ⟨⟨r, i, body, q, n, m, hi, hbody, hq, hkind, hm⟩, rfl⟩
  · exact absurd rfl hn

namespace Callable

variable {f : ParsedFile} (r : Callable f) {body : Node} {xs : List (List Nat × Node)}

noncomputable def among (xs : List (List Nat × Node)) : List (Invocation f) :=
  select Invocation.key (xs.map fun v => (r, v))

theorem mem_among (hbody : r.node.child? .body = some body)
    (hxs : Lists (fun q n => body.at? q = some n) xs) {c : Invocation f} :
    c ∈ r.among xs ↔ c.caller = r := by
  rw [among, mem_select_iff Invocation.key_injective, List.mem_map]
  constructor
  · rintro ⟨v, _, hv⟩
    exact (Prod.mk.inj hv).1.symm
  · rintro rfl
    obtain rfl := Option.some.inj (c.hasBody.symm.trans hbody)
    exact ⟨(c.below, c.node), hxs.mem_iff.mpr c.isBelow, rfl⟩

theorem pairwise_among (hbody : r.node.child? .body = some body)
    (hxs : Lists (fun q n => body.at? q = some n) xs) :
    (r.among xs).Pairwise fun c d => Before c.position d.position := by
  have hbelow : (r.among xs).Pairwise fun c d => Before c.below d.below :=
    pairwise_select Invocation.key_injective (List.pairwise_map.mpr hxs.ordered :
      (xs.map fun v => (r, v)).Pairwise fun a b => Before a.2.1 b.2.1)
  refine hbelow.imp_of_mem fun {c d} hc hd hcd => ?_
  obtain rfl := (r.mem_among hbody hxs).mp hc
  have hcaller := (c.caller.mem_among hbody hxs).mp hd
  have hindex : c.index = d.index := Option.some.inj (c.isBody.symm.trans (hcaller ▸ d.isBody))
  rw [Invocation.position, Invocation.position, hcaller, hindex]
  exact (Before.cons_iff.mpr (.inr ⟨rfl, hcd⟩)).append_left _

theorem calls_eq_map_edge (hbody : r.node.child? .body = some body)
    (hxs : Lists (fun q n => body.at? q = some n) xs) (hmap : xs.map Prod.snd = body.preorder) :
    r.calls = (r.among xs).map Invocation.edge := by
  have hkey := Invocation.key_injective (f := f)
  rw [calls, routineCalls, hbody]
  simp only [bodyCalls]
  rw [← hmap, List.filterMap_map, List.filterMap_eq_flatMap_toList, List.map_eq_flatMap, among,
    ← flatMap_select hkey (g := fun v => (callEdge? f.source
      ⟨f.scope, r.owner, localTypes f.source r.fields r.node body⟩ r.fqn v.2.2).toList),
    List.flatMap_map]
  · rfl
  · intro c hc
    obtain rfl := (r.mem_among hbody hxs).mp ((mem_select_iff hkey).mpr hc)
    obtain rfl := Option.some.inj (c.hasBody.symm.trans hbody)
    exact congrArg Option.toList c.callEdge?_node
  · intro v hv hnone
    obtain ⟨⟨q, n⟩, hq, rfl⟩ := List.mem_map.mp hv
    by_contra hedge
    obtain ⟨c, hc⟩ := r.exists_invocation hbody (hxs.mem_iff.mp hq)
      fun h => hedge (by rw [h]; rfl)
    exact hnone c hc

theorem exists_invocations :
    ∃ cs : List (Invocation f), (∀ c, c ∈ cs ↔ c.caller = r) ∧
      cs.Pairwise (fun c d => Before c.position d.position) ∧ r.calls = cs.map Invocation.edge := by
  cases hbody : r.node.child? .body with
  | none =>
    refine ⟨[], fun c => ⟨fun hc => by simp at hc, ?_⟩, .nil, ?_⟩
    · rintro rfl
      exact absurd (c.hasBody.symm.trans hbody) (by simp)
    · rw [calls, routineCalls, hbody]
      rfl
  | some body =>
    obtain ⟨xs, hxs, hmap⟩ := Node.exists_lists_preorder body
    exact ⟨r.among xs, fun _ => r.mem_among hbody hxs, r.pairwise_among hbody hxs,
      r.calls_eq_map_edge hbody hxs hmap⟩

end Callable

/-- The calls of a file are its invocations, each once, in the order of the tree; they stand
below the methods and constructors that the symbols of these kinds are made from, in the order
of the symbols. -/
theorem calls_enumerate_invocations (f : ParsedFile) :
    ∃ (callables : List (Callable f)) (invocations : List (Invocation f)),
      Enumerates Callable.position callables ∧
      f.outline.symbols.filter (fun s => s.kind.isCallable) = callables.map Callable.symbol ∧
      Enumerates Invocation.position invocations ∧
      (∀ c ∈ invocations, f.root.at? c.position = some c.node) ∧
      f.outline.calls = invocations.map Invocation.edge := by
  obtain ⟨rs, hrs, hsymbols, hcalls⟩ := exists_callables f
  choose cs hmem hordered hedges using Callable.exists_invocations (f := f)
  refine ⟨rs, rs.flatMap cs, hrs, hsymbols, ⟨fun c => ?_, ?_⟩, fun c _ => c.at?_position, ?_⟩
  · exact List.mem_flatMap.mpr ⟨c.caller, hrs.complete _, (hmem _ c).mpr rfl⟩
  · refine List.pairwise_flatMap.mpr ⟨fun r _ => hordered r, hrs.ordered.imp ?_⟩
    intro r s hrs c hc d hd
    obtain rfl := (hmem _ c).mp hc
    obtain rfl := (hmem _ d).mp hd
    exact hrs.append (Callable.not_prefix hrs) _ _
  · rw [hcalls, List.map_flatMap]
    exact List.flatMap_congr fun r _ => hedges r

/-- Arguments, receivers, lambdas and anonymous classes in a body count; the values of fields
and initialisers do not. -/
example :
    (outlineOfBytes
        "class A{int x=g();void m(){n(o.p());new B(){void q(){r();}};f(()->s());}{t();}}".toUTF8.toList
        "").calls.map (fun e => (e.caller, e.callee)) =
      [("A.m", "A.n"), ("A.m", "o.p"), ("A.m", "A.r"), ("A.m", "A.f"), ("A.m", "A.s")] := by
  decide +kernel

end CodeAtlas.Java
