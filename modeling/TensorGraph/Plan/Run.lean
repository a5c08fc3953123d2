import TensorGraph.Attribute
import TensorGraph.Plan

namespace TensorGraph

abbrev Feeds := List (NodeRef × Attribute)

structure RunStats where
  evaluated : List Int
  peak : Nat
  -- Outlets whose tensors were kept after each step.
  trace : List (List Outlet)
  deriving Repr

structure RunResult where
  outputs : List Tensor
  stats : RunStats
  deriving Repr

namespace Plan

abbrev Bindings := List (Int × Tensor)

-- The facts that a fed tensor must satisfy: the declared one and the analysed one.
def inputFacts (p : Plan) (g : Graph) (n : Node) : Outcome Facts := do
  let declared ← g.inputFact n.id
  match p.analysis with
  | some a => return [declared,← a.fact g ⟨n.id,0⟩]
  | none => return [declared]

def rejected (n : Node) (f : Fault) : Fault :=
  if f.kind.isA .factConflict then
    (Cause.inputRejected f.kind (Cause.reasonText f.cause.message) : Fault).at? n.id (some n.name)
  else f

-- The tensor for a fed value, converted to the declared element type unless it is a tensor.
def convert (n : Node) (dtype : Option DType) : Attribute → Outcome Tensor
  | .tensor t => .ok t
  | a =>
    match a.toTensor dtype with
    | .ok t => .ok t
    | .error f => if f.isBadValue then n.fail (.cannotConvert f.text) else .error f

def receive (p : Plan) (g : Graph) (n : Node) (value : Attribute) : Outcome Tensor := do
  let declared ← g.inputFact n.id
  let t ← convert n declared.dtype value
  if p.settings.validateInputs then
    (← p.inputFacts g n).forM fun f => (f.check t).mapError (rejected n)
  return t

def bindOne (p : Plan) (g : Graph) (bound : Bindings) (feed : NodeRef × Attribute) :
    Outcome Bindings := do
  let n ← g.resolve feed.1
  unless g.isInput n.id do n.fail .notGraphInput
  if (bound.lookup (Int.ofNat n.id)).isSome then n.fail .suppliedTwice
  return bound ++ [(Int.ofNat n.id,← p.receive g n feed.2)]

-- Later values for the same reference replace earlier ones in their place.
def Feeds.collapse (feeds : Feeds) : Feeds :=
  feeds.foldl
    (fun fs (k,v) =>
      if fs.any (·.1 = k) then fs.map fun (l,w) => (l,if l = k then v else w) else fs ++ [(k,v)])
    []

def bind (p : Plan) (g : Graph) (feeds : Feeds) : Outcome Bindings := do
  let bound ← (Feeds.collapse feeds).foldlM (p.bindOne g) []
  let missing := p.required.filter fun id => (bound.lookup id).isNone
  if missing.isEmpty then return bound
  let names ← missing.mapM fun id => do
    let n ← g.node id
    return s!"#{id} {n.name}"
  fail (.noValueSupplied names)

def evaluate (n : Node) (args : List Tensor) : Outcome (List Tensor) := do
  let values ← (n.operator.eval args).mapError (Fault.evaluating · n.id n.name n.opType)
  let expected := n.operator.outputCount
  if values.length = expected then return values
  else
    let cause := Cause.outputCount n.opType values.length expected
    .error { (cause : Fault).at? n.id (some n.name) with opType := some n.opType }

structure Progress where
  cache : Table Tensor
  remaining : Table Int
  stats : RunStats

def keep (p : Plan) (s : Progress) (produced : List (Outlet × Tensor)) : Table Tensor :=
  produced.foldl
    (fun cache (o,v) =>
      if 0 < (s.remaining.get? o).getD 0 || p.outputs.contains o then cache.set o v else cache)
    s.cache

-- Count one use of an outlet; after the last, its tensor is dropped unless it was requested.
def release (p : Plan) (s : Progress) (o : Outlet) : Outcome Progress := do
  let left := (← s.remaining.get o) - 1
  let s := { s with remaining := s.remaining.set o left }
  if left = 0 && !p.outputs.contains o then
    let _ ← s.cache.get o
    return { s with cache := s.cache.erase o }
  else return s

def compute (p : Plan) (bound : Bindings) (s : Progress) (n : Node) :
    Outcome (List Tensor × Bool) := do
  match bound.lookup (Int.ofNat n.id) with
  | some t => return ([t],false)
  | none =>
    if p.folded.contains n.id then return (← n.outlets.mapM p.constants.get,false)
    else return (← evaluate n (← n.inputs.mapM s.cache.get),true)

def step (p : Plan) (g : Graph) (bound : Bindings) (s : Progress) (id : Int) :
    Outcome Progress := do
  let n ← g.node id
  let (values,evaluated) ← p.compute bound s n
  let cache := p.keep s (n.outlets.zip values)
  let stats := { s.stats with
    evaluated := if evaluated then s.stats.evaluated ++ [id] else s.stats.evaluated
    peak := max s.stats.peak cache.size }
  let s : Progress := ⟨cache,s.remaining,stats⟩
  let s ← if p.folded.contains id then .ok s else n.inputs.foldlM p.release s
  return { s with stats := { s.stats with trace := s.stats.trace ++ [s.cache.keys] } }

def execute (p : Plan) (g : Graph) (feeds : Feeds) : Outcome RunResult := do
  let bound ← p.bind g feeds
  let s ← p.schedule.foldlM (p.step g bound) ⟨.empty,p.uses,⟨[],0,[]⟩⟩
  return ⟨← p.outputs.mapM s.cache.get,s.stats⟩

end Plan

end TensorGraph
