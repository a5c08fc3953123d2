import TensorGraph.Graph.Search

namespace TensorGraph.Graph

def defaultName (g : Graph) (op : Operator) : String := s!"{op.opType}_{g.size}"

def addNode (g : Graph) (op : Operator) (inputs : List Outlet) (name : Option String) :
    Outcome (Graph × Nat) := do
  inputs.zipIdx.forM fun (o,k) => g.checkOutlet s!"input {k} of new node" o
  let name := name.getD (g.defaultName op)
  match g.find? name with
  | some holder => TensorGraph.fail (.nameTaken name holder.id)
  | none => return ({ g with nodes := g.nodes ++ [⟨g.size,name,op,inputs⟩] },g.size)

-- Connect an input of a node without any check; the position after the last appends.
def setInput (g : Graph) (source : Outlet) (id position : Nat) : Graph :=
  let change (n : Node) : Node :=
    if n.id = id then
      { n with inputs := if position = n.inputs.length then n.inputs ++ [source]
                         else n.inputs.set position source }
    else n
  { g with nodes := g.nodes.map change }

def addEdge (g : Graph) (source : Outlet) (target : Inlet) : Outcome Graph := do
  g.checkOutlet s!"source of edge to {target.text}" source
  match g.get? target.node with
  | none => .error ((Cause.edgeTargetMissing target.node : Fault).at? target.node none)
  | some n =>
    if g.isInput target.node then n.fail .inputHasProducers
    if target.position < 0 || (n.inputs.length : Int) < target.position then
      n.fail (.inletOutOfRange target.position n.inputs.length)
    if ← g.reaches source.node target.node then
      n.fail (.edgeClosesCycle source.text target.text)
    return g.setInput source n.id target.position.toNat

-- Connect an input to any source at all; negative numbers count from the end. The graph may then
-- fail to be valid.
def overwriteInput (g : Graph) (source : Outlet) (target : Inlet) : Outcome Graph := do
  let n ← g.referred target.node
  let count := n.inputs.length
  let position := if target.position < 0 then target.position + count else target.position
  if position < 0 || (count : Int) < position then TensorGraph.fail (.unworded .index)
  return g.setInput source n.id position.toNat

def designateInput (g : Graph) (id : Int) (fact : Option Fact) : Outcome (Graph × Fact) := do
  let n ← g.node id
  unless n.inputs.isEmpty do n.fail .inputHasProducers
  let fact := (fact.orElse fun _ => n.operator.declared).getD .unknown
  let facts :=
    if g.isInput id then g.inputFacts.map fun (i,f) => (i,if i = id then fact else f)
    else g.inputFacts ++ [(id,fact)]
  return ({ g with inputFacts := facts },fact)

def designateOutput (g : Graph) (o : Outlet) : Outcome Graph := do
  g.checkOutlet "graph output" o
  return if g.outputs.contains o then g else { g with outputs := g.outputs ++ [o] }

-- Inputs of a node lead to existing outlets, and there are as many as the operator takes.
def checkNode (g : Graph) (n : Node) : Outcome Unit := do
  n.inputs.zipIdx.forM fun (o,k) => g.checkOutlet s!"input {k} of node {n.id}" o
  unless g.isInput n.id || n.operator.acceptsArity n.inputs.length do
    n.fail (.wrongInputCount n.opType n.operator.arity n.inputs.length)

def validate (g : Graph) : Outcome Unit := do
  g.nodes.forM g.checkNode
  g.inputs.forM fun id => do
    unless (← g.referred id).inputs.isEmpty do
      .error ((Cause.inputHasProducers : Fault).at? id none)
  g.outputs.forM (g.checkOutlet "graph output")
  g.checkAcyclic

def summary (g : Graph) : String :=
  let name := Text.quote g.name
  let inputs := Text.integers g.inputs
  let outputs := Text.bracketed (g.outputs.map fun o => Text.quote o.text)
  let heading := s!"Graph(name={name}, nodes={g.size}, inputs={inputs}, outputs={outputs})"
  let line (n : Node) : String :=
    let sources := ", ".intercalate (n.inputs.map Outlet.text)
    s!"- #{n.id} {n.name}: {n.operator.describe}({sources})"
  "\n".intercalate (heading :: g.nodes.map line)

end TensorGraph.Graph
