import TensorGraph.Graph.Build
import TensorGraph.Graph.Table

namespace TensorGraph

abbrev FactTable := Table Fact

-- An analysis stays with the graph it was made for. That graph may have grown since, and then some
-- of its outlets are unknown to the analysis.
structure Analysis where
  graph : Nat
  facts : FactTable
  iterations : Nat
  deriving Repr

namespace Analysis

def fact (a : Analysis) (g : Graph) (o : Outlet) : Outcome Fact :=
  match a.facts.get? o with
  | some f => .ok f
  | none => fail (.outletMissing o.text g.name)

def inputFacts (a : Analysis) (g : Graph) (id : Int) : Outcome Facts := do
  (← g.node id).inputs.mapM a.facts.get

def outputFacts (a : Analysis) (g : Graph) (id : Int) : Outcome Facts := do
  (← g.node id).outlets.mapM a.facts.get

-- What is known of the tensor on an edge.
def edgeFact (a : Analysis) (g : Graph) (source : Outlet) (target : Inlet) : Outcome Fact := do
  let inputs := (← g.node target.node).inputs
  let found := if target.position < 0 then none else inputs[target.position.toNat]?
  if found = some source then a.facts.get source
  else fail (.edgeMissing source.text target.text)

def constants (a : Analysis) : List (Outlet × Tensor) :=
  a.facts.entries.filterMap fun (o,f) => f.value.map fun t => (o,t)

def same (a b : Analysis) : Bool :=
  a.graph == b.graph && a.facts.size == b.facts.size &&
  a.facts.entries.all fun (o,f) => match b.facts.get? o with
    | some h => f.same h
    | none => false

def summary (a : Analysis) (g : Graph) : Outcome String := do
  let name := Text.quote g.name
  let lines ← g.nodes.mapM fun n => do
    let outs := ", ".intercalate ((← n.outlets.mapM a.facts.get).map Fact.text)
    return s!"- #{n.id} {n.name}: {outs}"
  return "\n".intercalate (s!"Analysis(graph={name}, iterations={a.iterations})" :: lines)

end Analysis

end TensorGraph
