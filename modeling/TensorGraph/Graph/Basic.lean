import TensorGraph.Operator

namespace TensorGraph

structure Outlet where
  node : Int
  slot : Int := 0
  deriving DecidableEq, Repr, Inhabited

structure Inlet where
  node : Int
  position : Int
  deriving DecidableEq, Repr, Inhabited

namespace Outlet
def text (o : Outlet) : String := s!"{o.node}:{o.slot}"
end Outlet

namespace Inlet
def text (i : Inlet) : String := s!"{i.node}<{i.position}"
end Inlet

structure Node where
  id : Nat
  name : String
  operator : Operator
  inputs : List Outlet

namespace Node

def opType (n : Node) : String := n.operator.opType

def outlets (n : Node) : List Outlet :=
  (List.range n.operator.outputCount).map fun slot => ⟨Int.ofNat n.id,Int.ofNat slot⟩

def fail {α : Type} (n : Node) (c : Cause) : Outcome α :=
  .error ((c : Fault).at? (Int.ofNat n.id) (some n.name))

end Node

inductive NodeRef where
  | id (i : Int)
  | name (s : String)
  deriving DecidableEq, Repr

-- A graph only grows: nodes are appended, and the number of a node is its position. Edges live at
-- their consumer, as the list of outlets its inputs come from.
structure Graph where
  -- Tells this graph from others, however alike.
  serial : Nat
  name : String
  nodes : List Node
  -- Designated inputs with what is declared of them, in order of designation.
  inputFacts : List (Int × Fact)
  outputs : List Outlet

namespace Graph

def empty (serial : Nat) (name : String) : Graph := ⟨serial,name,[],[],[]⟩

def size (g : Graph) : Nat := g.nodes.length

def ids (g : Graph) : List Int := (List.range g.size).map Int.ofNat

def get? (g : Graph) (id : Int) : Option Node := if id < 0 then none else g.nodes[id.toNat]?

def node (g : Graph) (id : Int) : Outcome Node :=
  match g.get? id with
  | some n => .ok n
  | none => TensorGraph.fail (.nodeMissing id)

def find? (g : Graph) (name : String) : Option Node := g.nodes.find? (·.name == name)

def nodeNamed (g : Graph) (name : String) : Outcome Node :=
  match g.find? name with
  | some n => .ok n
  | none => TensorGraph.fail (.nodeNameMissing name)

def resolve (g : Graph) : NodeRef → Outcome Node
  | .id i => g.node i
  | .name s => g.nodeNamed s

def inputs (g : Graph) : List Int := g.inputFacts.map (·.1)

def isInput (g : Graph) (id : Int) : Bool := g.inputs.contains id

def inputFact (g : Graph) (id : Int) : Outcome Fact :=
  match g.inputFacts.lookup id with
  | some f => .ok f
  | none => .error ((Cause.notDesignated id : Fault).at? id none)

def edgesInto (n : Node) : List (Outlet × Inlet) :=
  n.inputs.zipIdx.map fun (o,k) => (o,⟨Int.ofNat n.id,Int.ofNat k⟩)

def edges (g : Graph) : List (Outlet × Inlet) := g.nodes.flatMap edgesInto

def consumers (g : Graph) (o : Outlet) : List Inlet :=
  (g.edges.filter (·.1 = o)).map (·.2)

-- The outlets that feed something, in order of their first use, each with its inlets.
def consumerMap (g : Graph) : List (Outlet × List Inlet) :=
  (g.edges.map (·.1)).eraseDups.map fun o => (o,g.consumers o)

def producerMap (g : Graph) : List (String × Nat) := g.nodes.map fun n => (n.name,n.id)

-- An outlet must exist; `what` says who refers to it.
def checkOutlet (g : Graph) (what : String) (o : Outlet) : Outcome Unit :=
  match g.get? o.node with
  | none => TensorGraph.fail (.nodeReferenceMissing what o.node)
  | some n =>
    if 0 ≤ o.slot && o.slot < n.operator.outputCount then .ok ()
    else n.fail (.slotMissing what o.slot n.opType n.operator.outputCount)

end Graph

end TensorGraph
