import TensorGraph.Analysis
import TensorGraph.Settings

namespace TensorGraph

-- How callers name an outlet: by node, which means its first output, or in full.
inductive OutletRef where
  | node (ref : NodeRef)
  | outlet (o : Outlet)
  deriving DecidableEq, Repr

structure Plan where
  graph : Nat
  settings : PlanSettings
  analysis : Option Analysis
  outputs : List Outlet
  schedule : List Int
  -- Scheduled nodes whose outputs are taken from the analysis.
  folded : List Int
  constants : Table Tensor
  uses : Table Int
  required : List Int

namespace Plan

def request (g : Graph) (ref : OutletRef) : Outcome Outlet := do
  let (n,slot) ← match ref with
    | .node r => do pure (← g.resolve r,(0 : Int))
    | .outlet o => do pure (← g.node o.node,o.slot)
  if 0 ≤ slot && slot < n.operator.outputCount then return ⟨Int.ofNat n.id,slot⟩
  else n.fail (.requestedSlotMissing slot n.opType n.operator.outputCount)

-- Whether all of the outlets are constants; looked up only until one is not.
def allConstant (a : Analysis) (g : Graph) : List Outlet → Outcome Bool
  | [] => .ok true
  | o :: os => do
    if (← a.fact g o).value.isSome then allConstant a g os else return false

-- Nodes, other than inputs of the graph, all outputs of which are constants.
def constantNodes (a : Analysis) (g : Graph) : Outcome (List Int) := do
  let candidates := g.nodes.filter fun n => !g.isInput n.id
  return (← candidates.filterM fun n => allConstant a g n.outlets).map fun n => Int.ofNat n.id

def constantTable (a : Analysis) (g : Graph) (folded : List Int) : Outcome (Table Tensor) :=
  folded.foldlM
    (fun t id => do
      (← g.node id).outlets.foldlM
        (fun t o => do
          match (← a.fact g o).value with
          | some v => return t.set o v
          | none => return t)
        t)
    .empty

def countUses (g : Graph) (ids : List Int) : Outcome (Table Int) :=
  ids.foldlM
    (fun t id => do
      return (← g.node id).inputs.foldl (fun t o => t.set o ((t.get? o).getD 0 + 1)) t)
    .empty

-- Only nodes that the outlets need are scheduled, and nodes that an analysis found to be constant
-- are not evaluated.
def make (settings : PlanSettings) (g : Graph) (requested : Option (List OutletRef))
    (analysis : Option Analysis) : Outcome Plan := do
  match analysis with
  | some a => if a.graph ≠ g.serial then fail .foreignAnalysis
  | none => pure ()
  let outputs ← (requested.getD (g.outputs.map .outlet)).mapM (request g)
  if outputs.isEmpty then fail .nothingRequested
  let boundary ← match analysis with
    | some a => if settings.useFoldedConstants then constantNodes a g else .ok []
    | none => .ok []
  let schedule ← g.topologicalOrder (some outputs) boundary
  let folded := schedule.filter boundary.contains
  let constants ← match analysis with
    | some a => constantTable a g folded
    | none => .ok .empty
  let uses ← countUses g (schedule.filter fun id => !folded.contains id)
  let required := schedule.filter g.isInput
  return ⟨g.serial,settings,analysis,outputs,schedule,folded,constants,uses,required⟩

end Plan

end TensorGraph
