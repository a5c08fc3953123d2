import TensorGraph.Analysis
import TensorGraph.Settings

namespace TensorGraph.Analysis

-- What is known before any node is visited: declared inputs and constants.
def seedNode (g : Graph) (facts : FactTable) (n : Node) : Outcome FactTable := do
  let facts := n.outlets.foldl (fun t o => t.set o .unknown) facts
  if g.isInput n.id then
    return facts.set ⟨n.id,0⟩ (← g.inputFact n.id)
  else if n.operator.isConst then
    let values ← n.operator.eval []
    return (n.outlets.zip values).foldl (fun t (o,v) => t.set o (.constant v)) facts
  else return facts

def seed (g : Graph) : Outcome FactTable := g.nodes.foldlM (seedNode g) .empty

def canFold (settings : AnalysisSettings) (g : Graph) (n : Node) (ins outs : Facts) : Bool :=
  settings.foldConstants && n.operator.isFoldable && !g.isInput n.id
    && ins.all (·.value.isSome) && outs.any (·.value.isNone)

def unifyEach (as bs : Facts) : Outcome Facts := (as.zip bs).mapM fun (a,b) => a.unify b

-- What an operator's rule finds, and what folding adds to it.
def applyRule (settings : AnalysisSettings) (g : Graph) (n : Node) (ins outs : Facts) :
    Outcome (Facts × Facts) := do
  let (newIns,newOuts) ← n.operator.infer ins outs
  if newIns.length ≠ ins.length || newOuts.length ≠ outs.length then
    let cause := Cause.factCount n.opType newIns.length newOuts.length ins.length outs.length
    .error { (cause : Fault).at? n.id (some n.name) with opType := some n.opType }
  let newIns ← unifyEach ins newIns
  let newOuts ← unifyEach outs newOuts
  if canFold settings g n newIns newOuts then
    let values ← n.operator.eval (newIns.filterMap (·.value))
    return (newIns,← unifyEach newOuts (values.map .constant))
  else return (newIns,newOuts)

def merge (state : FactTable × List Outlet) (news : Outlet × Fact) :
    Outcome (FactTable × List Outlet) := do
  let (facts,changed) := state
  let old ← facts.get news.1
  let merged ← old.unify news.2
  if merged.same old then return state
  else return (facts.set news.1 merged,changed ++ [news.1])

def factsText (fs : Facts) : String := Text.bracketed (fs.map Fact.text)

-- How a fault at a node is reported. Faults of graphs and bad values are the node's; any other
-- fault is not.
def located (n : Node) (ins outs : Facts) (f : Fault) : Fault :=
  if f.kind == .analysis then f
  else if f.kind.isLocal || f.isBadValue then
    { cause := .ruleRejects n.operator.describe (factsText ins) (factsText outs) f.text
      node := some (Int.ofNat n.id), nodeName := some n.name, opType := some n.opType
      source := some f.kind }
  else f

-- Nodes wait in a queue; visiting one applies its operator's rule to what is known around it, and
-- every outlet of which more became known puts the nodes around that outlet back into the queue.
def visit (settings : AnalysisSettings) (g : Graph) (facts : FactTable) (n : Node) :
    Outcome (FactTable × List Outlet) := do
  let ins ← n.inputs.mapM facts.get
  let outs ← n.outlets.mapM facts.get
  let result : Outcome (FactTable × List Outlet) := do
    let (newIns,newOuts) ← applyRule settings g n ins outs
    (n.inputs.zip newIns ++ n.outlets.zip newOuts).foldlM merge (facts,[])
  result.mapError (located n ins outs)

def enqueue (queue : List Int) (id : Int) : List Int :=
  if queue.contains id then queue else queue ++ [id]

def enqueueAround (g : Graph) (queue : List Int) (changed : List Outlet) : List Int :=
  changed.foldl
    (fun q o => ((g.consumers o).map (·.node)).foldl enqueue (enqueue q o.node)) queue

-- Visit waiting nodes until none is left. Fails when the bound on visits is reached before.
def propagate (settings : AnalysisSettings) (g : Graph) :
    Nat → Nat → FactTable → List Int → Outcome (FactTable × Nat)
  | _,steps,facts,[] => .ok (facts,steps)
  | 0,_,_,_ :: _ =>
    .error { (Cause.noFixpoint settings.maxSteps : Fault) with statedCode := some "EANALYSIS_LIMIT" }
  | fuel + 1,steps,facts,id :: queue => do
    let (facts,changed) ← visit settings g facts (← g.node id)
    propagate settings g fuel (steps + 1) facts (enqueueAround g queue changed)

-- Analyse a graph. Nodes are visited first in the given order, then in order of their numbers.
def run (settings : AnalysisSettings) (g : Graph) (order : List Int) : Outcome Analysis := do
  g.validate
  let facts ← seed g
  order.forM fun id => do let _ ← g.node id
  let queue := (order ++ g.ids).foldl enqueue []
  let (facts,steps) ← propagate settings g settings.maxSteps 0 facts queue
  return ⟨g.serial,facts,steps⟩

end TensorGraph.Analysis
