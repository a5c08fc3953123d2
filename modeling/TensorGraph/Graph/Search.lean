import TensorGraph.Graph.Basic

namespace TensorGraph.Graph

-- The node that an edge refers to. Unchecked edges may count from the end.
def referred (g : Graph) (id : Int) : Outcome Node :=
  match g.get? (if id < 0 then id + g.size else id) with
  | some n => .ok n
  | none => TensorGraph.fail (.unworded .index)

def producers (n : Node) : List Int := n.inputs.map (·.node)

def edgeCount (g : Graph) : Nat := (g.nodes.map (·.inputs.length)).foldr (· + ·) 0

-- Steps that a walk from `start` nodes takes at most, as every edge is followed once. Each node may
-- be met under two numbers.
def walkBound (g : Graph) (start : Nat) : Nat := start + 2 * g.edgeCount

-- Nodes met when walking from a stack against the edges. Nothing behind the `stop` nodes is
-- followed.
def walk (g : Graph) (stop : List Int) : Nat → List Int → List Int → Outcome (List Int)
  | _,seen,[] => .ok seen
  | 0,seen,_ => .ok seen
  | fuel + 1,seen,n :: stack =>
    if seen.contains n then walk g stop fuel seen stack
    else if stop.contains n then walk g stop fuel (n :: seen) stack
    else
      match g.referred n with
      | .error f => .error f
      | .ok node => walk g stop fuel (n :: seen) ((producers node).reverse ++ stack)

def ascending (ids : List Int) : List Int := (ids.mergeSort (· ≤ ·)).eraseDups

def reachable (g : Graph) (targets : List Outlet) (boundary : List Int) : Outcome (List Int) := do
  let start ← targets.mapM fun t => do return Int.ofNat (← g.node t.node).id
  return ascending (← g.walk boundary (g.walkBound start.length) [] start.reverse)

-- Whether `target` is among `start` and all that it needs; found out without walking further.
def reachesFrom (g : Graph) (target : Int) : Nat → List Int → List Int → Outcome Bool
  | _,_,[] => .ok false
  | 0,_,_ => .ok false
  | fuel + 1,seen,n :: stack =>
    if n = target then .ok true
    else if seen.contains n then reachesFrom g target fuel seen stack
    else
      match g.referred n with
      | .error f => .error f
      | .ok node => reachesFrom g target fuel (n :: seen) ((producers node).reverse ++ stack)

def reaches (g : Graph) (start target : Int) : Outcome Bool :=
  g.reachesFrom target (g.walkBound 1) [] [start]

-- Depth-first search for a loop. The path holds each entered node with the inputs still to follow;
-- an input that leads back into the path closes a loop. Yields the finished nodes.
def depthFirst (g : Graph) : Nat → List Int → List (Node × List Int) → Outcome (List Int)
  | _,done,[] => .ok done
  | 0,done,_ => .ok done
  | fuel + 1,done,(n,[]) :: path => depthFirst g fuel (Int.ofNat n.id :: done) path
  | fuel + 1,done,(n,m :: ms) :: path =>
    if m = n.id || path.any (fun (p,_) => m = p.id) then n.fail (.backEdge m.toNat n.id)
    else if done.contains m then depthFirst g fuel done ((n,ms) :: path)
    else
      match g.referred m with
      | .error f => .error f
      | .ok node => depthFirst g fuel done ((node,producers node) :: (n,ms) :: path)

def checkAcyclic (g : Graph) : Outcome Unit := do
  let _ ← g.nodes.foldlM
    (fun done n =>
      if done.contains (Int.ofNat n.id) then .ok done
      else g.depthFirst (g.edgeCount + g.size) done [(n,producers n)])
    []
  return ()

def ripe (waiting : List (Int × Nat)) : List Int × List (Int × Nat) :=
  ((waiting.filter (·.2 == 0)).map (·.1),waiting.filter (·.2 != 0))

-- Order in which nodes become ready. The least ready node comes next, and every node that waits for
-- it needs one node less from then on.
def drain (needs : Int → List Int) :
    Nat → List (Int × Nat) → List Int → List Int → List Int
  | 0,_,_,drained => drained.reverse
  | fuel + 1,waiting,ready,drained =>
    match ready.min? with
    | none => drained.reverse
    | some n =>
      let counted := waiting.map fun (m,count) =>
        (m,if (needs m).contains n then count - 1 else count)
      let (freed,waiting) := ripe counted
      drain needs fuel waiting (freed ++ ready.erase n) (n :: drained)

-- An order of the nodes that the targets need, or of all nodes, in which every node comes after
-- those it needs. Boundary nodes need nothing.
def topologicalOrder (g : Graph) (targets : Option (List Outlet)) (boundary : List Int) :
    Outcome (List Int) := do
  let wanted ← match targets with
    | none => .ok g.ids
    | some ts => g.reachable ts boundary
  let needs ← wanted.mapM fun n =>
    if boundary.contains n then .ok (n,[])
    else do return (n,(producers (← g.referred n)).eraseDups.filter wanted.contains)
  let (ready,waiting) := ripe (needs.map fun (n,ms) => (n,ms.length))
  let order := drain (fun n => (needs.lookup n).getD []) wanted.length waiting ready []
  if order.length = wanted.length then return order else TensorGraph.fail .cyclicGraph

end TensorGraph.Graph
