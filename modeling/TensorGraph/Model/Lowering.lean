import TensorGraph.Graph.Build
import TensorGraph.Model
import TensorGraph.Registry

namespace TensorGraph

namespace Model

def operators : List (String × String) :=
  let same := ["Add","Sub","Mul","Div","Pow","Equal","Less","Greater","And","Or","Not",
    "Abs","Neg","Sqrt","Exp","Log","Tanh","Floor","Ceil","Sigmoid","Relu","Identity",
    "Reshape","Transpose","Concat","Squeeze","Flatten","Cast","Shape","ReduceSum",
    "ReduceMean","ReduceMax","ReduceMin","ReduceProd","MatMul","Softmax","Conv","MaxPool"]
  same.map (fun s => (s,s)) ++ [("Mod","Rem"),("Max","Maximum"),("Min","Minimum"),
    ("Sum","AddN"),("LessOrEqual","LessEqual"),("GreaterOrEqual","GreaterEqual"),
    ("Unsqueeze","ExpandDims"),("BatchNormalization","BatchNorm"),("AveragePool","AvgPool")]

def reductions : List String := ["ReduceSum","ReduceMean","ReduceMax","ReduceMin","ReduceProd"]

-- Whether the second input of an operator lists axes, which must then be a constant.
def takesAxes (op : String) : Bool := op ∈ "Squeeze" :: "Unsqueeze" :: reductions

def isChained (op : String) : Bool := op ∈ ["Max","Min"]

-- Attributes that may only have one value: zero, or ones throughout.
inductive Fixed where
  | zero
  | ones

def fixedAttributes (op : String) : List (String × Fixed) :=
  if op = "Mod" then [("fmod",.zero)]
  else if op = "MaxPool" then [("ceil_mode",.zero),("storage_order",.zero),("dilations",.ones)]
  else if op = "AveragePool" then
    [("ceil_mode",.zero),("count_include_pad",.zero),("dilations",.ones)]
  else if op = "BatchNormalization" then [("training_mode",.zero)]
  else if op = "Reshape" then [("allowzero",.zero)]
  else if op ∈ reductions then [("noop_with_empty_axes",.zero)]
  else []

def equals (number : Int) : Attribute → Outcome Bool
  | .datum d => .ok (d.same (.int number))
  | .array t =>
    match Attribute.only? t with
    | some d => .ok (d.same (.int number))
    | none => fail (.unworded .value)
  | _ => .ok false

def Fixed.holds : Fixed → Attribute → Outcome Bool
  | zero,a => equals 0 a
  | ones,a => do (← a.items).allM (equals 1)

def shown : Attribute → String
  | .datum d => d.written
  | .array t => "array(" ++ t.toDatum.written ++ ")"
  | _ => ""

def attributes (s : Step) : Outcome Attributes :=
  s.attributes.foldlM
    (fun as (name,v) => do
      match ← v.attribute? with
      | none => fail (.unsupportedAttribute name s.op s.name)
      | some a => return (name,a) :: as.filter (·.1 != name))
    []

def dropFixed (op : String) (as : Attributes) : Outcome Attributes :=
  (fixedAttributes op).foldlM
    (fun as (name,fixed) =>
      match as.lookup name with
      | none => .ok as
      | some a => do
        if ← fixed.holds a then return as.filter (·.1 != name)
        else fail (.attributeNotDefault op name (shown a)))
    as

def targetType : Attribute → Outcome DType
  | .datum (.int i) => elementType i
  | .datum (.float x) =>
    match x.truncate? with
    | some i => if Datum.same (.float x) (.int i) then elementType i else fail (.unworded .type)
    | none => fail (.unworded .type)
  | _ => fail (.unworded .type)

def operatorAttributes (s : Step) : Outcome Attributes := do
  let as ← dropFixed s.op (← attributes s)
  if s.op ≠ "Cast" then return as
  match as.lookup "to" with
  | none => fail (.unworded .key)
  | some a => return ("to",.dtype (← targetType a)) :: as.filter (·.1 != "to")

-- What is declared of an input: an extent that is no number is open, and the first one may differ
-- from run to run.
def Declaration.fact (d : Declaration) : Outcome Fact := do
  let dtype ←
    if d.elementType = 0 then .ok none else do pure (some (← Model.elementType d.elementType))
  match d.dims with
  | none => return .outline dtype none
  | some dims =>
    let shape ← dims.zipIdx.mapM fun (extent,axis) =>
      match extent with
      | some n => Dim.ofInt n
      | none => .ok (if axis = 0 then .streaming else .unknown)
    return .outline dtype (some shape)

end Model

-- Constants and inputs become nodes first, then every step of the model becomes a node, or a chain
-- of nodes. A step may use a value that a later step produces: its inputs are connected when all
-- nodes exist.
structure Lowering where
  graph : Graph
  -- Values by name; the first entry counts.
  values : List (String × Outlet)
  constants : List (String × Tensor)
  used : List String
  -- Nodes whose inputs are still to be connected.
  pending : List (Nat × List String)

namespace Lowering

open Model

def start (serial : Nat) (name : String) : Lowering := ⟨.empty serial name,[],[],[],[]⟩

def hasValue (l : Lowering) (name : String) : Bool := (l.values.lookup name).isSome

def named (l : Lowering) (graph : Graph) (id : Nat) (name : String) : Lowering :=
  { l with graph, values := (name,⟨Int.ofNat id,0⟩) :: l.values, used := name :: l.used }

def addConstant (l : Lowering) (c : Constant) : Outcome Lowering := do
  if c.array.elementType = 0 then fail (.unworded .type)
  let dtype ← elementType c.array.elementType
  let array ← c.array.tensor
  let op := Op.const (← array.ofTensor (some dtype))
  let (g,id) ← l.graph.addNode op.operator [] (some c.name)
  return { l.named g id c.name with constants := (c.name,array) :: l.constants }

-- An input, unless a constant has its name.
def addInput (l : Lowering) (d : Declaration) : Outcome Lowering := do
  if l.hasValue d.name then return l
  let fact ← d.fact
  let (g,id) ← l.graph.addNode (Op.placeholder fact).operator [] (some d.name)
  let (g,_) ← g.designateInput (Int.ofNat id) none
  return l.named g id d.name

def wire (l : Lowering) (op : Operator) (sources : List String) (name : String) :
    Outcome (Lowering × Nat) := do
  match sources.mapM fun s => l.values.lookup s with
  | some outlets =>
    let (g,id) ← l.graph.addNode op outlets (some name)
    return ({ l with graph := g },id)
  | none =>
    let (g,id) ← l.graph.addNode op [] (some name)
    return ({ l with graph := g, pending := l.pending ++ [(id,sources)] },id)

-- Inputs that the operator takes as tensors. Axes move to the attributes, and blanks behind the
-- last input are left out.
def splitInputs (l : Lowering) (s : Step) (as : Attributes) :
    Outcome (List String × Attributes) := do
  let (names,as) ←
    match takesAxes s.op,s.inputs with
    | true,x :: axes :: rest =>
      if axes = "" then .ok (s.inputs,as)
      else
        match l.constants.lookup axes with
        | some t => .ok (x :: rest,("axes",.datum t.toDatum) :: as.filter (·.1 != "axes"))
        | none => fail (.inputNotStatic s.op axes)
    | _,names => .ok (names,as)
  let names := (names.reverse.dropWhile (· = "")).reverse
  if names.contains "" then fail (.inputSkipped s.op s.name)
  return (names,as)

def nameFor (l : Lowering) (s : Step) (index : Nat) : String :=
  let name := if s.name = "" then s!"{s.op}_{index}" else s.name
  if l.used.contains name then s!"{name}_{index}" else name

-- Fold all inputs but the last from the left, one node for each two. Link number `k` is named after
-- the step and `k`.
def chain (r : Registry) (op : String) (as : Attributes) (name : String) :
    Nat → Lowering → String → List String → Outcome (Lowering × List String)
  | k,l,a,b :: c :: rest => do
    let link := s!"{name}/{k}"
    if l.used.contains link || l.hasValue link then fail (.linkTaken link)
    let (l,id) ← { l with used := link :: l.used }.wire (← r.create op as) [a,b] link
    let l := { l with values := (link,⟨Int.ofNat id,0⟩) :: l.values }
    chain r op as name (k + 1) l link (c :: rest)
  | _,l,a,names => .ok (l,a :: names)

-- Enter the outputs of a node that are named and that the operator has.
def produce (l : Lowering) (id outputCount : Nat) (names : List String) : Lowering :=
  let named := (names.zipIdx.filter fun (n,slot) => n ≠ "" && slot < outputCount).map
    fun (n,slot) => (n,(⟨Int.ofNat id,Int.ofNat slot⟩ : Outlet))
  { l with values := named.reverse ++ l.values }

def addStep (r : Registry) (l : Lowering) (s : Step) (index : Nat) : Outcome Lowering := do
  match operators.lookup s.op with
  | none => fail (.unsupportedModelOperator s.op)
  | some op =>
    let as ← operatorAttributes s
    let (names,as) ← l.splitInputs s as
    let name := l.nameFor s index
    let l := { l with used := name :: l.used }
    let op := if isChained s.op && names.length = 1 then "Identity" else op
    let (l,names) ← match isChained s.op,names with
      | true,a :: rest => chain r op as name 1 l a rest
      | _,names => .ok (l,names)
    let operator ← r.create op as
    let (l,id) ← l.wire operator names name
    return l.produce id operator.outputCount s.outputs

def connect (l : Lowering) (waiting : Nat × List String) : Outcome Lowering := do
  let (id,names) := waiting
  let g ← names.zipIdx.foldlM
    (fun g (x,k) =>
      match l.values.lookup x with
      | none => .error ((Cause.valueNeverProduced x : Fault).at? id none)
      | some o => g.addEdge o ⟨Int.ofNat id,Int.ofNat k⟩)
    l.graph
  return { l with graph := g }

def addOutput (l : Lowering) (d : Declaration) : Outcome Lowering := do
  match l.values.lookup d.name with
  | none => fail (.outputNeverProduced d.name)
  | some o => return { l with graph := ← l.graph.designateOutput o }

end Lowering

namespace Model

def defaultName : String := "onnx"

def toGraph (m : Model) (r : Registry) (serial : Nat) : Outcome Graph := do
  let l := Lowering.start serial (if m.name = "" then defaultName else m.name)
  let l ← m.constants.foldlM Lowering.addConstant l
  let l ← m.inputs.foldlM Lowering.addInput l
  let l ← m.steps.zipIdx.foldlM (fun l (s,index) => l.addStep r s index) l
  let l ← l.pending.foldlM Lowering.connect l
  let l ← m.outputs.foldlM Lowering.addOutput l
  l.graph.validate
  return l.graph

end Model

end TensorGraph
