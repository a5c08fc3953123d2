import TensorGraph.DType
import TensorGraph.Dim.Basic
import TensorGraph.Text.Quoted

namespace TensorGraph

-- Kinds of faults. From `value` on they are plain failures of a computation; the others belong to
-- graphs and their use.
inductive Kind where
  | general | invalidInput | cycle | factConflict | typeMismatch | shapeMismatch | missingInput
  | evaluation | shapeEvaluation | typeEvaluation | analysis
  | value | type | key | index | overflow | zeroDivision | runtime | noAttribute
  deriving DecidableEq, Repr, Inhabited

namespace Kind

def isLocal : Kind → Bool
  | value | type | key | index | overflow | zeroDivision | runtime | noAttribute => false
  | _ => true

def isA (self k : Kind) : Bool :=
  self == k ||
  match k,self with
  | general,s => s.isLocal
  | factConflict,s => s ∈ [typeMismatch,shapeMismatch,shapeEvaluation,typeEvaluation]
  | typeMismatch,typeEvaluation => true
  | shapeMismatch,shapeEvaluation => true
  | evaluation,s => s ∈ [shapeEvaluation,typeEvaluation]
  | _,_ => false

def hasOrigin (k : Kind) : Bool := k.isA evaluation || k == analysis

-- The code a fault of the kind carries unless another is stated.
def code : Kind → String
  | invalidInput => "EINVALID"
  | cycle => "ECYCLE"
  | factConflict => "EFACT"
  | typeMismatch => "ETYPE"
  | shapeMismatch => "ESHAPE"
  | missingInput => "EMISSING"
  | evaluation | shapeEvaluation | typeEvaluation => "EEVAL"
  | analysis => "EANALYSIS"
  | _ => "EINFERFLOW"

end Kind

namespace Text

def integers (xs : List Int) : String := bracketed (xs.map toString)
def extents (s : Shape) : String := bracketed (s.map toString)
def shapes (ss : List Shape) : String := bracketed (ss.map extents)
def versus (items : List String) : String := " vs ".intercalate items

end Text

inductive Arity where
  | exactly (n : Nat)
  | between (low high : Int)
  | variadic
  deriving DecidableEq, Repr

namespace Arity

def accepts : Arity → Nat → Bool
  | exactly k,n => n == k
  | between low high,n => low ≤ n && n ≤ high
  | variadic,n => 1 ≤ n

def text : Arity → String
  | exactly k => toString k
  | between low high => s!"({low}, {high})"
  | variadic => "None"

end Arity

inductive Cause where
  | unworded (kind : Kind)
  | stated (kind : Kind) (message : String)
  -- element types and extents
  | unsupportedElementType (name : String)
  | negativeExtent (shown : String)
  | extentOnOpenDim (kind : String)
  | unreadableDim (shown : String)
  | dimConflict (a b : Dim)
  | rankConflict (a b : ShapeFact)
  | shapeConflict (a b : ShapeFact)
  -- facts
  | valueContradictsDType (value dtype : DType)
  | dtypeConflict (a b : DType)
  | valueConflict (a b : String)
  | unexpectedDType (expected got : DType)
  | unexpectedShape (expected : ShapeFact) (got : Shape)
  | differsFromConstant
  -- inference rules
  | extentsConflict (extents : List Nat)
  | broadcastConflict (shapes : List ShapeFact)
  | rankExceeds (input rank outputRank : Nat)
  | axisOutOfRange (axis : Int) (rank : Nat)
  -- operators
  | arity (op : String) (expected : Arity) (got : Nat)
  | unknownOperator (op : String)
  | badAttributes (op : String) (reason : Option String)
  | placeholderUnfed
  | unsupportedDType (op : String) (dtype : DType)
  | floatExpected (op : String) (dtype : DType)
  | operandsDiffer (op : String) (a b : DType)
  | inputsDiffer (op : String) (dtypes : List DType)
  | dtypesNotShared (op : String)
  | noCommonDType (op : String)
  | cannotBroadcast (op : String) (shapes : List Shape)
  | divisionByZero (op : String)
  | negativeExponent
  | reshapeTargetNotIntegers
  | reshapeTargetMissing
  | reshapeManyOpen
  | reshapeCopiesMissing (axis : Nat)
  | reshapeInvalidExtent (extent : Int)
  | cannotReshape (shape : Shape) (target : List Int)
  | cannotReshapeFact (shape : ShapeFact) (target : List Int)
  | invalidPermutation (perm : List Int) (rank : Nat)
  | ranksDiffer (op : String)
  | concatExtents (shapes : List Shape) (axis : Nat)
  | packShapes (shapes : List Shape)
  | sliceLengths
  | sliceBounds
  | sliceRank (expected got : Nat)
  | sliceOutside (first stop : Int) (axis extent : Nat)
  | sliceOutsideFact (first size : Int) (extent : Nat)
  | cannotSqueeze (axis extent : Nat)
  | repeatedAxes (axes : List Int)
  | flattenAxis (axis : Int) (rank : Nat)
  | cannotCast (source target : DType) (reason : Option String)
  | unknownReduction (shown : String)
  | emptyAxis (reduction : String)
  | matMulRank
  | matMulShapes (a b : Shape)
  | batchNormRank
  | batchNormParameters (channels : Nat) (shapes : List Shape)
  | unknownPadding (shown : String)
  | negativePads
  | padCount (expected : Int) (pads : List Int)
  | windowTooLarge (field extent first last : Int)
  | spatialCount (values : List Int)
  | groupsNotPositive
  | convRank
  | convChannels (channels : Nat) (kernel : Shape) (groups : Int)
  | convChannelFacts (channels kernel : Nat) (groups : Int)
  | convBias (channels : Nat) (shape : Shape)
  | poolRank (op : String) (rank : Nat)
  -- graphs
  | nameTaken (name : String) (holder : Nat)
  | edgeTargetMissing (node : Int)
  | inputHasProducers
  | inletOutOfRange (inlet : Int) (inputs : Nat)
  | edgeClosesCycle (outlet inlet : String)
  | nodeReferenceMissing (what : String) (node : Int)
  | slotMissing (what : String) (slot : Int) (op : String) (outputs : Nat)
  | nodeMissing (node : Int)
  | nodeNameMissing (name : String)
  | notDesignated (node : Int)
  | cyclicGraph
  | backEdge (target source : Nat)
  | wrongInputCount (op : String) (expected : Arity) (got : Nat)
  -- analyses
  | outletMissing (outlet graph : String)
  | edgeMissing (outlet inlet : String)
  | noFixpoint (steps : Nat)
  | factCount (op : String) (newInputs newOutputs inputs outputs : Nat)
  | ruleRejects (op inputs outputs : String) (reason : Option String)
  -- plans
  | foreignAnalysis
  | nothingRequested
  | requestedSlotMissing (slot : Int) (op : String) (outputs : Nat)
  | nodeFailed (kind : Kind) (op : String) (reason : Option String)
  | outputCount (op : String) (got expected : Nat)
  | notGraphInput
  | suppliedTwice
  | noValueSupplied (inputs : List String)
  | cannotConvert (reason : Option String)
  | inputRejected (kind : Kind) (reason : String)
  -- models
  | unsupportedModelType (name : String)
  | unsupportedAttribute (name op node : String)
  | attributeNotDefault (op name shown : String)
  | unsupportedModelOperator (op : String)
  | inputNotStatic (op input : String)
  | inputSkipped (op node : String)
  | linkTaken (name : String)
  | valueNeverProduced (value : String)
  | outputNeverProduced (value : String)
  | notAModel
  -- settings
  | notABoolean (setting shown : String)
  | notAnInteger (setting shown : String)
  | stepsNotPositive
  deriving Repr, Inhabited

namespace Cause

def reasonText : Option String → String
  | some s => s
  | none => "<foreign>"

def kind : Cause → Kind
  | unworded k | stated k _ | nodeFailed k .. | inputRejected k _ => k
  | negativeExtent _ | extentOnOpenDim _ | unreadableDim _ | sliceLengths | sliceBounds
  | unknownReduction _ | unknownPadding _ | negativePads | spatialCount _ | groupsNotPositive
  | notABoolean .. | notAnInteger .. | stepsNotPositive => .value
  | unsupportedElementType _ | notAModel => .type
  | dimConflict .. | rankConflict .. | shapeConflict .. | unexpectedShape .. | extentsConflict _
  | broadcastConflict _ | rankExceeds .. | axisOutOfRange .. | cannotBroadcast .. | reshapeManyOpen
  | reshapeCopiesMissing _ | reshapeInvalidExtent _ | cannotReshape .. | cannotReshapeFact ..
  | invalidPermutation .. | ranksDiffer _ | concatExtents .. | packShapes _ | sliceRank ..
  | sliceOutside .. | sliceOutsideFact .. | cannotSqueeze .. | repeatedAxes _ | flattenAxis ..
  | matMulRank | matMulShapes .. | batchNormRank | batchNormParameters .. | padCount ..
  | windowTooLarge .. | convRank | convChannels .. | convChannelFacts .. | convBias ..
  | poolRank .. => .shapeMismatch
  | valueContradictsDType .. | dtypeConflict .. | unexpectedDType .. | unsupportedDType ..
  | floatExpected .. | operandsDiffer .. | inputsDiffer .. | dtypesNotShared _ | noCommonDType _
  | reshapeTargetNotIntegers | cannotConvert _ => .typeMismatch
  | valueConflict .. | differsFromConstant => .factConflict
  | arity .. | placeholderUnfed | divisionByZero _ | negativeExponent | reshapeTargetMissing
  | cannotCast .. | emptyAxis _ | outputCount .. => .evaluation
  | unknownOperator _ | badAttributes .. | nameTaken .. | edgeTargetMissing _ | inputHasProducers
  | inletOutOfRange .. | nodeReferenceMissing .. | slotMissing .. | nodeMissing _
  | nodeNameMissing _ | notDesignated _ | wrongInputCount .. | outletMissing .. | edgeMissing ..
  | foreignAnalysis | nothingRequested | requestedSlotMissing .. | notGraphInput | suppliedTwice
  | unsupportedModelType _ | unsupportedAttribute .. | attributeNotDefault ..
  | unsupportedModelOperator _ | inputNotStatic .. | inputSkipped .. | linkTaken _
  | valueNeverProduced _ | outputNeverProduced _ => .invalidInput
  | edgeClosesCycle .. | cyclicGraph | backEdge .. => .cycle
  | noFixpoint _ | factCount .. | ruleRejects .. => .analysis
  | noValueSupplied _ => .missingInput

def message : Cause → Option String
  | unworded _ => none
  | stated _ m => some m
  | unsupportedElementType name => some s!"Unsupported numpy dtype {name}"
  | negativeExtent shown => some s!"Known dimension needs a non-negative int, got {shown}"
  | extentOnOpenDim kind => some s!"{kind} dimension carries no value"
  | unreadableDim shown => some s!"Cannot read dimension from {shown}"
  | dimConflict a b => some s!"Dimension conflict: {a.text} vs {b.text}"
  | rankConflict a b => some s!"Rank conflict: {ShapeFact.text a} vs {ShapeFact.text b}"
  | shapeConflict a b => some s!"Shape conflict: {ShapeFact.text a} vs {ShapeFact.text b}"
  | valueContradictsDType v t => some s!"Value of type {v.name} contradicts datatype {t.name}"
  | dtypeConflict a b => some s!"Datatype conflict: {a.name} vs {b.name}"
  | valueConflict a b => some s!"Value conflict: {a} vs {b}"
  | unexpectedDType e g => some s!"expected datatype {e.name}, got {g.name}"
  | unexpectedShape e g => some s!"expected shape {ShapeFact.text e}, got {Text.extents g}"
  | differsFromConstant => some "tensor differs from the known constant value"
  | extentsConflict ns => some s!"Cannot broadcast extents {Text.extents ns}"
  | broadcastConflict ss => some s!"Broadcast mismatch: {Text.versus (ss.map ShapeFact.text)}"
  | rankExceeds i r o => some s!"Input {i} rank {r} exceeds output rank {o}"
  | axisOutOfRange axis rank => some s!"Axis {axis} out of range for rank {rank}"
  | arity op expected got => some s!"{op} expects {expected.text} input(s), got {got}"
  | unknownOperator op => some s!"Unknown op type: {op}"
  | badAttributes op reason => some s!"Bad attributes for {op}: {reasonText reason}"
  | placeholderUnfed => some "Placeholder has no value; it must be fed by the caller"
  | unsupportedDType op t => some s!"{op} does not support datatype {t.name}"
  | floatExpected op t => some s!"{op} expects a float tensor, got {t.name}"
  | operandsDiffer op a b => some s!"{op} inputs differ in datatype: {a.name} vs {b.name}"
  | inputsDiffer op ts =>
    let names := Text.bracketed (ts.map fun t => Text.quote t.name)
    some s!"{op} inputs differ in datatype: {names}"
  | dtypesNotShared op => some s!"{op} inputs must share one datatype"
  | noCommonDType op => some s!"{op} inputs have no common datatype"
  | cannotBroadcast op ss => some s!"{op} cannot broadcast {Text.versus (ss.map Text.extents)}"
  | divisionByZero op => some s!"{op}: integer division by zero"
  | negativeExponent => some "Pow: negative exponent for an integer base"
  | reshapeTargetNotIntegers => some "Reshape shape input must be a 1-D integer tensor"
  | reshapeTargetMissing => some "Reshape needs a 'shape' attribute or a shape input"
  | reshapeManyOpen => some "Reshape target may contain at most one -1"
  | reshapeCopiesMissing axis => some s!"Reshape target copies missing axis {axis}"
  | reshapeInvalidExtent n => some s!"Invalid Reshape extent {n}"
  | cannotReshape s t => some s!"Cannot reshape {Text.extents s} into {Text.integers t}"
  | cannotReshapeFact s t =>
    let dims := Text.bracketed (s.map fun d => Text.quote d.text)
    some s!"Cannot reshape {dims} into {Text.integers t}"
  | invalidPermutation p r => some s!"Invalid Transpose perm {Text.integers p} for rank {r}"
  | ranksDiffer op => some s!"{op} inputs must have the same rank"
  | concatExtents ss axis => some s!"Concat dim mismatch: {Text.shapes ss} on axis {axis}"
  | packShapes ss => some s!"Pack inputs differ in shape: {Text.shapes ss}"
  | sliceLengths => some "Slice begin and size must have the same length"
  | sliceBounds => some "Slice begin must be >= 0 and size >= -1"
  | sliceRank e g => some s!"Slice expects rank {e}, got {g}"
  | sliceOutside a b axis n => some s!"Slice [{a}:{b}] out of bounds for axis {axis} of {n}"
  | sliceOutsideFact a k n => some s!"Slice [{a}:+{k}] out of bounds for extent {n}"
  | cannotSqueeze axis n => some s!"Cannot squeeze axis {axis} of extent {n}"
  | repeatedAxes axes => some s!"ExpandDims got repeated axes {Text.integers axes}"
  | flattenAxis axis rank => some s!"Flatten axis {axis} out of range for rank {rank}"
  | cannotCast a b reason => some s!"Cannot cast {a.name} to {b.name}: {reasonText reason}"
  | unknownReduction shown =>
    some s!"Unknown reduction {shown}; expected one of ['max', 'mean', 'min', 'prod', 'sum']"
  | emptyAxis r => some s!"{r} over an empty axis"
  | matMulRank => some "MatMul operands must have rank >= 1"
  | matMulShapes a b => some s!"MatMul shape mismatch: {Text.extents a} @ {Text.extents b}"
  | batchNormRank => some "BatchNorm input must have rank >= 2"
  | batchNormParameters c ss =>
    some s!"BatchNorm parameters must have shape [{c}], got {Text.shapes ss}"
  | unknownPadding shown => some s!"Unknown padding mode {shown}"
  | negativePads => some "Explicit pads must be non-negative"
  | padCount n pads => some s!"Expected {n} pads, got {Text.integers pads}"
  | windowTooLarge w n a b => some s!"Window of {w} does not fit input extent {n} with padding {a}+{b}"
  | spatialCount vs => some s!"Expected 2 spatial values, got {Text.integers vs}"
  | groupsNotPositive => some "Conv groups must be a positive integer"
  | convRank => some "Conv expects rank-4 data and kernel"
  | convChannels c k g =>
    some s!"Conv channel mismatch: input has {c}, kernel {Text.extents k}, groups {g}"
  | convChannelFacts c k g => some s!"Conv input channels {c} != kernel {k} x groups {g}"
  | convBias c s => some s!"Conv bias must have shape [{c}], got {Text.extents s}"
  | poolRank op r => some s!"{op} expects rank-4 data, got rank {r}"
  | nameTaken name holder => some s!"Node name '{name}' already used by node {holder}"
  | edgeTargetMissing n => some s!"Edge target node {n} does not exist"
  | inputHasProducers => some "A graph input cannot have producers"
  | inletOutOfRange i n => some s!"Inlet {i} out of range for node with {n} inputs"
  | edgeClosesCycle o i => some s!"Edge {o} -> {i} would create a cycle"
  | nodeReferenceMissing what n => some s!"{what} refers to missing node {n}"
  | slotMissing what slot op n => some s!"{what} refers to slot {slot} but {op} has {n} output(s)"
  | nodeMissing n => some s!"Node {n} does not exist"
  | nodeNameMissing name => some s!"Node named '{name}' not found"
  | notDesignated n => some s!"Node {n} is not a designated input"
  | cyclicGraph => some "Cycle detected in graph"
  | backEdge a b => some s!"Back edge from node {a} to node {b}"
  | wrongInputCount op expected got => some s!"{op} expects {expected.text} input(s), has {got}"
  | outletMissing o g => some s!"No outlet {o} in graph '{g}'"
  | edgeMissing o i => some s!"No edge {o} -> {i}"
  | noFixpoint n => some s!"No fixpoint after {n} iterations"
  | factCount op a b n k =>
    some s!"{op} rule returned {a}/{b} facts for {n} input(s) and {k} output(s)"
  | ruleRejects op ins outs reason =>
    some s!"{op} rejects inputs {ins} and outputs {outs}: {reasonText reason}"
  | foreignAnalysis => some "Analysis was computed for a different graph"
  | nothingRequested => some "A plan needs at least one output"
  | requestedSlotMissing slot op n => some s!"Requested slot {slot} but {op} has {n} output(s)"
  | nodeFailed _ op reason => some s!"{op} failed: {reasonText reason}"
  | outputCount op got n => some s!"{op} produced {got} output(s), expected {n}"
  | notGraphInput => some "Node is not a graph input"
  | suppliedTwice => some "Input supplied twice (by id and by name)"
  | noValueSupplied inputs =>
    let listed := ", ".intercalate inputs
    some s!"No value supplied for input(s): {listed}"
  | cannotConvert reason => some s!"Cannot convert value to a tensor: {reasonText reason}"
  | inputRejected _ reason => some s!"input rejected, {reason}"
  | unsupportedModelType name => some s!"Unsupported ONNX element type {name}"
  | unsupportedAttribute a op node => some s!"Unsupported attribute '{a}' on {op} node '{node}'"
  | attributeNotDefault op a shown => some s!"{op} attribute {a}={shown} is not supported"
  | unsupportedModelOperator op => some s!"Unsupported ONNX op type: {op}"
  | inputNotStatic op input => some s!"{op} input '{input}' must be an initializer"
  | inputSkipped op node => some s!"{op} node '{node}' skips a non-trailing input"
  | linkTaken name => some s!"Node name '{name}' is already used"
  | valueNeverProduced v => some s!"Value '{v}' is never produced"
  | outputNeverProduced v => some s!"Graph output '{v}' is never produced"
  | notAModel => some "Unsupported model type for ONNX parser"
  | notABoolean v shown => some s!"{v} must be a boolean, got {shown}"
  | notAnInteger v shown => some s!"{v} must be an integer, got {shown}"
  | stepsNotPositive => some "max_iterations must be positive"

end Cause

structure Fault where
  cause : Cause
  -- Stated code; an empty one counts as none.
  statedCode : Option String := none
  node : Option Int := none
  nodeName : Option String := none
  opType : Option String := none
  source : Option Kind := none
  deriving Repr, Inhabited

namespace Fault

instance : Coe Cause Fault := ⟨fun c => ⟨c,none,none,none,none,none⟩⟩

def kind (f : Fault) : Kind := f.cause.kind

def code (f : Fault) : String :=
  match f.statedCode with
  | some c => if c.isEmpty then f.kind.code else c
  | none => f.kind.code

def at? (f : Fault) (node : Int) (name : Option String) : Fault :=
  { f with node := some node, nodeName := name }

-- The wording, after the node when there is one. A missing key is shown quoted.
def text (f : Fault) : Option String :=
  match f.cause.message with
  | none => none
  | some m =>
    if f.kind == .key then some (Text.quote m)
    else match f.node with
    | none => some m
    | some id =>
      let name := f.nodeName.getD "None"
      some s!"node #{id} ({name}): {m}"

def isBadValue (f : Fault) : Bool := f.kind == .value || f.kind == .type

-- What a plan reports for a node whose evaluation failed. Faults of shape and of type stay
-- recognisable.
def evaluating (f : Fault) (node : Int) (name opType : String) : Fault :=
  let kind :=
    if f.kind.isA .shapeMismatch then Kind.shapeEvaluation
    else if f.kind.isA .typeMismatch then Kind.typeEvaluation
    else Kind.evaluation
  { cause := .nodeFailed kind opType f.text
    statedCode := if f.kind.isLocal then some f.code else none
    node := some node, nodeName := some name, opType := some opType, source := some f.kind }

end Fault

abbrev Outcome := Except Fault

def fail {α : Type} (c : Cause) : Outcome α := .error c

end TensorGraph
