import TensorGraph.Op.Normalize
import TensorGraph.Op.Window

namespace TensorGraph

structure Convolution where
  strides : Int × Int
  dilations : Int × Int
  padding : Padding
  groups : Nat
  kernelShape : Option (Int × Int)
  channelsLast : Bool
  -- The kernel has its spatial axes first, then input and output channels.
  kernelSpatialFirst : Bool
  deriving Repr

namespace Convolution

def patch (c : Convolution) (kernel : Int × Int) : Patch :=
  ⟨kernel,c.strides,c.dilations,c.padding,c.channelsLast⟩

-- Position of output channels, input channels, rows and columns in the kernel's shape.
def kernelAxes (c : Convolution) : Nat × Nat × Nat × Nat :=
  if c.kernelSpatialFirst then (3,2,0,1) else (0,1,2,3)

def kernelOutputFirst (c : Convolution) (w : Tensor) : Outcome Tensor :=
  if c.kernelSpatialFirst then Transpose.eval (some [3,2,0,1]) w else .ok w

def channelSums (view w : Tensor) (i j group perGroup perOutput : Nat) : Tensor :=
  .tabulate view.dtype [view.shape.getD 0 0,perOutput,view.shape.getD 2 0,view.shape.getD 3 0]
    fun index =>
      MatMul.dot view.dtype ((List.range perGroup).map fun k =>
        (view.get [index.getD 0 0,group * perGroup + k,index.getD 2 0,index.getD 3 0],
          w.get [group * perOutput + index.getD 1 0,k,i,j]))

def addChannels (total block : Tensor) (first : Nat) : Outcome Tensor := do
  let channels := block.shape.getD 1 0
  let block ← block.stretchTo
    [total.shape.getD 0 0,channels,total.shape.getD 2 0,total.shape.getD 3 0]
  return .tabulate total.dtype total.shape fun index =>
    let c := index.getD 1 0
    if first ≤ c && c < first + channels then
      BinaryKind.add.onScalars total.dtype (total.get index) (block.get (index.set 1 (c - first)))
    else total.get index

-- Cell by cell of the window, in row-major order, the channel sums of each group are added for all
-- windows at once, and the bias last.
def apply (c : Convolution) (x w : Tensor) (bias : Option Tensor) : Outcome Tensor := do
  let channels := x.shape.getD 1 0
  let outChannels := w.shape.getD 0 0
  let perGroup := w.shape.getD 1 0
  if perGroup * c.groups ≠ channels || outChannels % c.groups ≠ 0 then
    fail (.convChannels channels w.shape c.groups)
  let patch := c.patch (w.shape.getD 2 0,w.shape.getD 3 0)
  let height := x.shape.getD 2 0
  let width := x.shape.getD 3 0
  let (rows,columns) ← patch.outputPair height width
  let padded ← Image.pad x (.zero x.dtype) rows columns
  if rows.count < 0 || columns.count < 0 then fail (.unworded .value)
  let perOutput := outChannels / c.groups
  let total ← (patch.views padded height width rows columns).foldlM
    (fun total (i,j,view) => (List.range c.groups).foldlM
      (fun total group =>
        addChannels total (channelSums view w i j group perGroup perOutput) (group * perOutput)) total)
    (Tensor.zeros x.dtype [x.shape.getD 0 0,outChannels,rows.count.toNat,columns.count.toNat])
  match bias with
  | some b =>
    unless b.shape = [outChannels] do fail (.convBias outChannels b.shape)
    Image.addTo total (b.reshape [1,outChannels,1,1])
  | none => return total

def eval (c : Convolution) (x w : Tensor) (bias : Option Tensor) : Outcome Tensor := do
  requireFloat "Conv" x.dtype
  MatMul.requireSameDType "Conv" (x :: w :: bias.toList)
  if x.rank ≠ 4 || w.rank ≠ 4 then fail .convRank
  let data ← Image.toChannelsSecond c.channelsLast x
  Image.ofChannelsSecond c.channelsLast (← c.apply data (← c.kernelOutputFirst w) bias)

def declareKernel (c : Convolution) (k : Fact) : Outcome Fact := do
  match c.kernelShape with
  | none => return k
  | some (h,w) =>
    let spatial := [← Dim.ofInt h,← Dim.ofInt w]
    let channels := [Dim.unknown,Dim.unknown]
    k.withDims (if c.kernelSpatialFirst then spatial ++ channels else channels ++ spatial)

def outputDims (c : Convolution) (xs ks : ShapeFact) (channels : Dim) : Outcome ShapeFact := do
  let (_,_,row,column) := c.kernelAxes
  match ks.getD row .unknown,ks.getD column .unknown with
  | .known h,.known w => (c.patch (h,w)).outputDims xs channels
  | _,_ =>
    let batch := xs.getD 0 .unknown
    return if c.channelsLast then [batch,.unknown,.unknown,channels]
      else [batch,channels,.unknown,.unknown]

def infer (c : Convolution) (inputs outputs : Facts) : Outcome (Facts × Facts) := do
  let facts ← (inputs ++ outputs.pad 1).shareDType
  let ins := facts.dropLast
  let out := facts.getLastD .unknown
  match ins with
  | [] => fail (.unworded .index)
  | x :: others =>
    requireFloatFact "Conv" x
    let x ← x.withDims (List.replicate 4 .unknown)
    match others with
    | [] => fail (.unworded .index)
    | k :: rest =>
      let k ← c.declareKernel (← k.withDims (List.replicate 4 .unknown))
      let xs := x.shape.getD []
      let ks := k.shape.getD []
      let (output,input,_,_) := c.kernelAxes
      match xs.getD (if c.channelsLast then 3 else 1) .unknown,ks.getD input .unknown with
      | .known n,.known m =>
        if m * c.groups ≠ n then fail (.convChannelFacts n m c.groups)
      | _,_ => pure ()
      let channels := ks.getD output .unknown
      match rest with
      | [] =>
        return ([x,k],[← out.withDims (← c.outputDims xs ks channels)])
      | bias :: more =>
        let bias ← bias.withDims [channels]
        let channels := (bias.shape.getD []).headD .unknown
        let k ← k.withDims ((List.replicate 4 Dim.unknown).set output channels)
        let ks := k.shape.getD []
        return (x :: k :: bias :: more,[← out.withDims (← c.outputDims xs ks channels)])

end Convolution

end TensorGraph
