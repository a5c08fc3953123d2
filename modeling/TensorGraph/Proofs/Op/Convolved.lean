import TensorGraph.Proofs.Op.Exact.Elementwise
import TensorGraph.Proofs.Op.Taps

namespace TensorGraph
open Outcome

-- It does not matter which of the factors comes first.
theorem Binary.mul_swap (f : Format) (x y : Binary) : mul f x y = mul f y x := by
  cases x <;> cases y
  case infinite.infinite s t => exact congrArg infinite bne_comm
  case infinite.finite s t n r => rw [mul,mul,bne_comm]
  case finite.infinite s m q t => rw [mul,mul,bne_comm]
  case finite.finite s m q t n r => rw [mul,mul,bne_comm,Nat.mul_comm,Int.add_comm]
  all_goals rfl

theorem MatMul.dot_swap (t : DType) (pairs : List (Scalar × Scalar)) : dot t (pairs.map Prod.swap) = dot t pairs := by
  unfold dot
  simp only [List.foldl_map]
  split
  · refine congrArg (fun total : Binary => Scalar.float (total.convert _)) (List.foldl_ext _ _ _ ?_)
    rintro acc ⟨a,b⟩ -
    cases a <;> cases b <;> simp only [Prod.swap_prod_mk]
    rw [Binary.mul_swap]
  · refine congrArg (fun total : Int => Scalar.int (DType.wrap _ _ total)) (List.foldl_ext _ _ _ ?_)
    rintro acc ⟨a,b⟩ -
    cases a <;> cases b <;> simp only [Prod.swap_prod_mk]
    rw [Int.mul_comm]
  · rfl

namespace Convolution

variable {c : Convolution} {x w u : Tensor} {bias : Option Tensor} {rows columns : Windows}

theorem channelSum_congr {x' w' : Tensor} {n o o' i j first first' count r s : Nat} (dtype : x'.dtype = x.dtype)
    (data : ∀ q < count, ∀ filler row column,
      Image.element x' filler n (first' + q) row column = Image.element x filler n (first + q) row column)
    (kernel : ∀ q < count, w'.get [o',q,i,j] = w.get [o,q,i,j]) :
    channelSum x' w' rows columns n o' i j first' count r s = channelSum x w rows columns n o i j first count r s := by
  unfold channelSum
  rw [dtype]
  refine congrArg (MatMul.dot x.dtype) (List.map_congr_left fun q member => ?_)
  have inside := List.mem_range.mp member
  rw [Image.padded_eq,Image.padded_eq,data q inside,kernel q inside]

-- The sum over the channels of a group at a cell of the kernel and a position of the data: one product after the other
-- is added to zero in the format for longer computations, and the sum is rounded once. Outside of the data there is zero.
def channels (x w : Tensor) (n o first i j : Nat) (row column : Int) : Scalar :=
  match x.dtype.layout with
  | .float f => .float (((List.range (w.shape.getD 1 0)).foldl (fun acc k =>
      match w.get [o,k,i,j], Image.element x (.zero x.dtype) n (first + k) row column with
      | .float a, .float b => Binary.add f.working acc (Binary.mul f.working a b)
      | _, _ => acc) Binary.zero).convert f)
  | _ => .zero x.dtype

-- The element of a convolution from its definition: the cells of the kernel row by row, at each of them the sum
-- over the channels of the group, and the bias last.
def direct (c : Convolution) (x w : Tensor) (bias : Option Tensor) (top left : Int) (n o y z : Nat) : Scalar :=
  let first := o / (w.shape.getD 0 0 / c.groups) * w.shape.getD 1 0
  addBias x.dtype bias o <|
    (List.range (w.shape.getD 2 0)).foldl (fun acc i => (List.range (w.shape.getD 3 0)).foldl (fun acc j =>
      BinaryKind.add.onScalars x.dtype acc <| channels x w n o first i j
        (y * c.strides.1 + i * c.dilations.1 - top) (z * c.strides.2 + j * c.dilations.2 - left)) acc) (.zero x.dtype)

-- The products that a cell of the window adds up are those of the kernel with the data.
theorem dot_channels {f : Binary.Format} (layout : x.dtype.layout = .float f) {n o first i j : Nat} {row column : Int} :
    MatMul.dot x.dtype ((List.range (w.shape.getD 1 0)).map fun k =>
      (Image.element x (.zero x.dtype) n (first + k) row column,w.get [o,k,i,j])) = channels x w n o first i j row column := by
  rw [← MatMul.dot_swap,List.map_map]
  unfold MatMul.dot channels
  rw [layout]
  dsimp only
  rw [List.foldl_map]
  rfl

theorem total_direct {n o y z : Nat} {f : Binary.Format} (layout : x.dtype.layout = .float f)
    (windows : (c.patchOf w).outputPair (x.shape.getD 2 0) (x.shape.getD 3 0) = .ok (rows,columns))
    (forward : Pooling.Forward (c.patchOf w)) (row : y < rows.count.toNat) (column : z < columns.count.toNat) :
    addBias x.dtype bias o (c.total x w rows columns n o y z) = c.direct x w bias rows.first columns.first n o y z := by
  have step : c.total x w rows columns n o y z = (c.patchOf w).cells.foldl (fun acc cell =>
      BinaryKind.add.onScalars x.dtype acc <|
        channels x w n o (o / (w.shape.getD 0 0 / c.groups) * w.shape.getD 1 0) cell.1 cell.2
          (y * c.strides.1 + cell.1 * c.dilations.1 - rows.first)
          (z * c.strides.2 + cell.2 * c.dilations.2 - columns.first)) (.zero x.dtype) := by
    refine List.foldl_ext _ _ _ fun acc cell member => congrArg (BinaryKind.add.onScalars x.dtype acc) ?_
    have tap := fun k => Patch.padded_tap x (.zero x.dtype) (n := n)
      (c := o / (w.shape.getD 0 0 / c.groups) * w.shape.getD 1 0 + k) windows forward member row column
    dsimp only [patchOf,patch] at tap
    unfold Convolution.tap channelSum
    simp only [tap]
    exact dot_channels layout
  rw [step,Patch.foldl_cells]
  unfold direct patchOf patch
  simp only [Int.toNat_natCast]

-- A convolution in any layout is one of data with channels second by a kernel with output channels first.
structure Through (c : Convolution) (x w : Tensor) (bias : Option Tensor) (u data kernel result : Tensor) : Prop where
  float : requireFloat "Conv" x.dtype = .ok ()
  types : MatMul.requireSameDType "Conv" (x :: w :: bias.toList) = .ok ()
  ranks : x.shape.length = 4 ∧ w.shape.length = 4
  turned : Image.toChannelsSecond c.channelsLast x = .ok data
  ordered : c.kernelOutputFirst w = .ok kernel
  applied : c.apply data kernel bias = .ok result
  returned : Image.ofChannelsSecond c.channelsLast result = .ok u

theorem four_ranks (rankX : x.shape.length = 4) (rankW : w.shape.length = 4) :
    ¬ (decide (x.rank ≠ 4) || decide (w.rank ≠ 4)) = true := by
  rw [Tensor.rank,Tensor.rank,rankX,rankW]
  decide

theorem eval_ok : c.eval x w bias = .ok u ↔ ∃ data kernel result, c.Through x w bias u data kernel result := by
  constructor
  · intro evaluated
    obtain ⟨_,float,evaluated⟩ := bind_ok.mp evaluated
    obtain ⟨_,types,evaluated⟩ := bind_ok.mp evaluated
    split at evaluated
    · cases evaluated
    · rename_i ranks
      simp only [Bool.or_eq_true,decide_eq_true_eq,not_or,ne_eq,Decidable.not_not] at ranks
      obtain ⟨data,turned,evaluated⟩ := bind_ok.mp evaluated
      obtain ⟨kernel,ordered,evaluated⟩ := bind_ok.mp evaluated
      obtain ⟨result,applied,returned⟩ := bind_ok.mp evaluated
      exact ⟨data,kernel,result,float,types,ranks,turned,ordered,applied,returned⟩
  · rintro ⟨data,kernel,result,through⟩
    refine bind_ok.mpr ⟨(),through.float,bind_ok.mpr ⟨(),through.types,?_⟩⟩
    rw [if_neg (four_ranks through.ranks.1 through.ranks.2)]
    exact bind_ok.mpr ⟨data,through.turned,bind_ok.mpr ⟨kernel,through.ordered,
      bind_ok.mpr ⟨result,through.applied,through.returned⟩⟩⟩

theorem eval_direct (layout : c.channelsLast = false) (kernelLayout : c.kernelSpatialFirst = false)
    (steps : 1 ≤ c.strides.1 ∧ 1 ≤ c.strides.2) (spread : 1 ≤ c.dilations.1 ∧ 1 ≤ c.dilations.2)
    (evaluated : c.eval x w bias = .ok u) : ∃ rows columns,
    (c.patch (w.shape.getD 2 0,w.shape.getD 3 0)).outputPair (x.shape.getD 2 0) (x.shape.getD 3 0) =
      .ok (rows,columns) ∧ u.dtype = x.dtype ∧
        u.shape = [x.shape.getD 0 0,w.shape.getD 0 0,rows.count.toNat,columns.count.toNat] ∧
          ∀ n o y z, [n,o,y,z] ∈ u.shape.indices →
            u.get [n,o,y,z] = c.direct x w bias rows.first columns.first n o y z := by
  obtain ⟨data,kernel,result,through⟩ := eval_ok.mp evaluated
  have turned := through.turned
  have ordered := through.ordered
  have returned := through.returned
  rw [layout] at turned returned
  unfold kernelOutputFirst at ordered
  rw [kernelLayout] at ordered
  cases turned
  cases ordered
  cases returned
  obtain ⟨rows,columns,fits,rfl⟩ := apply_ok.mp through.applied
  refine ⟨rows,columns,fits.windows,rfl,rfl,fun n o y z inside => ?_⟩
  have forward : Pooling.Forward (c.patchOf w) := by
    change 0 ≤ c.strides.1 ∧ 0 ≤ c.strides.2 ∧ 0 ≤ c.dilations.1 ∧ 0 ≤ c.dilations.2
    omega
  match Shape.mem_indices.mp inside with
  | .cons _ (.cons _ (.cons row (.cons column .nil))) =>
    obtain ⟨f,float⟩ := DType.isFloat_iff.mp (requireFloat_ok through.float)
    exact (Tensor.get_tabulate _ _ inside).trans (total_direct float fits.windows forward row column)

def sides : Convolution := ⟨(2,1),(1,2),.explicit [1,0,0,1],2,none,false,false⟩

def counting (shape : Shape) : Tensor := .tabulate .f64 shape fun index => .float (.ofInt .double (Shape.offset shape index))

-- Two groups of one channel, two rows apart, cells two columns apart, and a border above and on the right. Of the
-- last window one cell lies on the data, 6 times 7, and the bias is 1.
set_option maxRecDepth 4000 in
theorem eval_direct_sides : ∃ u, sides.eval (counting [1,2,2,3]) (counting [2,1,2,2]) (some (counting [2])) = .ok u ∧
    u.shape = [1,2,1,2] ∧ u.get [0,1,0,1] =
      sides.direct (counting [1,2,2,3]) (counting [2,1,2,2]) (some (counting [2])) 1 0 0 1 0 1 ∧
        u.get [0,1,0,1] = .float (.ofInt .double 43) := by
  have evaluated : sides.eval (counting [1,2,2,3]) (counting [2,1,2,2]) (some (counting [2])) = .ok _ := rfl
  obtain ⟨rows,columns,windows,-,shape,each⟩ := eval_direct rfl rfl (by decide) (by decide) evaluated
  have computed : (sides.patch (2,2)).outputPair 2 3 = .ok (⟨1,1,0⟩,⟨2,0,1⟩) := rfl
  cases computed.symm.trans windows
  have element := each 0 1 0 1 (by rw [shape]; decide)
  exact ⟨_,evaluated,shape,element,element.trans rfl⟩

end Convolution

end TensorGraph
