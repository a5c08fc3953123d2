import TensorGraph.Op
import TensorGraph.Proofs.Op.Convolved
import TensorGraph.Proofs.Op.Turn

namespace TensorGraph
open Outcome

variable {x w u t : Tensor} {bias : Option Tensor} {rows columns : Windows}

-- Part of an axis that is cut into equal parts.
def Slice.part (parts axis k : Nat) (t : Tensor) : Outcome Tensor :=
  eval (Span.only t.shape.length axis (k * (t.shape.getD axis 0 / parts)) (t.shape.getD axis 0 / parts)) t

theorem Slice.part_le {parts k : Nat} (inside : k < parts) (n : Nat) : k * (n / parts) + n / parts ≤ n := by
  calc k * (n / parts) + n / parts
    _ = (k + 1) * (n / parts) := (Nat.succ_mul ..).symm
    _ ≤ parts * (n / parts) := Nat.mul_le_mul_right _ inside
    _ ≤ n := Nat.mul_div_le ..

theorem Slice.part_ok {parts axis k : Nat} (inside : k < parts) : part parts axis k t =
    .ok (t.block axis (k * (t.shape.getD axis 0 / parts)) (t.shape.getD axis 0 / parts)) :=
  eval_only (part_le inside _)

namespace Convolution

variable {c : Convolution} {k : Nat}

def ungrouped (c : Convolution) : Convolution := { c with groups := 1 }

-- Data, kernel and bias of one group, with channels second and with output channels first.
def dataOf (w : Tensor) (k : Nat) (x : Tensor) : Tensor := x.block 1 (k * w.shape.getD 1 0) (w.shape.getD 1 0)

def outputsOf (c : Convolution) (w : Tensor) (k axis : Nat) (t : Tensor) : Tensor :=
  t.block axis (k * (w.shape.getD 0 0 / c.groups)) (w.shape.getD 0 0 / c.groups)

theorem dataOf_extent (rank : x.shape.length = 4) {a : Nat} (apart : 1 ≠ a) :
    (dataOf w k x).shape.getD a 0 = x.shape.getD a 0 := (Tensor.block_extent (by omega)).trans (if_neg apart)

theorem dataOf_get {n q i j : Nat} (rank : x.shape.length = 4) (batch : n < x.shape.getD 0 0) (channel : q < w.shape.getD 1 0)
    (row : i < x.shape.getD 2 0) (column : j < x.shape.getD 3 0) :
    (dataOf w k x).get [n,q,i,j] = x.get [n,k * w.shape.getD 1 0 + q,i,j] := by
  refine Tensor.get_block ((Shape.mem_four (List.length_set.trans rank)).mpr ?_)
  have axis : 1 < x.shape.length := by omega
  rw [Shape.getD_set axis,Shape.getD_set axis,Shape.getD_set axis,Shape.getD_set axis]
  exact ⟨batch,channel,row,column⟩

theorem outputsOf_get {o q i j : Nat} (rank : w.shape.length = 4) (output : o < w.shape.getD 0 0 / c.groups)
    (channel : q < w.shape.getD 1 0) (row : i < w.shape.getD 2 0) (column : j < w.shape.getD 3 0) :
    (c.outputsOf w k 0 w).get [o,q,i,j] = w.get [k * (w.shape.getD 0 0 / c.groups) + o,q,i,j] := by
  refine Tensor.get_block ((Shape.mem_four (List.length_set.trans rank)).mpr ?_)
  have axis : 0 < w.shape.length := by omega
  rw [Shape.getD_set axis,Shape.getD_set axis,Shape.getD_set axis,Shape.getD_set axis]
  exact ⟨output,channel,row,column⟩

theorem addBias_group {d : DType} {o : Nat} {total : Scalar} (row : ∀ b, bias = some b → b.shape = [w.shape.getD 0 0])
    (output : o < w.shape.getD 0 0 / c.groups) : addBias d (bias.map (c.outputsOf w k 0)) o total =
      addBias d bias (k * (w.shape.getD 0 0 / c.groups) + o) total := by
  cases bias with
  | none => rfl
  | some b =>
    refine congrArg (BinaryKind.add.onScalars d total) (Tensor.get_block (Shape.mem_indices.mpr ?_))
    change List.Forall₂ (· < ·) [o] (b.shape.set 0 _)
    rw [row b rfl]
    exact .cons output .nil

section Group
variable (rankW : w.shape.length = 4)
include rankW

theorem patchOf_group : c.ungrouped.patchOf (c.outputsOf w k 0 w) = c.patchOf w := by
  unfold patchOf outputsOf
  rw [Tensor.block_extent (by omega),Tensor.block_extent (by omega)]
  rfl

theorem outputsOf_outputs : (c.outputsOf w k 0 w).shape.getD 0 0 = w.shape.getD 0 0 / c.groups :=
  (Tensor.block_extent (by omega)).trans (if_pos rfl)

theorem outputsOf_channels : (c.outputsOf w k 0 w).shape.getD 1 0 = w.shape.getD 1 0 :=
  (Tensor.block_extent (by omega)).trans (if_neg (by decide))

variable (rankX : x.shape.length = 4)
include rankX

theorem fits_group (group : k < c.groups) (fits : c.Fits x w bias rows columns) :
    c.ungrouped.Fits (dataOf w k x) (c.outputsOf w k 0 w) (bias.map (c.outputsOf w k 0)) rows columns := by
  constructor
  case channels =>
    rw [dataOf,outputsOf_channels rankW,Tensor.block_extent (by omega)]
    exact Nat.mul_one _
  case outputs => exact Nat.mod_one _
  case windows =>
    rw [patchOf_group rankW,dataOf_extent rankX (by decide),dataOf_extent rankX (by decide)]
    exact fits.windows
  case whole => exact fits.whole
  case counted => exact fits.counted
  case served =>
    rw [patchOf_group rankW]
    intro cell member
    have own := (served_iff cell (Nat.lt_of_le_of_lt (Nat.zero_le k) group)).mp (fits.served cell member)
    refine (served_iff cell Nat.one_pos).mpr ?_
    unfold Patch.served
    rw [patchOf_group rankW,dataOf_extent rankX (by decide),dataOf_extent rankX (by decide)]
    exact own
  case row =>
    intro b found
    obtain ⟨whole,given,rfl⟩ := Option.map_eq_some_iff.mp found
    rw [outputsOf_outputs rankW]
    change whole.shape.set 0 _ = _
    rw [fits.row whole given]
    rfl

theorem total_group {n o y z : Nat}
    (batch : n < x.shape.getD 0 0) (output : o < w.shape.getD 0 0 / c.groups) :
    c.ungrouped.total (dataOf w k x) (c.outputsOf w k 0 w) rows columns n o y z =
      c.total x w rows columns n (k * (w.shape.getD 0 0 / c.groups) + o) y z := by
  have own : o / (w.shape.getD 0 0 / c.groups / c.ungrouped.groups) = 0 :=
    Nat.div_eq_of_lt (by rwa [show c.ungrouped.groups = 1 from rfl,Nat.div_one])
  have place : (k * (w.shape.getD 0 0 / c.groups) + o) / (w.shape.getD 0 0 / c.groups) = k := by
    rw [Nat.add_comm,Nat.add_mul_div_right _ _ (by omega),Nat.div_eq_of_lt output,Nat.zero_add]
  unfold total tap
  rw [patchOf_group rankW,dataOf_extent rankX (by decide),dataOf_extent rankX (by decide),outputsOf_outputs rankW,
    outputsOf_channels rankW,own,place]
  refine List.foldl_ext _ _ _ fun acc cell member => congrArg (BinaryKind.add.onScalars x.dtype acc) ?_
  obtain ⟨high,wide⟩ := Patch.mem_cells member
  refine channelSum_congr rfl (fun q inside filler row column => ?_) fun q inside => ?_
  · refine Image.element_congr (fun a spatial => dataOf_extent rankX (by omega)) (fun i j below beside => ?_) filler row column
    rw [dataOf_extent rankX (by decide)] at below beside
    rw [dataOf_get rankX batch (by omega) below beside,Nat.zero_mul,Nat.zero_add]
  · rw [outputsOf_get rankW output inside (Int.ofNat_lt.mp high) (Int.ofNat_lt.mp wide)]

-- Inside one group a convolution is one without groups.
theorem apply_group (group : k < c.groups) (evaluated : c.apply x w bias = .ok u) :
    c.ungrouped.apply (dataOf w k x) (c.outputsOf w k 0 w) (bias.map (c.outputsOf w k 0)) =
      .ok (c.outputsOf w k 1 u) := by
  obtain ⟨rows,columns,fits,rfl⟩ := apply_ok.mp evaluated
  refine apply_ok.mpr ⟨rows,columns,fits_group rankW rankX group fits,?_⟩
  have batches : (dataOf w k x).shape.getD 0 0 = x.shape.getD 0 0 := dataOf_extent rankX (by decide)
  have outputs := outputsOf_outputs (c := c) (k := k) rankW
  have shape : (c.convolved x w bias rows columns).shape.set 1 (w.shape.getD 0 0 / c.groups) =
      [(dataOf w k x).shape.getD 0 0,(c.outputsOf w k 0 w).shape.getD 0 0,rows.count.toNat,columns.count.toNat] := by
    rw [batches,outputs]
    rfl
  change Tensor.tabulate x.dtype ((c.convolved x w bias rows columns).shape.set 1 _) _ = Tensor.tabulate x.dtype _ _
  rw [shape]
  refine Tensor.tabulate_congr fun index inside => ?_
  rw [batches,outputs] at inside
  match index, Shape.mem_indices.mp inside with
  | [n,o,y,z], .cons batch (.cons output (.cons row (.cons column .nil))) =>
    have inside : k * (w.shape.getD 0 0 / c.groups) + o < w.shape.getD 0 0 :=
      Nat.lt_of_lt_of_le (Nat.add_lt_add_left output _) (Slice.part_le group _)
    have member : [n,k * (w.shape.getD 0 0 / c.groups) + o,y,z] ∈ (c.convolved x w bias rows columns).shape.indices :=
      Shape.mem_indices.mpr (.cons batch (.cons inside (.cons row (.cons column .nil))))
    refine (Tensor.get_tabulate _ _ member).trans ?_
    exact (addBias_group fits.row output).symm.trans
      (congrArg (addBias x.dtype (bias.map (c.outputsOf w k 0)) o) (total_group rankW rankX batch output).symm)

end Group

end Convolution

-- Where an order of four axes holds just under a flag, a block of the result is a block of what it came from.
theorem Transpose.reordered_block {flag : Bool} {perm : List Int} {b : Nat} (start size : Nat) (rank : t.shape.length = 4)
    (valid : permutation (some perm) 4 = .ok (perm.map Int.toNat)) (axis : b < 4)
    (found : (if flag then eval (some perm) t else .ok t) = .ok u)
    (room : start + size ≤ u.shape.getD b 0) :
    (if flag then eval (some perm) (t.block (if flag then (perm.map Int.toNat).getD b 0 else b) start size)
      else .ok (t.block (if flag then (perm.map Int.toNat).getD b 0 else b) start size)) =
        .ok (u.block b start size) := by
  cases flag with
  | false =>
    cases found
    rfl
  | true =>
    obtain ⟨p,permuted,rfl⟩ := eval_turn found
    rw [rank,valid] at permuted
    cases permuted
    have order := permutation_perm valid
    rw [← rank] at order axis
    have extent := getD_map order (fun a => t.shape.getD a 0) axis
    refine (eval_eq_turn ?_).trans (congrArg Except.ok (block_turn order axis (extent ▸ room)).symm)
    rw [Tensor.block,Tensor.tabulate,List.length_set,rank]
    exact valid

namespace Convolution

variable {c : Convolution} {k : Nat}

def channelAxis (c : Convolution) : Nat := (c.patch (0,0)).channelAxis

-- The convolution without groups of one part of the channels of the data, of the output channels of the kernel and of
-- the bias.
def evalGroup (c : Convolution) (x w : Tensor) (bias : Option Tensor) (k : Nat) : Outcome Tensor := do
  let data ← Slice.part c.groups c.channelAxis k x
  let kernel ← Slice.part c.groups c.kernelAxes.1 k w
  let added ← bias.mapM (Slice.part c.groups 0 k)
  c.ungrouped.eval data kernel added

theorem channelAxis_eq : c.channelAxis = if c.channelsLast then 3 else 1 := rfl

theorem outputAxis_eq : c.kernelAxes.1 = if c.kernelSpatialFirst then 3 else 0 := by
  unfold kernelAxes
  cases c.kernelSpatialFirst <;> rfl

-- The axes that are cut into groups, in their own layouts.
structure Cut (c : Convolution) (x w : Tensor) (bias : Option Tensor) (u data kernel result : Tensor) : Prop where
  ranks : data.shape.length = 4 ∧ kernel.shape.length = 4 ∧ result.shape.length = 4
  channels : data.shape.getD 1 0 = kernel.shape.getD 1 0 * c.groups
  whole : kernel.shape.getD 0 0 % c.groups = 0
  input : x.shape.getD c.channelAxis 0 = kernel.shape.getD 1 0 * c.groups
  output : w.shape.getD c.kernelAxes.1 0 = kernel.shape.getD 0 0
  row : ∀ b, bias = some b → b.shape.getD 0 0 = kernel.shape.getD 0 0
  result : u.shape.getD c.channelAxis 0 = kernel.shape.getD 0 0
  rank : u.shape.length = 4
  table : u.table = u

section Through
variable {data kernel result : Tensor} (through : c.Through x w bias u data kernel result)
include through

theorem Through.cut : c.Cut x w bias u data kernel result := by
  obtain ⟨-,shapeX⟩ := Image.toChannelsSecond_parts (p := c.patch (0,0)) through.ranks.1 through.turned
  obtain ⟨-,shapeW⟩ := kernelOutputFirst_parts through.ranks.2 through.ordered
  obtain ⟨rows,columns,fits,rfl⟩ := apply_ok.mp through.applied
  obtain ⟨-,shapeU⟩ := Image.ofChannelsSecond_parts rfl through.returned
  have channel : data.shape.getD 1 0 = x.shape.getD c.channelAxis 0 := congrArg (List.getD · 1 0) shapeX
  have output : kernel.shape.getD 0 0 = w.shape.getD c.kernelAxes.1 0 := congrArg (List.getD · 0 0) shapeW
  constructor
  case ranks => exact ⟨congrArg List.length shapeX,congrArg List.length shapeW,rfl⟩
  case channels => exact fits.channels.symm
  case whole => exact fits.outputs
  case input => exact channel.symm.trans fits.channels.symm
  case output => exact output.symm
  case row =>
    intro b given
    rw [fits.row b given]
    rfl
  case result =>
    rw [shapeU,channelAxis_eq,Image.arranged]
    cases c.channelsLast <;> rfl
  case rank =>
    rw [shapeU,Image.arranged]
    split <;> rfl
  case table =>
    have returned := through.returned
    unfold Image.ofChannelsSecond at returned
    split at returned
    · obtain ⟨p,-,rfl⟩ := Transpose.eval_turn returned
      exact Tensor.table_tabulate
    · cases returned
      exact Tensor.table_tabulate

-- What the layouts make of the parts of a group is what the group has when channels are second.
theorem Through.group (group : k < c.groups) : c.ungrouped.Through
      (x.block c.channelAxis (k * kernel.shape.getD 1 0) (kernel.shape.getD 1 0))
      (c.outputsOf kernel k c.kernelAxes.1 w) (bias.map (c.outputsOf kernel k 0)) (c.outputsOf kernel k c.channelAxis u)
      (dataOf kernel k data) (c.outputsOf kernel k 0 kernel) (c.outputsOf kernel k 1 result) := by
  have cut := through.cut
  constructor
  case float => exact through.float
  case types =>
    have types := through.types
    cases bias <;> exact types
  case ranks => exact ⟨List.length_set.trans through.ranks.1,List.length_set.trans through.ranks.2⟩
  case turned =>
    refine Transpose.reordered_block (b := 1) _ _ through.ranks.1 rfl (by decide) through.turned ?_
    calc k * kernel.shape.getD 1 0 + kernel.shape.getD 1 0
      _ = (k + 1) * kernel.shape.getD 1 0 := (Nat.succ_mul ..).symm
      _ ≤ c.groups * kernel.shape.getD 1 0 := Nat.mul_le_mul_right _ group
      _ = data.shape.getD 1 0 := (Nat.mul_comm ..).trans cut.channels.symm
  case ordered =>
    have ordered := Transpose.reordered_block (b := 0) _ _ through.ranks.2 rfl (by decide) through.ordered
      (Slice.part_le group _)
    rw [outputAxis_eq]
    exact ordered
  case applied => exact apply_group cut.ranks.2.1 cut.ranks.1 group through.applied
  case returned =>
    have axis : (if c.channelsLast then ([0,2,3,1].map Int.toNat).getD c.channelAxis 0 else c.channelAxis) = 1 := by
      rw [channelAxis_eq]
      cases c.channelsLast <;> rfl
    have inside : c.channelAxis < 4 := by
      rw [channelAxis_eq]
      split <;> decide
    have returned := Transpose.reordered_block (b := c.channelAxis)
      (k * (kernel.shape.getD 0 0 / c.groups)) (kernel.shape.getD 0 0 / c.groups) cut.ranks.2.2 rfl inside
      through.returned
    rw [axis,cut.result] at returned
    exact returned (Slice.part_le group _)

theorem Through.evalGroup (group : k < c.groups) :
    c.evalGroup x w bias k = .ok (c.outputsOf kernel k c.channelAxis u) := by
  have cut := through.cut
  have evaluated := eval_ok.mpr ⟨_,_,_,through.group group⟩
  have channels : x.shape.getD c.channelAxis 0 / c.groups = kernel.shape.getD 1 0 := by
    rw [cut.input,Nat.mul_div_cancel _ (by omega)]
  refine bind_ok.mpr ⟨_,Slice.part_ok group,bind_ok.mpr ⟨_,Slice.part_ok group,bind_ok.mpr
    ⟨bias.map (c.outputsOf kernel k 0),?_,?_⟩⟩⟩
  · cases bias with
    | none => rfl
    | some b =>
      change (Slice.part c.groups 0 k b).map some = _
      rw [Slice.part_ok group,cut.row b rfl]
      rfl
  · rw [channels,cut.output]
    exact evaluated

end Through

-- In any layout a convolution in groups is the groups' own convolutions, joined along the channels.
theorem eval_grouped (positive : 0 < c.groups) (evaluated : c.eval x w bias = .ok u) : ∃ us,
    (List.range c.groups).mapM (c.evalGroup x w bias) = .ok us ∧ (Op.concat c.channelAxis).eval us = .ok [u] := by
  obtain ⟨data,kernel,result,through⟩ := eval_ok.mp evaluated
  have cut := through.cut
  refine ⟨_,mapM_eq_map fun k member => through.evalGroup (List.mem_range.mp member),?_⟩
  have blocks := Tensor.blocks_replicate u c.channelAxis 0 (kernel.shape.getD 0 0 / c.groups) c.groups
  have axis : normalizeAxis c.channelAxis u.shape.length = .ok c.channelAxis := by
    rw [cut.rank,channelAxis_eq]
    split <;> rfl
  have sum : (List.replicate c.groups (kernel.shape.getD 0 0 / c.groups)).sum = u.shape.getD c.channelAxis 0 := by
    rw [cut.result,List.sum_replicate_nat,Nat.mul_div_cancel' (Nat.dvd_of_mod_eq_zero cut.whole)]
  simp only [Nat.zero_add] at blocks
  unfold outputsOf
  rw [← blocks]
  cases parts : u.blocks c.channelAxis 0 (List.replicate c.groups (kernel.shape.getD 0 0 / c.groups)) with
  | nil =>
    rw [parts,eq_comm,List.map_eq_nil_iff,List.range_eq_nil] at blocks
    omega
  | cons first rest =>
    have joined := Concat.eval_blocks parts axis sum
    rw [cut.table] at joined
    change (Concat.eval c.channelAxis first rest).map _ = _
    rw [joined]
    rfl

-- Two groups, each of one channel of the data and two of the result, which come last.
theorem eval_grouped_last : ∃ u us,
    { sides with channelsLast := true, kernelSpatialFirst := true }.eval (counting [1,2,3,2]) (counting [2,2,1,4])
      (some (counting [4])) = .ok u ∧ 0 < sides.groups ∧
    (List.range 2).mapM ({ sides with channelsLast := true, kernelSpatialFirst := true }.evalGroup (counting [1,2,3,2])
      (counting [2,2,1,4]) (some (counting [4]))) = .ok us ∧ (Op.concat 3).eval us = .ok [u] := by
  have evaluated : { sides with channelsLast := true, kernelSpatialFirst := true }.eval (counting [1,2,3,2])
      (counting [2,2,1,4]) (some (counting [4])) = .ok _ := rfl
  obtain ⟨us,each,joined⟩ := eval_grouped (by decide) evaluated
  exact ⟨_,us,evaluated,by decide,each,joined⟩

end Convolution

end TensorGraph
