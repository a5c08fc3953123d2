import TensorGraph.Proofs.Op.Gathered
import TensorGraph.Proofs.Op.Sound.Axes
import TensorGraph.Proofs.Op.Sound.Elementwise

namespace TensorGraph
open Outcome Facts

variable {ins outs : Facts} {r : Facts × Facts} {x out : Fact} {t u w : Tensor} {shape : Shape} {c : Nat}

theorem shape_of_rank (rank : shape.length = 4) : ∃ a b c d, shape = [a,b,c,d] := by
  match shape, rank with
  | [a,b,c,d], _ => exact ⟨a,b,c,d,rfl⟩

-- Four axes, reordered where a flag is set.
theorem Transpose.reordered_parts {flag : Bool} {perm : List Int} (rank : t.shape.length = 4)
    (valid : permutation (some perm) 4 = .ok (perm.map Int.toNat))
    (found : (if flag then eval (some perm) t else .ok t) = .ok u) : u.dtype = t.dtype ∧
      u.shape = (if flag then perm.map Int.toNat else [0,1,2,3]).map fun a => t.shape.getD a 0 := by
  cases flag with
  | true =>
    obtain ⟨q,permuted,dtype,result⟩ := eval_parts found
    rw [rank,valid] at permuted
    cases permuted
    exact ⟨dtype,result⟩
  | false =>
    obtain ⟨_,_,_,_,shape⟩ := shape_of_rank rank
    cases found
    rw [shape]
    exact ⟨rfl,rfl⟩

namespace Image

-- Batch, channels, rows and columns in the order of a layout.
def arranged (last : Bool) (n c h w : Nat) : Shape := if last then [n,h,w,c] else [n,c,h,w]

theorem toChannelsSecond_parts {p : Patch} (rank : t.shape.length = 4)
    (found : toChannelsSecond p.channelsLast t = .ok u) : u.dtype = t.dtype ∧
      u.shape = [t.shape.getD 0 0,t.shape.getD p.channelAxis 0,t.shape.getD p.spatialAxes.1 0,
        t.shape.getD p.spatialAxes.2 0] := by
  obtain ⟨dtype,result⟩ := Transpose.reordered_parts rank rfl found
  refine ⟨dtype,result.trans ?_⟩
  unfold Patch.channelAxis Patch.spatialAxes
  cases p.channelsLast <;> rfl

theorem ofChannelsSecond_parts {last : Bool} {n h w : Nat} (shape : t.shape = [n,c,h,w])
    (found : ofChannelsSecond last t = .ok u) : u.dtype = t.dtype ∧ u.shape = arranged last n c h w := by
  have rank : t.shape.length = 4 := congrArg List.length shape
  obtain ⟨dtype,result⟩ := Transpose.reordered_parts rank rfl found
  rw [shape] at result
  refine ⟨dtype,result.trans ?_⟩
  cases last <;> rfl

end Image

namespace Patch

variable {p : Patch} {s dims : ShapeFact} {rows columns : Windows}

theorem spatial_fits {d e : Dim} {h w : Nat} (holdsRows : d.accepts h = true)
    (holdsColumns : e.accepts w = true) (windows : p.outputPair h w = .ok (rows,columns))
    (found : spatial p d e = .ok dims) : dims.Fits [rows.count.toNat,columns.count.toNat] := by
  unfold spatial at found
  split at found
  · cases Dim.accepts_known.mp holdsRows
    cases Dim.accepts_known.mp holdsColumns
    obtain ⟨ws,each,paired⟩ := bind_ok.mp windows
    obtain ⟨ws',again,counted⟩ := bind_ok.mp found
    cases each.symm.trans again
    split at paired
    · cases paired
      have related := mapM_ok.mp counted
      match related with
      | .cons first (.cons second .nil) =>
        exact .cons (Dim.ofInt_accepts first rfl) (.cons (Dim.ofInt_accepts second rfl) .nil)
    · cases paired
  · cases found
    exact .cons rfl (.cons rfl .nil)

-- Windows over images of one shape have another: an element for each window.
def Covers (p : Patch) (shape : Shape) (channels : Nat) (result : Shape) : Prop :=
  ∃ rows columns, p.outputPair (shape.getD p.spatialAxes.1 0) (shape.getD p.spatialAxes.2 0) =
      .ok (rows,columns) ∧ result = Image.arranged p.channelsLast (shape.getD 0 0) channels rows.count.toNat columns.count.toNat

theorem outputDims_fits {d : Dim} {result : Shape} (covers : p.Covers shape c result) (fits : s.Fits shape)
    (channels : d.accepts c = true) (found : p.outputDims s d = .ok dims) : dims.Fits result := by
  obtain ⟨rows,columns,windows,rfl⟩ := covers
  have extent (a : Nat) {e : Dim} (found : entry s a = .ok e) : e.accepts (shape.getD a 0) = true :=
    entry_getD found ▸ fits.extent a 0
  rw [outputDims_eq] at found
  obtain ⟨high,first,found⟩ := bind_ok.mp found
  obtain ⟨wide,second,found⟩ := bind_ok.mp found
  obtain ⟨extents,each,found⟩ := bind_ok.mp found
  obtain ⟨batch,front,equal⟩ := bind_ok.mp found
  cases equal
  have spatial := spatial_fits (extent _ first) (extent _ second) windows each
  unfold arrange Image.arranged
  split
  · exact .cons (extent 0 front) (List.rel_append spatial (.cons channels .nil))
  · exact .cons (extent 0 front) (.cons channels spatial)

end Patch

namespace Padding

theorem compute_parts {p : Padding} {extent kernel stride dilation axis axes count first last : Int}
    (found : p.compute extent kernel stride dilation axis axes = .ok (count,first,last)) :
    stride ≠ 0 ∧ 0 ≤ extent + first + last - field kernel dilation ∧
      count = (extent + first + last - field kernel dilation).fdiv stride + 1 := by
  obtain ⟨⟨before,after⟩,_,found⟩ := bind_ok.mp found
  dsimp only at found
  split at found
  · cases found
  · rename_i span
    obtain ⟨q,divided,equal⟩ := bind_ok.mp found
    cases equal
    unfold floorDiv at divided
    split at divided
    · cases divided
    · rename_i nonzero
      cases divided
      exact ⟨nonzero,Int.not_lt.mp span,rfl⟩

end Padding

-- A row of steps that stays within the axis has a position for each step.
theorem stepPositions_eq {n start stride steps : Int} (front : 0 ≤ start) (positive : 0 < stride)
    (some : 0 ≤ steps) (within : start + stride * steps + 1 ≤ n) :
    stepPositions n start (start + stride * steps + 1) stride =
      (List.range (steps + 1).toNat).map fun y : Nat => (start + stride * y).toNat := by
  have reach : 0 ≤ stride * steps := Int.mul_nonneg (Int.le_of_lt positive) some
  have quotient : stride * steps / stride = steps := Int.mul_ediv_cancel_left steps (Int.ne_of_gt positive)
  have forward : ¬ stride < 0 := by omega
  have beginning : ¬ start < 0 := by omega
  have ending : ¬ start + stride * steps + 1 < 0 := by omega
  have nonempty : start < start + stride * steps + 1 := by omega
  have span : start + stride * steps + 1 - start - 1 = stride * steps := by omega
  simp only [stepPositions,forward,beginning,ending,positive,if_true,if_false]
  rw [Int.min_eq_left (by omega : start ≤ n),Int.min_eq_left within,if_pos nonempty,span,quotient]
  rfl

namespace Patch

-- Each cell of a window that moves forward visits one position for each window, a stride apart and inside the
-- padded axis.
theorem visits_eq {padding : Padding} {n kernel stride dilation axis axes : Int} {ws : Windows}
    {k : Nat} (found : padding.compute n kernel stride dilation axis axes = .ok (ws.count,ws.first,ws.last))
    (forward : 0 ≤ stride) (spread : 0 ≤ dilation) (cell : (k : Int) < kernel) :
    (visits n ws stride dilation k =
      (List.range ws.count.toNat).map fun y : Nat => (k * dilation + stride * y).toNat) ∧
        k * dilation + stride * (ws.count - 1) < n + ws.first + ws.last ∧ 1 ≤ ws.count := by
  obtain ⟨nonzero,span,count⟩ := Padding.compute_parts found
  have positive : 0 < stride := by omega
  have reach : (k : Int) * dilation ≤ (kernel - 1) * dilation :=
    Int.mul_le_mul_of_nonneg_right (by omega) spread
  rw [Int.fdiv_eq_ediv_of_nonneg _ forward] at count
  have steps : 0 ≤ (n + ws.first + ws.last - Padding.field kernel dilation) / stride :=
    Int.ediv_nonneg span forward
  have within := Int.mul_ediv_self_le (x := n + ws.first + ws.last - Padding.field kernel dilation) nonzero
  have field : Padding.field kernel dilation = (kernel - 1) * dilation + 1 := by
    unfold Padding.field
    rw [Int.mul_comm]
  have each : ws.count - 1 = (n + ws.first + ws.last - Padding.field kernel dilation) / stride := by omega
  rw [← each] at within
  refine ⟨?_,by omega,by omega⟩
  unfold visits
  dsimp only
  rw [stepPositions_eq (Int.mul_nonneg (Int.natCast_nonneg k) spread) positive (by omega) (by omega),
    Int.sub_add_cancel]

theorem length_visits {padding : Padding} {n kernel stride dilation axis axes : Int} {ws : Windows}
    {k : Nat} (found : padding.compute n kernel stride dilation axis axes = .ok (ws.count,ws.first,ws.last))
    (forward : 0 ≤ stride) (spread : 0 ≤ dilation) (cell : (k : Int) < kernel) :
    (visits n ws stride dilation k).length = ws.count.toNat := by
  rw [(visits_eq found forward spread cell).1,List.length_map,List.length_range]

theorem mem_cells {p : Patch} {i j : Nat} (cell : (i,j) ∈ p.cells) :
    (i : Int) < p.kernel.1 ∧ (j : Int) < p.kernel.2 := by
  obtain ⟨a,row,inner⟩ := List.mem_flatMap.mp cell
  obtain ⟨b,column,equal⟩ := List.mem_map.mp inner
  cases equal
  rw [List.mem_range] at row column
  omega

theorem outputPair_parts {p : Patch} {h w : Nat} {rows columns : Windows}
    (found : p.outputPair h w = .ok (rows,columns)) :
    p.padding.compute h p.kernel.1 p.strides.1 p.dilations.1 0 2 = .ok (rows.count,rows.first,rows.last) ∧
      p.padding.compute w p.kernel.2 p.strides.2 p.dilations.2 1 2 =
        .ok (columns.count,columns.first,columns.last) := by
  have along (n : Int) {kernel stride dilation axis : Int} {ws : Windows}
      (found : (p.padding.compute n kernel stride dilation axis 2 >>= fun r =>
        (.ok ⟨r.1,r.2.1,r.2.2⟩ : Outcome Windows)) = .ok ws) :
      p.padding.compute n kernel stride dilation axis 2 = .ok (ws.count,ws.first,ws.last) := by
    obtain ⟨r,computed,equal⟩ := bind_ok.mp found
    cases equal
    exact computed
  obtain ⟨ws,each,paired⟩ := bind_ok.mp found
  split at paired
  · cases paired
    match mapM_ok.mp each with
    | .cons first (.cons second .nil) => exact ⟨along h first,along w second⟩
  · cases paired

end Patch

namespace Pooling

theorem stretched_eq {count n : Nat} {positions : List (List Nat)}
    (each : ∀ ps ∈ positions, ps.length = count) (found : stretched count positions = .ok n) : n = count := by
  refine foldlM_keeps (P := fun n => n = count) ?_ rfl found
  rintro n ps m member rfl step
  rw [each ps member,Shape.stretch?,if_pos rfl] at step
  cases step
  rfl

variable {p : Patch} {kind : PoolKind}

-- Windows that move forward. Those of an average are counted by its evaluation.
def Forward (p : Patch) : Prop :=
  0 ≤ p.strides.1 ∧ 0 ≤ p.strides.2 ∧ 0 ≤ p.dilations.1 ∧ 0 ≤ p.dilations.2

theorem greatest_parts (forward : Forward p) (evaluated : greatest p t = .ok u) : ∃ rows columns, Frames p t rows columns ∧
    u = .grid t.dtype (t.shape.getD 0 0) (t.shape.getD 1 0) rows.count.toNat columns.count.toNat
      (collected p .maximum t (lowest t.dtype) rows columns) := by
  obtain ⟨rows,columns,h,w,frames,high,wide,rfl⟩ := greatest_made evaluated
  obtain ⟨downRows,alongColumns⟩ := Patch.outputPair_parts frames.windows
  obtain ⟨strideRows,strideColumns,dilationRows,dilationColumns⟩ := forward
  refine ⟨rows,columns,frames,?_⟩
  rw [stretched_eq ?_ high,stretched_eq ?_ wide]
  · simp only [List.forall_mem_map]
    rintro ⟨i,j⟩ cell
    exact Patch.length_visits alongColumns strideColumns dilationColumns (Patch.mem_cells cell).2
  · simp only [List.forall_mem_map]
    rintro ⟨i,j⟩ cell
    exact Patch.length_visits downRows strideRows dilationRows (Patch.mem_cells cell).1

def windowed (kind : PoolKind) (p : Patch) (x : Tensor) : Outcome Tensor :=
  match kind with
  | .max => greatest p x
  | .average => mean p x

theorem eval_eq : eval kind p t = kind.checkDType t.dtype >>= fun _ =>
    if t.rank ≠ 4 then fail (.poolRank kind.opType t.rank) else
      Image.toChannelsSecond p.channelsLast t >>= fun data => windowed kind p data >>=
        Image.ofChannelsSecond p.channelsLast := by
  cases kind <;> rfl

theorem windowed_parts (forward : kind = .max → Forward p) (evaluated : windowed kind p t = .ok u) :
    ∃ rows columns, p.outputPair (t.shape.getD 2 0) (t.shape.getD 3 0) = .ok (rows,columns) ∧
      u.dtype = t.dtype ∧
        u.shape = [t.shape.getD 0 0,t.shape.getD 1 0,rows.count.toNat,columns.count.toNat] := by
  cases kind with
  | max =>
    obtain ⟨rows,columns,frames,rfl⟩ := greatest_parts (forward rfl) evaluated
    exact ⟨rows,columns,frames.windows,rfl,rfl⟩
  | average =>
    obtain ⟨rows,columns,frames,rfl⟩ := mean_made evaluated
    exact ⟨rows,columns,frames.windows,rfl,rfl⟩

theorem eval_parts (forward : kind = .max → Forward p) (evaluated : eval kind p t = .ok u) :
    t.shape.length = 4 ∧ u.dtype = t.dtype ∧ p.Covers t.shape (t.shape.getD p.channelAxis 0) u.shape := by
  rw [eval_eq] at evaluated
  obtain ⟨_,-,evaluated⟩ := bind_ok.mp evaluated
  split at evaluated
  · cases evaluated
  · rename_i rank
    have rank := Decidable.not_not.mp rank
    obtain ⟨data,turned,evaluated⟩ := bind_ok.mp evaluated
    obtain ⟨result,evaluated,returned⟩ := bind_ok.mp evaluated
    obtain ⟨dtype,shape⟩ := Image.toChannelsSecond_parts rank turned
    obtain ⟨rows,columns,windows,kept,sized⟩ := windowed_parts forward evaluated
    obtain ⟨last,arranged⟩ := Image.ofChannelsSecond_parts sized returned
    rw [shape] at windows arranged
    exact ⟨rank,last.trans (kept.trans dtype),rows,columns,windows,arranged⟩

def conclude (p : Patch) (x out : Fact) : Outcome (Facts × Facts) := do
  let x ← x.withDims (List.replicate 4 .unknown)
  let s := x.shape.getD []
  return ([x],[← out.withDims (← p.outputDims s (s.getD p.channelAxis .unknown))])

theorem infer_eq : infer kind p ins outs = sharedPair ins outs >>= fun q =>
    Fact.require kind.checkDType q.1 >>= fun _ => conclude p q.1 q.2 := by
  refine congrArg (_ >>= ·) (funext fun ⟨x,out⟩ => ?_)
  unfold Fact.require
  dsimp only
  cases x.dtype <;> rfl

theorem infer_sound (forward : kind = .max → Forward p) (evaluated : eval kind p t = .ok u)
    (input : Accept ins [t]) (output : Accept outs [u]) (found : infer kind p ins outs = .ok r) :
    Hold r [t] [u] := by
  obtain ⟨rank,dtype,covers⟩ := eval_parts forward evaluated
  rw [infer_eq] at found
  obtain ⟨⟨x,out⟩,shared,found⟩ := bind_ok.mp found
  obtain ⟨_,-,found⟩ := bind_ok.mp found
  obtain ⟨y,widened,found⟩ := bind_ok.mp found
  obtain ⟨dims,sized,found⟩ := bind_ok.mp found
  obtain ⟨o,shaped,equal⟩ := bind_ok.mp found
  cases equal
  obtain ⟨input,output⟩ := sharedPair_accept input output dtype shared
  have input := Fact.withDims_accepts input widened (ShapeFact.fits_unknown rank)
  have fits := Fact.withDims_fits widened input
  exact hold_one input (Fact.withDims_accepts output shaped
    (Patch.outputDims_fits covers fits (fits.extent p.channelAxis 0) sized))

end Pooling

-- Where two extents are known, they passed their check.
theorem Dim.guard_passed {α β : Type} {p : Nat → Nat → Prop} [∀ n m, Decidable (p n m)] {e : Nat → Nat → Cause}
    {m : Outcome α} {k : β → Outcome α} {a b : Dim} {y : α}
    (found : (match a, b with
      | .known i, .known j => if p i j then (fail (e i j) : Outcome β) >>= k else m
      | _, _ => m) = .ok y) : m = .ok y := by
  split at found
  · split at found
    · cases found
    · exact found
  · exact found

namespace Convolution

variable {c : Convolution} {bias : Option Tensor} {k : Fact}

theorem kernelOutputFirst_parts (rank : w.shape.length = 4) (found : c.kernelOutputFirst w = .ok u) :
    u.dtype = w.dtype ∧ u.shape = [w.shape.getD c.kernelAxes.1 0,w.shape.getD c.kernelAxes.2.1 0,
      w.shape.getD c.kernelAxes.2.2.1 0,w.shape.getD c.kernelAxes.2.2.2 0] := by
  obtain ⟨dtype,result⟩ := Transpose.reordered_parts rank rfl found
  refine ⟨dtype,result.trans ?_⟩
  unfold kernelAxes
  cases c.kernelSpatialFirst <;> rfl

theorem apply_parts (evaluated : c.apply t w bias = .ok u) : ∃ rows columns,
    (c.patch (w.shape.getD 2 0,w.shape.getD 3 0)).outputPair (t.shape.getD 2 0) (t.shape.getD 3 0) =
      .ok (rows,columns) ∧ u.dtype = t.dtype ∧ (∀ b, bias = some b → b.shape = [w.shape.getD 0 0]) ∧
        u.shape = [t.shape.getD 0 0,w.shape.getD 0 0,rows.count.toNat,columns.count.toNat] := by
  obtain ⟨rows,columns,fits,rfl⟩ := apply_ok.mp evaluated
  exact ⟨rows,columns,fits.windows,rfl,fits.row,rfl⟩

theorem eval_parts (evaluated : c.eval t w bias = .ok u) :
    t.shape.length = 4 ∧ w.shape.length = 4 ∧ (∀ s ∈ t :: w :: bias.toList, s.dtype = t.dtype) ∧
      u.dtype = t.dtype ∧ (∀ b, bias = some b → b.shape = [w.shape.getD c.kernelAxes.1 0]) ∧
        (c.patch (w.shape.getD c.kernelAxes.2.2.1 0,w.shape.getD c.kernelAxes.2.2.2 0)).Covers t.shape
          (w.shape.getD c.kernelAxes.1 0) u.shape := by
  obtain ⟨_,-,evaluated⟩ := bind_ok.mp evaluated
  obtain ⟨_,same,evaluated⟩ := bind_ok.mp evaluated
  split at evaluated
  · cases evaluated
  · rename_i ranks
    simp only [Bool.or_eq_true,decide_eq_true_eq,not_or,ne_eq,Decidable.not_not] at ranks
    obtain ⟨data,turned,evaluated⟩ := bind_ok.mp evaluated
    obtain ⟨kernel,ordered,evaluated⟩ := bind_ok.mp evaluated
    obtain ⟨result,applied,returned⟩ := bind_ok.mp evaluated
    obtain ⟨dtype,shape⟩ := Image.toChannelsSecond_parts (p := c.patch (0,0)) ranks.1 turned
    obtain ⟨-,kernelShape⟩ := kernelOutputFirst_parts ranks.2 ordered
    obtain ⟨rows,columns,windows,kept,biased,sized⟩ := apply_parts applied
    obtain ⟨last,arranged⟩ := Image.ofChannelsSecond_parts sized returned
    rw [shape,kernelShape] at windows arranged
    rw [kernelShape] at biased
    exact ⟨ranks.1,ranks.2,MatMul.requireSameDType_ok same,last.trans (kept.trans dtype),biased,rows,columns,
      windows,arranged⟩

theorem outputDims_fits {s ks dims : ShapeFact} {d : Dim} {result : Shape} {o h v : Nat}
    (covers : (c.patch (h,v)).Covers shape o result) (fits : s.Fits shape) (channels : d.accepts o = true)
    (holdsRow : (ks.getD c.kernelAxes.2.2.1 .unknown).accepts h = true)
    (holdsColumn : (ks.getD c.kernelAxes.2.2.2 .unknown).accepts v = true)
    (found : c.outputDims s ks d = .ok dims) : dims.Fits result := by
  rw [outputDims_eq] at found
  unfold dimsUnder at found
  split at found
  · rename_i m n first second
    rw [first] at holdsRow
    rw [second] at holdsColumn
    cases Dim.accepts_known.mp holdsRow
    cases Dim.accepts_known.mp holdsColumn
    exact Patch.outputDims_fits covers fits channels found
  · cases found
    obtain ⟨rows,columns,-,rfl⟩ := covers
    have batch := fits.extent 0 0
    change (if c.channelsLast then _ else _ : ShapeFact).Fits (if c.channelsLast then _ else _)
    split
    · exact .cons batch (.cons rfl (.cons rfl (.cons channels .nil)))
    · exact .cons batch (.cons channels (.cons rfl (.cons rfl .nil)))

theorem outputAxis_entry (rank : w.shape.length = 4) :
    w.shape[c.kernelAxes.1]? = some (w.shape.getD c.kernelAxes.1 0) := by
  have inside : c.kernelAxes.1 < w.shape.length := by
    unfold kernelAxes
    split <;> omega
  rw [List.getD_eq_getElem?_getD,List.getElem?_eq_getElem inside]
  rfl

theorem answer_sound (rank : w.shape.length = 4)
    (biased : ∀ b, bias = some b → b.shape = [w.shape.getD c.kernelAxes.1 0])
    (covers : (c.patch (w.shape.getD c.kernelAxes.2.2.1 0,w.shape.getD c.kernelAxes.2.2.2 0)).Covers t.shape
      (w.shape.getD c.kernelAxes.1 0) u.shape)
    (input : x.accepts t = true) (fits : ShapeFact.Fits (x.shape.getD []) t.shape) (kernel : k.accepts w = true)
    (others : Accept ins bias.toList) (output : out.accepts u = true) (found : answer c x k out ins = .ok r) :
    Hold r (t :: w :: bias.toList) [u] := by
  cases bias with
  | none =>
    cases others
    obtain ⟨dims,sized,found⟩ := bind_ok.mp found
    obtain ⟨o,shaped,equal⟩ := bind_ok.mp found
    cases equal
    have result := outputDims_fits covers fits (Fact.accepts_extent kernel _ 0) (Fact.accepts_extent kernel _ 0)
      (Fact.accepts_extent kernel _ 0) sized
    exact ⟨.cons input (accept_one kernel),accept_one (Fact.withDims_accepts output shaped result)⟩
  | some b =>
    match others with
    | .cons added .nil =>
      obtain ⟨b',row,found⟩ := bind_ok.mp found
      obtain ⟨k',refined,found⟩ := bind_ok.mp found
      obtain ⟨dims,sized,found⟩ := bind_ok.mp found
      obtain ⟨o,shaped,equal⟩ := bind_ok.mp found
      cases equal
      have shape := biased b rfl
      have added := Fact.withDims_accepts added row (by
        rw [shape]
        exact .cons (Fact.accepts_extent kernel _ 0) .nil)
      have channels := Fact.accepts_headD added 0
      rw [shape] at channels
      have kernel := Fact.withDims_accepts kernel refined
        ((ShapeFact.fits_unknown rank).set (outputAxis_entry rank) channels)
      have result := outputDims_fits covers fits channels (Fact.accepts_extent kernel _ 0)
        (Fact.accepts_extent kernel _ 0) sized
      exact ⟨.cons input (.cons kernel (accept_one added)),
        accept_one (Fact.withDims_accepts output shaped result)⟩

-- Until the declared extents come in, what the rule has gathered holds of data, kernel, bias and result.
theorem infer_parts (evaluated : c.eval t w bias = .ok u) (input : Accept ins (t :: w :: bias.toList))
    (output : Accept outs [u]) (found : c.infer ins outs = .ok r) : ∃ x k k' out others,
      x.accepts t = true ∧ ShapeFact.Fits (x.shape.getD []) t.shape ∧ k.accepts w = true ∧
        c.declareKernel k = .ok k' ∧ Accept others bias.toList ∧ out.accepts u = true ∧
          answer c x k' out others = .ok r := by
  obtain ⟨rankT,rankW,same,dtype,-,-⟩ := eval_parts evaluated
  unfold infer at found
  obtain ⟨fs,shared,found⟩ := bind_ok.mp found
  have accept := shareDType_accept (d := t.dtype) (input.append (output.pad (Nat.le_refl 1)))
    (List.forall_mem_append.mpr ⟨same,by simpa using dtype⟩) shared
  obtain ⟨inputs,output⟩ := accept.split
  dsimp only at found
  generalize List.dropLast fs = front at inputs found
  match inputs with
  | .cons first (.cons second others) =>
    dsimp only at found
    obtain ⟨_,-,found⟩ := bind_ok.mp found
    obtain ⟨x,widened,found⟩ := bind_ok.mp found
    obtain ⟨k,flattened,found⟩ := bind_ok.mp found
    obtain ⟨k',declared,found⟩ := bind_ok.mp found
    have input := Fact.withDims_accepts first widened (ShapeFact.fits_unknown rankT)
    exact ⟨x,k,k',_,_,input,Fact.withDims_fits widened input,
      Fact.withDims_accepts second flattened (ShapeFact.fits_unknown rankW),declared,others,output,
      Dim.guard_passed found⟩

theorem infer_sound (bias : Option Tensor) (shape : c.kernelShape = none) (evaluated : c.eval t w bias = .ok u)
    (input : Accept ins (t :: w :: bias.toList)) (output : Accept outs [u])
    (found : c.infer ins outs = .ok r) : Hold r (t :: w :: bias.toList) [u] := by
  obtain ⟨x,k,k',out,others,data,fits,kernel,declared,rest,result,answered⟩ :=
    infer_parts evaluated input output found
  obtain ⟨-,rank,-,-,biased,covers⟩ := eval_parts evaluated
  unfold declareKernel at declared
  rw [shape] at declared
  cases declared
  exact answer_sound rank biased covers data fits kernel rest result answered

end Convolution

end TensorGraph
