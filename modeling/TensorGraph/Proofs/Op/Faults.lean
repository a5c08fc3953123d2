import TensorGraph.Proofs.Op.Settled
import TensorGraph.Proofs.Raises

namespace TensorGraph
open Outcome

-- The kinds of faults that a node reports as its own. An analysis has reported its faults already.
def Kind.isReported (k : Kind) : Bool := k != .analysis && (k.isLocal || (k == .value || k == .type))

-- All that can go wrong is reported.
abbrev Reports {α : Type} (x : Outcome α) : Prop := Raises (fun k => k.isReported = true) x

theorem reports_fail {α : Type} {c : Cause} (reported : c.kind.isReported = true) :
    Reports (fail c : Outcome α) := (raises_fail c).mpr reported

theorem reports_stop {α β : Type} {c : Cause} {rest : α → Outcome β} (reported : c.kind.isReported = true) :
    Reports ((fail c : Outcome α) >>= rest) := raises_stop reported

theorem normalizeAxis_reports (axis : Int) (rank : Nat) : Reports (normalizeAxis axis rank) := by
  unfold normalizeAxis
  generalize (if axis < 0 then axis + rank else axis) = a
  dsimp only
  split
  · exact raises_ok _
  · exact reports_fail rfl

theorem normalizeAxes_reports (axes : List Int) (rank : Nat) : Reports (normalizeAxes axes rank) :=
  Raises.bind (raises_mapM fun _ _ => normalizeAxis_reports _ _) fun _ _ => raises_ok _

namespace Dim

theorem unify_reports (a b : Dim) : Reports (a.unify b) := by
  unfold unify
  split
  · exact raises_ok _
  · split
    · exact raises_ok _
    · exact reports_fail rfl

theorem ofInt_reports (i : Int) : Reports (ofInt i) := by
  unfold ofInt
  split
  · exact raises_ok _
  · exact reports_fail rfl

end Dim

namespace ShapeFact

theorem unify_reports (a b : Option ShapeFact) : Reports (unify a b) := by
  unfold unify
  split
  · exact raises_ok _
  · exact raises_ok _
  · split
    · exact reports_fail rfl
    · split
      · exact raises_ok _
      · exact reports_fail rfl

theorem broadcast_reports (ss : List ShapeFact) : Reports (broadcast ss) := by
  unfold broadcast
  dsimp only
  split
  · exact raises_ok _
  · exact reports_fail rfl

end ShapeFact

namespace Fact

theorem unifyDType_reports (a b : Option DType) : Reports (unifyDType a b) := by
  unfold unifyDType
  split
  · exact raises_ok _
  · exact raises_ok _
  · split
    · exact raises_ok _
    · exact reports_fail rfl

theorem unify_reports (a b : Fact) : Reports (a.unify b) := by
  unfold unify
  split
  · exact raises_ok _
  · split
    · exact raises_ok _
    · refine (unifyDType_reports _ _).bind fun _ _ => (ShapeFact.unify_reports _ _).bind fun _ _ => ?_
      split
      · split
        · exact raises_ok _
        · exact reports_fail rfl
      all_goals exact raises_ok _

theorem withDType_reports (f : Fact) (t : Option DType) : Reports (f.withDType t) := unify_reports _ _
theorem withShape_reports (f : Fact) (s : Option ShapeFact) : Reports (f.withShape s) := unify_reports _ _
theorem withDims_reports (f : Fact) (s : ShapeFact) : Reports (f.withDims s) := withShape_reports _ _

theorem unifyAll_reports (fs : List Fact) : Reports (unifyAll fs) :=
  raises_foldlM (fun _ _ _ => unify_reports _ _) _

end Fact

namespace Facts

theorem shareDType_reports (fs : Facts) : Reports fs.shareDType := by
  unfold shareDType
  split
  · exact raises_ok _
  · exact (Fact.unifyAll_reports _).bind fun _ _ => raises_mapM fun _ _ => Fact.unify_reports _ _

theorem shareDType_length {fs gs : Facts} (shared : fs.shareDType = .ok gs) : gs.length = fs.length := by
  unfold shareDType at shared
  split at shared
  · cases shared
    rfl
  · obtain ⟨_,-,shared⟩ := bind_ok.mp shared
    exact (mapM_ok.mp shared).length_eq.symm

theorem shareShape_reports (fs : Facts) : Reports fs.shareShape := by
  unfold shareShape
  split
  · exact raises_ok _
  · exact (Fact.unifyAll_reports _).bind fun _ _ => raises_mapM fun _ _ => Fact.withShape_reports _ _

theorem pair_reports (fs : Facts) : Reports fs.pair := by
  unfold pair
  split
  · exact raises_ok _
  · exact reports_fail rfl

theorem sharedPair_reports (inputs outputs : Facts) : Reports (sharedPair inputs outputs) :=
  (shareDType_reports _).bind fun _ _ => pair_reports _

theorem stretchOutput_reports (inputs : Facts) (output : Fact) : Reports (stretchOutput inputs output) := by
  unfold stretchOutput
  split
  · exact (ShapeFact.broadcast_reports _).bind fun _ _ => Fact.withDims_reports _ _
  · exact raises_ok _

theorem refill_reports (inputs : Facts) (out : ShapeFact) : Reports (refill inputs out) := by
  rcases refill_cases inputs out with ⟨i,-,equal⟩ | ⟨-,equal⟩
  · rw [equal]
    refine raises_mapM fun _ _ => ?_
    dsimp only
    split
    · exact Fact.withDims_reports _ _
    · exact raises_ok _
  · rw [equal]
    exact raises_ok _

theorem checkRanks_reports (inputs : Facts) (out : ShapeFact) : Reports (checkRanks inputs out) := by
  refine raises_loop fun _ _ => ?_
  dsimp only
  split
  · split
    · exact reports_stop rfl
    · exact raises_ok _
  · exact raises_ok _

theorem broadcast_reports (inputs : Facts) (output : Fact) : Reports (broadcast inputs output) := by
  rw [broadcast_eq]
  refine (stretchOutput_reports _ _).bind fun output _ => ?_
  unfold stretchInputs
  split
  · exact raises_ok _
  · exact (refill_reports _ _).bind fun _ _ => (checkRanks_reports _ _).bind fun _ _ => raises_ok _

end Facts

namespace Fact

theorem require_reports {check : DType → Outcome Unit} (each : ∀ t, Reports (check t)) (f : Fact) :
    Reports (require check f) := by
  unfold require
  split
  · exact each _
  · exact raises_ok _

variable {α β : Type}

-- A condition on the element type, before the rest of a rule.
theorem check_raises {K : Kind → Prop} {f : Fact} {p : DType → Outcome Unit} {rest : Unit → Outcome α}
    (each : ∀ t, Raises K (p t)) (others : Raises K (rest ())) : Raises K (match f.dtype with
      | some t => p t >>= rest
      | none => rest ()) := by
  split
  · exact (each _).bind fun _ _ => others
  · exact others

theorem guard_raises {K : Kind → Prop} {f : Fact} {p : DType → Bool} {e : DType → Cause} {rest : Outcome α}
    {never : β → Outcome α} (each : ∀ t, K (e t).kind) (others : Raises K rest) : Raises K (match f.dtype with
      | some t => if p t = true then rest else (fail (e t) : Outcome β) >>= never
      | none => rest) := by
  split
  · split
    · exact others
    · exact (raises_fail _).mpr (each _)
  · exact others

end Fact

namespace BinaryKind

theorem infer_reports (k : BinaryKind) (ins outs : Facts) : Reports (k.infer ins outs) := by
  rw [infer_eq]
  refine Raises.bind ?_ fun _ _ => (Facts.broadcast_reports _ _).bind fun _ _ => raises_ok _
  refine (Facts.shareDType_reports _).bind fun inputs _ => (Fact.require_reports (fun t => ?_) _).bind fun _ _ => ?_
  · split
    · exact raises_ok _
    · exact reports_fail rfl
  · split
    · exact (Fact.withDType_reports _ _).bind fun _ _ => raises_ok _
    · unfold passType
      split
      · exact (Fact.withDType_reports _ _).bind fun _ _ => raises_ok _
      · exact (Fact.withDType_reports _ _).bind fun _ _ =>
          (Facts.shareDType_reports _).bind fun _ _ => raises_ok _
      · exact raises_ok _

end BinaryKind

theorem AddN.infer_reports (ins outs : Facts) : Reports (AddN.infer ins outs) :=
  (Facts.shareDType_reports _).bind fun _ _ => (Facts.broadcast_reports _ _).bind fun _ _ => raises_ok _

theorem UnaryKind.infer_reports (k : UnaryKind) (ins outs : Facts) : Reports (k.infer ins outs) := by
  refine (Facts.shareDType_reports _).bind fun _ _ => (Facts.shareShape_reports _).bind fun both _ => ?_
  dsimp only
  split
  · split
    · exact raises_ok _
    · exact reports_stop rfl
  · exact raises_ok _

namespace Transpose

theorem permutation_reports (perm : Option (List Int)) (rank : Nat) : Reports (permutation perm rank) := by
  unfold permutation
  split
  · exact raises_ok _
  · split
    · exact raises_ok _
    · exact reports_fail rfl

theorem infer_reports (perm : Option (List Int)) (ins outs : Facts) : Reports (infer perm ins outs) := by
  rw [infer_eq]
  refine (Facts.sharedPair_reports _ _).bind fun p _ => Raises.bind ?_ fun out _ => Raises.bind ?_ fun _ _ => raises_ok _
  · unfold forward
    split
    · exact raises_ok _
    · exact (permutation_reports _ _).bind fun _ _ => Fact.withDims_reports _ _
  · unfold backward
    split
    · exact raises_ok _
    · exact (permutation_reports _ _).bind fun _ _ => Fact.withDims_reports _ _

end Transpose

namespace Slice

theorem dim_reports (s : Span) (d : Dim) : Reports (dim s d) := by
  cases d with
  | known n =>
    cases known : s.length <;> simp only [dim,known] <;> split
    all_goals first
      | exact raises_ok _
      | exact reports_fail rfl
  | streaming | unknown =>
    unfold dim
    split <;> exact raises_ok _

theorem infer_reports (spans : List Span) (ins outs : Facts) : Reports (infer spans ins outs) :=
  (Facts.sharedPair_reports _ _).bind fun _ _ => (Fact.withDims_reports _ _).bind fun _ _ =>
    (raises_mapM fun _ _ => dim_reports _ _).bind fun _ _ =>
      (Fact.withDims_reports _ _).bind fun _ _ => raises_ok _

end Slice

namespace Squeeze

theorem axes_reports (given : Option (List Int)) (dims : ShapeFact) : Reports (axes given dims) := by
  unfold axes
  split
  · split <;> exact raises_ok _
  · refine (normalizeAxes_reports _ _).bind fun found _ => (raises_loop fun _ _ => ?_).bind fun _ _ => raises_ok _
    split
    · split
      · exact reports_stop rfl
      · exact raises_ok _
    · exact raises_ok _

theorem infer_reports (given : Option (List Int)) (ins outs : Facts) : Reports (infer given ins outs) := by
  refine (Facts.sharedPair_reports _ _).bind fun p _ => ?_
  dsimp only
  split
  · exact raises_ok _
  · refine (axes_reports _ _).bind fun found _ => ?_
    split
    · exact raises_ok _
    · exact (Fact.withDims_reports _ _).bind fun _ _ => (Fact.withDims_reports _ _).bind fun _ _ => raises_ok _

end Squeeze

namespace ExpandDims

theorem expand_reports {α : Type} (axes : List Int) (one : α) (dims : List α) : Reports (expand axes one dims) := by
  unfold expand
  refine (normalizeAxes_reports _ _).bind fun found _ => ?_
  split
  · exact raises_ok _
  · exact reports_stop rfl

theorem infer_reports (axes : List Int) (ins outs : Facts) : Reports (infer axes ins outs) := by
  refine (Facts.sharedPair_reports _ _).bind fun p _ => ?_
  dsimp only
  split
  · exact (expand_reports _ _ _).bind fun _ _ => (Fact.withDims_reports _ _).bind fun _ _ => raises_ok _
  · exact (normalizeAxes_reports _ _).bind fun _ _ => (Fact.withDims_reports _ _).bind fun _ _ => raises_ok _
  · exact raises_ok _

end ExpandDims

namespace Flatten

theorem split_reports (axis : Int) (rank : Nat) : Reports (split axis rank) := by
  unfold split
  generalize (if axis < 0 then axis + rank else axis) = a
  dsimp only
  split
  · exact raises_ok _
  · exact reports_fail rfl

theorem infer_reports (axis : Int) (ins outs : Facts) : Reports (infer axis ins outs) := by
  refine (Facts.sharedPair_reports _ _).bind fun p _ => (Fact.withDims_reports _ _).bind fun out _ => ?_
  split
  · exact raises_ok _
  · exact (split_reports _ _).bind fun _ _ => (Fact.withDims_reports _ _).bind fun _ _ => raises_ok _

end Flatten

theorem Cast.infer_reports (target : DType) (ins outs : Facts) : Reports (Cast.infer target ins outs) :=
  (Facts.shareShape_reports _).bind fun _ _ => (Facts.pair_reports _).bind fun _ _ =>
    (Fact.withDType_reports _ _).bind fun _ _ => raises_ok _

namespace Reduction

theorem axes_reports (given : Option (List Int)) (rank : Nat) : Reports (axes given rank) := by
  unfold axes
  split
  · exact raises_ok _
  · exact normalizeAxes_reports _ _

theorem infer_reports (opType : String) (given : Option (List Int)) (keepDims : Bool) (ins outs : Facts) :
    Reports (infer opType given keepDims ins outs) := by
  refine (Facts.sharedPair_reports _ _).bind fun p _ => Fact.guard_raises (fun _ => rfl) ?_
  split
  · exact raises_ok _
  · exact (axes_reports _ _).bind fun _ _ => (Fact.withDims_reports _ _).bind fun _ _ => raises_ok _

end Reduction

namespace MatMul

theorem combine_reports (a b out : Fact) (s t : ShapeFact) : Reports (combine a b out s t) := by
  unfold combine
  split
  · exact (Dim.unify_reports _ _).bind fun _ _ => (Fact.withDims_reports _ _).bind fun _ _ =>
      (Fact.withDims_reports _ _).bind fun _ _ => (ShapeFact.broadcast_reports _).bind fun _ _ =>
        (Fact.withDims_reports _ _).bind fun _ _ => raises_ok _
  · exact reports_fail rfl

theorem infer_reports (ins outs : Facts) : Reports (infer ins outs) := by
  refine (Facts.shareDType_reports _).bind fun fs _ => ?_
  split
  · split
    · exact combine_reports _ _ _ _ _
    · exact raises_ok _
  · exact reports_fail rfl

end MatMul

theorem requireFloat_reports (opType : String) (t : DType) : Reports (requireFloat opType t) := by
  unfold requireFloat
  split
  · exact raises_ok _
  · exact reports_fail rfl

theorem requireFloatFact_reports (opType : String) (f : Fact) : Reports (requireFloatFact opType f) :=
  Fact.require_reports (requireFloat_reports opType) f

theorem Softmax.infer_reports (ins outs : Facts) : Reports (Softmax.infer ins outs) :=
  (Facts.shareDType_reports _).bind fun _ _ => (Facts.shareShape_reports _).bind fun _ _ =>
    (Facts.pair_reports _).bind fun _ _ => (requireFloatFact_reports _ _).bind fun _ _ => raises_ok _

theorem BatchNorm.infer_reports (ins outs : Facts) : Reports (BatchNorm.infer ins outs) := by
  refine (Facts.shareDType_reports _).bind fun facts _ => (requireFloatFact_reports _ _).bind fun _ _ =>
    (Facts.shareShape_reports _).bind fun both _ => (raises_mapM fun _ _ => Fact.withDims_reports _ _).bind fun _ _ =>
      (Facts.shareShape_reports _).bind fun parameters _ => ?_
  dsimp only
  split
  · exact raises_ok _
  · split
    · exact (raises_mapM fun _ _ => Fact.withDims_reports _ _).bind fun _ _ =>
        (Fact.withDims_reports _ _).bind fun _ _ => (Fact.withShape_reports _ _).bind fun _ _ => raises_ok _
    · exact reports_fail rfl

namespace Pack

theorem commonDType_reports (types : List DType) : Reports (commonDType types) := by
  unfold commonDType
  split
  · exact raises_ok _
  · exact reports_fail rfl

theorem infer_reports (axis : Int) (ins outs : Facts) : Reports (infer axis ins outs) := by
  rw [infer_eq]
  refine (Facts.shareShape_reports _).bind fun inputs _ => Raises.bind ?_ fun out _ => ?_
  · unfold packType
    split
    · exact (commonDType_reports _).bind fun _ _ => Fact.withDType_reports _ _
    · exact raises_ok _
  · unfold place
    split
    · exact (normalizeAxis_reports _ _).bind fun _ _ => (Fact.withDims_reports _ _).bind fun _ _ => raises_ok _
    · exact (normalizeAxis_reports _ _).bind fun _ _ => (raises_mapM fun _ _ => Fact.withDims_reports _ _).bind
        fun _ _ => (Facts.shareShape_reports _).bind fun _ _ => raises_ok _
    · exact raises_ok _

end Pack

namespace Concat

-- Ranks that disagree are found out by looking an axis up.
abbrev Misses (k : Kind) : Prop := k.isReported = true ∨ k = .index

theorem sharedExtent_reports (rank axis : Nat) (facts : Facts) : Reports (sharedExtent rank axis facts) := by
  refine raises_foldlM (fun _ _ _ => ?_) _
  split
  · exact raises_ok _
  · split
    · exact reports_fail rfl
    · exact Dim.unify_reports _ _

theorem refineAxis_raises (shape : Option ShapeFact) (rank axis : Nat) (d : Dim) :
    Raises Misses (refineAxis shape rank axis d) := by
  unfold refineAxis
  dsimp only
  split
  · exact ((Dim.unify_reports _ _).mono fun _ => .inl).bind fun _ _ => raises_ok _
  · exact (raises_fail _).mpr (.inr rfl)

theorem shareAxis_raises (rank : Nat) (facts : Facts) (axis : Nat) : Raises Misses (shareAxis rank facts axis) :=
  ((sharedExtent_reports _ _ _).mono fun _ => .inl).bind fun _ _ => raises_mapM fun _ _ =>
    (refineAxis_raises _ _ _ _).bind fun _ _ => (Fact.withDims_reports _ _).mono fun _ => .inl

theorem infer_raises (axis : Int) (ins outs : Facts) : Raises Misses (infer axis ins outs) := by
  rw [infer_eq]
  refine ((Facts.shareDType_reports _).mono fun _ => .inl).bind fun facts _ => ?_
  unfold place
  split
  · exact raises_ok _
  · refine ((normalizeAxis_reports _ _).mono fun _ => .inl).bind fun axis _ =>
      (raises_foldlM (fun _ _ _ => shareAxis_raises _ _ _) _).bind fun facts _ => ?_
    unfold total
    split
    · exact raises_ok _
    · refine (raises_mapM fun s _ => ?_).bind fun extents _ => ?_
      · unfold extentAt
        split
        · exact raises_ok _
        · exact (raises_fail _).mpr (.inr rfl)
      · split
        · exact raises_ok _
        · exact (refineAxis_raises _ _ _ _).bind fun _ _ =>
            ((Fact.withDims_reports _ _).mono fun _ => .inl).bind fun _ _ => raises_ok _

end Concat

namespace Reshape

theorem targetOf_reports (t : Tensor) : Reports (targetOf t) := by
  unfold targetOf
  split
  · exact raises_ok _
  · exact reports_fail rfl

theorem inferDims_reports (input : Option ShapeFact) (target : List Int) : Reports (inferDims input target) := by
  have outlined : Reports (outline input target) := by
    refine raises_mapM fun _ _ => ?_
    dsimp only
    split
    · exact raises_ok _
    · split
      · exact raises_ok _
      · exact Dim.ofInt_reports _
  refine outlined.bind fun dims _ => ?_
  cases input with
  | none => exact raises_ok _
  | some shape =>
    dsimp only
    repeat' split
    all_goals first
      | exact raises_ok _
      | exact reports_stop rfl

theorem infer_raises (own : Option (List Int)) (ins outs : Facts) :
    Raises (fun k => k.isReported = true ∨ k = .index ∧ ins = []) (infer own ins outs) := by
  rw [infer_eq]
  refine Raises.bind ?_ fun p _ => Raises.mono (K := fun k => k.isReported = true) ?_ fun _ => .inl
  · unfold passType
    split
    · exact ((Fact.withDType_reports _ _).mono fun _ => .inl).bind fun _ _ => raises_ok _
    · split
      · rename_i none
        exact (raises_fail _).mpr (.inr ⟨rfl,by simpa using none⟩)
      · exact ((Fact.withDType_reports _ _).mono fun _ => .inl).bind fun _ _ => raises_ok _
    · exact raises_ok _
  · refine Raises.bind ?_ fun q _ => ?_
    · unfold readTarget
      split
      · refine (Fact.withDims_reports _ _).bind fun b _ => ?_
        split
        · exact (targetOf_reports _).bind fun _ _ => raises_ok _
        · exact raises_ok _
      · exact raises_ok _
    · unfold conclude
      split
      · exact raises_ok _
      · exact (inferDims_reports _ _).bind fun _ _ => (Fact.withDims_reports _ _).bind fun _ _ => raises_ok _

end Reshape

-- An integer has more bits than it may.
abbrev Overflows (k : Kind) : Prop := k.isReported = true ∨ k = .overflow

namespace ShapeOf

theorem infer_raises (ins outs : Facts) :
    Raises Overflows (ShapeOf.infer ins outs) := by
  have concluded : ∀ x out : Fact, Raises Overflows (conclude x out) := by
    intro x out
    unfold conclude
    split
    · exact raises_ok _
    · split
      · exact (raises_fail _).mpr (.inr rfl)
      · exact ((Fact.unify_reports _ _).mono fun _ => .inl).bind fun _ _ => raises_ok _
  refine ((Fact.withDType_reports _ _).mono fun _ => .inl).bind fun out _ => ?_
  dsimp only
  split
  · exact ((Fact.withDims_reports _ _).mono fun _ => .inl).bind fun _ _ => concluded _ _
  · exact concluded _ _

end ShapeOf

namespace Padding

-- A stride of 0 divides what no check keeps from it.
abbrev Divides (stride : Int) (k : Kind) : Prop := k.isReported = true ∨ k = .zeroDivision ∧ stride = 0

theorem floorDiv_raises (a b : Int) : Raises (Divides b) (floorDiv a b) := by
  unfold floorDiv
  split
  · rename_i zero
    exact (raises_fail _).mpr (.inr ⟨rfl,zero⟩)
  · exact raises_ok _

theorem entry_ok (ps : List Int) {i : Int} (low : 0 ≤ i) (high : i < ps.length) : ∃ p, entry ps i = .ok p := by
  have inside : i.toNat < ps.length := by omega
  refine ⟨ps[i.toNat],?_⟩
  unfold entry
  simp [Int.not_lt.mpr low,inside]

theorem borders_raises (p : Padding) {extent kernel stride dilation axis axes : Int} (low : 0 ≤ axis)
    (high : axis < axes) : Raises (Divides stride) (p.borders extent kernel stride dilation axis axes) := by
  have even : Raises (Divides stride) (borders.evenTotal extent kernel stride dilation) :=
    (floorDiv_raises _ _).bind fun _ _ => raises_ok _
  cases p with
  | valid => exact raises_ok _
  | sameUpper | sameLower => exact even.bind fun _ _ => raises_ok _
  | explicit ps =>
    unfold borders
    dsimp only
    split
    · exact (raises_fail _).mpr (.inl rfl)
    · rename_i length
      obtain ⟨first,begins⟩ := entry_ok ps low (by omega)
      obtain ⟨last,ends⟩ := entry_ok ps (i := axis + axes) (by omega) (by omega)
      rw [begins,ok_bind,ends]
      exact raises_ok _

theorem compute_raises (p : Padding) {extent kernel stride dilation axis axes : Int} (low : 0 ≤ axis)
    (high : axis < axes) : Raises (Divides stride) (p.compute extent kernel stride dilation axis axes) := by
  refine (borders_raises p low high).bind fun border _ => ?_
  dsimp only
  split
  · exact (raises_fail _).mpr (.inl rfl)
  · exact (floorDiv_raises _ _).bind fun _ _ => raises_ok _

end Padding

namespace Patch

-- Windows that do not move on along some axis.
def Still (strides : Int × Int) : Prop := strides.1 = 0 ∨ strides.2 = 0

abbrev Divides (strides : Int × Int) (k : Kind) : Prop := k.isReported = true ∨ k = .zeroDivision ∧ Still strides

theorem outputSpatial_raises (p : Patch) (rows columns : Int) : Raises (Divides p.strides) (p.outputSpatial [rows,columns]) := by
  refine raises_mapM fun window member => ?_
  simp only [List.zipIdx_cons,List.zipIdx_nil,List.mem_cons,List.not_mem_nil,or_false] at member
  rcases member with rfl | rfl
  · refine Raises.bind ((p.padding.compute_raises (by decide) (by decide)).mono fun k => ?_) fun _ _ => raises_ok _
    exact Or.imp_right fun ⟨divided,still⟩ => ⟨divided,.inl still⟩
  · refine Raises.bind ((p.padding.compute_raises (by decide) (by decide)).mono fun k => ?_) fun _ _ => raises_ok _
    exact Or.imp_right fun ⟨divided,still⟩ => ⟨divided,.inr still⟩

theorem outputDims_raises (p : Patch) {s : ShapeFact} (rank : s.length = 4) (channels : Dim) :
    Raises (Divides p.strides) (p.outputDims s channels) := by
  have found : ∀ a < 4, ∃ d, entry s a = .ok d := by
    intro a inside
    unfold entry
    rw [List.getElem?_eq_getElem (by omega)]
    exact ⟨_,rfl⟩
  obtain ⟨rows,first⟩ := found p.spatialAxes.1 (by unfold spatialAxes; split <;> decide)
  obtain ⟨columns,second⟩ := found p.spatialAxes.2 (by unfold spatialAxes; split <;> decide)
  obtain ⟨batch,head⟩ := found 0 (by decide)
  rw [outputDims_eq,first,ok_bind,second,ok_bind]
  refine Raises.bind ?_ fun extents _ => ?_
  · unfold spatial
    split
    · exact (p.outputSpatial_raises _ _).bind fun _ _ => raises_mapM fun _ _ =>
        (Dim.ofInt_reports _).mono fun _ => .inl
    · exact raises_ok _
  · rw [head]
    exact raises_ok _

end Patch

theorem Fact.withDims_rank {f g : Fact} {s : ShapeFact} (found : f.withDims s = .ok g) :
    (g.shape.getD []).length = s.length := by
  have unified : f.unify (.outline none (some s)) = .ok g := found
  obtain ⟨r,shape,below⟩ := (ShapeFact.unify_bounds (Fact.unify_parts unified).2.1).2 s rfl
  rw [shape]
  exact below.length_eq.symm

theorem PoolKind.checkDType_reports (k : PoolKind) (t : DType) : Reports (k.checkDType t) := by
  unfold checkDType
  split <;> split
  all_goals first
    | exact raises_ok _
    | exact reports_fail rfl

theorem Pooling.infer_raises (k : PoolKind) (p : Patch) (ins outs : Facts) :
    Raises (Patch.Divides p.strides) (Pooling.infer k p ins outs) := by
  refine ((Facts.sharedPair_reports _ _).mono fun _ => .inl).bind fun q _ => ?_
  refine Fact.check_raises (fun t => (k.checkDType_reports t).mono fun _ => .inl) ?_
  refine ((Fact.withDims_reports _ _).mono fun _ => .inl).bind fun x shaped => ?_
  refine (p.outputDims_raises (Fact.withDims_rank shaped) _).bind fun dims _ => ?_
  exact ((Fact.withDims_reports _ _).mono fun _ => .inl).bind fun _ _ => raises_ok _

theorem Dim.guard_raises {α β : Type} {K : Kind → Prop} {p : Nat → Nat → Prop} [∀ n m, Decidable (p n m)]
    {e : Nat → Nat → Cause} {rest : Outcome α} {never : β → Outcome α} {a b : Dim}
    (each : ∀ n m, K (e n m).kind) (others : Raises K rest) : Raises K (match a, b with
      | known i, known j => if p i j then (fail (e i j) : Outcome β) >>= never else rest
      | _, _ => rest) := by
  split
  · split
    · exact (raises_fail _).mpr (each _ _)
    · exact others
  · exact others

namespace Convolution

-- A rule without data or kernel looks for them all the same.
abbrev Misses (c : Convolution) (inputs : Nat) (k : Kind) : Prop :=
  Patch.Divides c.strides k ∨ k = .index ∧ inputs < 2

theorem declareKernel_reports (c : Convolution) (k : Fact) : Reports (c.declareKernel k) := by
  unfold declareKernel
  split
  · exact raises_ok _
  · exact (Dim.ofInt_reports _).bind fun _ _ => (Dim.ofInt_reports _).bind fun _ _ => Fact.withDims_reports _ _

theorem outputDims_raises (c : Convolution) {xs : ShapeFact} (ks : ShapeFact) (rank : xs.length = 4)
    (channels : Dim) : Raises (Patch.Divides c.strides) (c.outputDims xs ks channels) := by
  rw [outputDims_eq]
  unfold dimsUnder
  split
  · exact (c.patch _).outputDims_raises rank channels
  · exact raises_ok _

theorem answer_raises (c : Convolution) {x : Fact} (k out : Fact) (rest : Facts)
    (rank : (x.shape.getD []).length = 4) : Raises (Patch.Divides c.strides) (answer c x k out rest) := by
  unfold answer
  dsimp only
  split
  · exact (c.outputDims_raises _ rank _).bind fun _ _ =>
      ((Fact.withDims_reports _ _).mono fun _ => .inl).bind fun _ _ => raises_ok _
  · refine ((Fact.withDims_reports _ _).mono fun _ => .inl).bind fun bias _ =>
      ((Fact.withDims_reports _ _).mono fun _ => .inl).bind fun k _ => ?_
    exact (c.outputDims_raises _ rank _).bind fun _ _ =>
      ((Fact.withDims_reports _ _).mono fun _ => .inl).bind fun _ _ => raises_ok _

theorem infer_raises (c : Convolution) (ins outs : Facts) :
    Raises (c.Misses ins.length) (c.infer ins outs) := by
  refine ((Facts.shareDType_reports _).mono fun _ reported => .inl (.inl reported)).bind fun facts shared => ?_
  have count : ins.length ≤ facts.dropLast.length := by
    have filled : 1 ≤ (outs.pad 1).length := by
      rw [Facts.pad,List.length_append,List.length_replicate]
      omega
    rw [List.length_dropLast,Facts.shareDType_length shared,List.length_append]
    omega
  dsimp only
  generalize facts.dropLast = inputs at count
  have missing : inputs.length < 2 → Raises (c.Misses ins.length) (fail (.unworded .index) : Outcome (Facts × Facts)) :=
    fun short => (raises_fail _).mpr (.inr ⟨rfl,by omega⟩)
  split
  · exact missing (by simp)
  · refine ((requireFloatFact_reports _ _).mono fun _ reported => .inl (.inl reported)).bind fun _ _ =>
      ((Fact.withDims_reports _ _).mono fun _ reported => .inl (.inl reported)).bind fun x shaped => ?_
    split
    · exact missing (by simp)
    · refine ((Fact.withDims_reports _ _).mono fun _ reported => .inl (.inl reported)).bind fun k _ =>
        ((c.declareKernel_reports _).mono fun _ reported => .inl (.inl reported)).bind fun k _ => ?_
      have answered := (c.answer_raises k (facts.getLastD .unknown) ‹_› (Fact.withDims_rank shaped)).mono
        (L := c.Misses ins.length) fun _ => .inl
      exact Dim.guard_raises (fun _ _ => .inl (.inl rfl)) answered

end Convolution

end TensorGraph
