import TensorGraph.Proofs.Op.Faults
import TensorGraph.Proofs.Op.Gathered

namespace TensorGraph
open Outcome

namespace BinaryKind

theorem checkOperand_reports (k : BinaryKind) (t : DType) (b : Tensor) : Reports (k.checkOperand t b) := by
  unfold checkOperand
  repeat' split
  all_goals first
    | exact raises_ok _
    | exact reports_fail rfl

theorem eval_reports (k : BinaryKind) (a b : Tensor) : Reports (k.eval a b) := by
  unfold eval
  dsimp only
  split
  · split
    · split
      · exact reports_fail rfl
      · exact (checkOperand_reports _ _ _).bind fun _ _ => raises_ok _
    · exact reports_stop rfl
  · exact reports_stop rfl

end BinaryKind

theorem UnaryKind.eval_reports (k : UnaryKind) (x : Tensor) : Reports (k.eval x) := by
  unfold UnaryKind.eval
  split
  · exact raises_ok _
  · exact reports_stop rfl

theorem AddN.eval_reports (x : Tensor) (rest : List Tensor) : Reports (AddN.eval x rest) := by
  unfold AddN.eval
  dsimp only
  repeat' split
  all_goals first
    | exact raises_ok _
    | exact reports_fail rfl

theorem Transpose.eval_reports (perm : Option (List Int)) (x : Tensor) : Reports (Transpose.eval perm x) :=
  (permutation_reports _ _).bind fun _ _ => raises_ok _

theorem Slice.eval_reports (spans : List Span) (x : Tensor) : Reports (Slice.eval spans x) := by
  unfold Slice.eval
  repeat' split
  all_goals first
    | exact raises_ok _
    | exact reports_fail rfl

theorem Squeeze.eval_reports (given : Option (List Int)) (x : Tensor) : Reports (Squeeze.eval given x) :=
  (axes_reports _ _).bind fun _ _ => raises_ok _

theorem ExpandDims.eval_reports (axes : List Int) (x : Tensor) : Reports (ExpandDims.eval axes x) :=
  (expand_reports _ _ _).bind fun _ _ => raises_ok _

theorem Flatten.eval_reports (axis : Int) (x : Tensor) : Reports (Flatten.eval axis x) :=
  (split_reports _ _).bind fun _ _ => raises_ok _

theorem Concat.eval_reports (axis : Int) (x : Tensor) (rest : List Tensor) : Reports (Concat.eval axis x rest) := by
  unfold Concat.eval
  dsimp only
  repeat' split
  all_goals first
    | exact reports_stop rfl
    | refine (normalizeAxis_reports _ _).bind fun _ _ => ?_
  split
  · exact raises_ok _
  · exact reports_stop rfl

theorem Reduction.eval_reports (r : Reduction) (opType : String) (given : Option (List Int)) (keepDims : Bool)
    (x : Tensor) : Reports (r.eval opType given keepDims x) := by
  unfold Reduction.eval
  dsimp only
  split
  · refine (axes_reports _ _).bind fun _ _ => ?_
    split
    · exact reports_stop rfl
    · exact raises_ok _
  · exact reports_stop rfl

namespace MatMul

theorem requireSameDType_reports (opType : String) (ts : List Tensor) : Reports (requireSameDType opType ts) := by
  unfold requireSameDType
  dsimp only
  split
  · exact raises_ok _
  · exact reports_fail rfl

theorem eval_reports (a b : Tensor) : Reports (eval a b) := by
  refine (requireSameDType_reports _ _).bind fun _ _ => ?_
  dsimp only
  repeat' split
  all_goals first
    | exact raises_ok _
    | exact reports_fail rfl

end MatMul

theorem Softmax.eval_reports (axis : Int) (x : Tensor) : Reports (Softmax.eval axis x) := by
  refine (requireFloat_reports _ _).bind fun _ _ => (normalizeAxis_reports _ _).bind fun _ _ => ?_
  dsimp only
  split
  · exact reports_stop rfl
  · exact raises_ok _

theorem BatchNorm.eval_reports (epsilon : Binary) (x s b m v : Tensor) :
    Reports (BatchNorm.eval epsilon x s b m v) := by
  refine (requireFloat_reports _ _).bind fun _ _ => (MatMul.requireSameDType_reports _ _).bind fun _ _ => ?_
  dsimp only
  repeat' split
  all_goals first
    | exact raises_ok _
    | exact reports_stop rfl

namespace Reshape

theorem wordProduct_raises (ns : List Int) : Raises Overflows (wordProduct ns) := by
  unfold wordProduct
  split
  · exact (raises_fail _).mpr (.inr rfl)
  · exact raises_ok _

theorem copyExtents_reports (shape : Shape) (axis : Nat) (target : List Int) :
    Reports (copyExtents shape axis target) := by
  induction target generalizing axis with
  | nil => exact raises_ok _
  | cons d ds ih =>
    have rest : ∀ d : Int, Reports (copyExtents shape (axis + 1) ds >>= fun ds => .ok (d :: ds)) :=
      fun _ => (ih _).bind fun _ _ => raises_ok _
    unfold copyExtents
    dsimp only
    repeat' split
    all_goals first
      | exact rest _
      | exact reports_stop rfl

theorem resolve_raises (shape : Shape) (target : List Int) : Raises Overflows (resolve shape target) := by
  have divided : ∀ (dims : List Int) (total known : Int), Raises Overflows (if dims.contains (-1) then do
      if known = 0 || total.fmod known != 0 then fail (.cannotReshape shape target)
      return dims.map fun d => if d = -1 then total.fdiv known else d
    else do
      if known != total then fail (.cannotReshape shape target)
      return dims) := by
    intro dims total known
    repeat' split
    all_goals first
      | exact raises_ok _
      | exact (raises_fail _).mpr (.inl rfl)
  unfold resolve
  dsimp only
  split
  · exact (raises_fail _).mpr (.inl rfl)
  · exact ((copyExtents_reports _ _ _).mono fun _ => .inl).bind fun _ _ => (wordProduct_raises _).bind
      fun _ _ => (wordProduct_raises _).bind fun _ _ => divided _ _ _

theorem apply_raises (x : Tensor) (dims : List Int) : Raises Overflows (apply x dims) := by
  unfold apply
  dsimp only
  repeat' split
  all_goals first
    | exact raises_ok _
    | exact (raises_fail _).mpr (.inr rfl)
    | exact (raises_fail _).mpr (.inl rfl)

theorem eval_raises (own : Option (List Int)) (x : Tensor) (shape : Option Tensor) :
    Raises Overflows (eval own x shape) := by
  refine Raises.bind (Raises.mono (K := fun k => k.isReported = true) ?_ fun _ => .inl) fun ds _ =>
    (resolve_raises _ _).bind fun _ _ => apply_raises _ _
  unfold target
  split
  · exact targetOf_reports _
  · exact raises_ok _
  · exact reports_fail rfl

end Reshape

-- Text and values without a type are read, and what is read may be too large.
def Scalar.isRead : Scalar → Bool
  | .text _ | .object _ => true
  | _ => false

-- The kinds of faults that conversions of single elements end with.
def Kind.isUnread (k : Kind) : Bool := k == .value || k == .type || k == .overflow

theorem Kind.reported_of_unread {k : Kind} (unread : k.isUnread = true) (other : k ≠ .overflow) :
    k.isReported = true := by
  cases k <;> first | rfl | exact absurd unread (by decide) | exact absurd rfl other

abbrev Unread {α : Type} (x : Outcome α) : Prop := Raises (fun k => k.isUnread = true) x

namespace Datum

theorem toInt_unread (d : Datum) : Unread d.toInt := by
  unfold toInt
  repeat' split
  all_goals first
    | exact raises_ok _
    | exact (raises_fail _).mpr rfl

theorem toDouble_unread (d : Datum) : Unread d.toDouble := by
  unfold toDouble toDouble.ofText
  repeat' split
  all_goals first
    | exact raises_ok _
    | exact (raises_fail _).mpr rfl

end Datum

namespace Scalar

theorem ofInt_unread (signed : Bool) (bits : Nat) (i : Int) : Unread (ofInt signed bits i) := by
  unfold ofInt
  split
  · exact raises_ok _
  · exact (raises_fail _).mpr rfl

theorem ofDatum_unread (t : DType) (d : Datum) : Unread (ofDatum t d) := by
  unfold ofDatum
  split
  · split
    · exact raises_ok _
    · exact (raises_fail _).mpr rfl
    · exact Raises.map (Datum.toDouble_unread _) _
  · split
    · exact (raises_fail _).mpr rfl
    · exact (Datum.toInt_unread _).bind fun _ _ => ofInt_unread _ _ _
  · exact raises_ok _
  · split
    · split
      · exact raises_ok _
      · exact (raises_fail _).mpr rfl
    · exact raises_ok _
  · exact raises_ok _

theorem cast_raises (source target : DType) (s : Scalar) :
    Raises (fun k => k.isUnread = true ∧ s.isRead = true) (cast source target s) := by
  cases s with
  | object d => exact (ofDatum_unread target d).mono fun k unread => ⟨unread,rfl⟩
  | text s =>
    have read : ∀ k : Kind, k.isUnread = true → k.isUnread = true ∧ (text s).isRead = true :=
      fun k unread => ⟨unread,rfl⟩
    cases known : target.layout <;> simp only [cast,known]
    · exact Raises.mono (Raises.map (Datum.toDouble_unread _) _) read
    · exact Raises.mono ((Datum.toInt_unread _).bind fun _ _ => ofInt_unread _ _ _) read
    all_goals exact raises_ok _
  | float x =>
    cases known : target.layout <;> simp only [cast,known]
    case text => split <;> exact raises_ok _
    all_goals exact raises_ok _
  | int i | bool b =>
    cases known : target.layout <;> simp only [cast,known] <;> exact raises_ok _

end Scalar

theorem Tensor.cast_raises (t : Tensor) (target : DType) :
    Raises (fun k => k.isUnread = true ∧ ∃ x ∈ t.data, x.isRead = true) (t.cast target) :=
  (raises_mapM fun x member => (Scalar.cast_raises _ _ x).mono fun _ =>
    And.imp_right fun read => ⟨x,member,read⟩).bind fun _ _ => raises_ok _

-- A cast reports what cannot be read, and what is too large escapes.
theorem Cast.eval_raises (target : DType) (t : Tensor) :
    Raises (fun k => k.isReported = true ∨ k = .overflow ∧ ∃ x ∈ t.data, x.isRead = true) (Cast.eval target t) := by
  unfold Cast.eval
  split
  · exact raises_ok _
  · rename_i f failed
    split
    · exact (raises_fail _).mpr (.inl rfl)
    · obtain ⟨unread,read⟩ := t.cast_raises target f failed
      refine (raises_error f).mpr (or_iff_not_imp_right.mpr fun other => Kind.reported_of_unread unread ?_)
      exact fun overflow => other ⟨overflow,read⟩

theorem Scalar.misfits_of_read {d : DType} (number : d.isNumeric = true ∨ d = .bool) {x : Scalar}
    (read : x.isRead = true) : ¬ x.Fits d := by
  cases x with
  | text | object =>
    intro fits
    unfold Fits at fits
    subst fits
    revert number
    decide
  | float | int | bool => cases read

namespace Pack

theorem commonDType_number {types : List DType} {u : DType} (common : commonDType types = .ok u) {t : DType}
    (member : t ∈ types) (other : t ≠ u) : t.isNumeric = true ∨ t = .bool := by
  unfold commonDType DType.superType? at common
  split at common
  · rename_i found
    cases common
    split at found
    · cases found
    · split at found
      · rename_i same
        cases found
        exfalso
        rcases List.mem_cons.mp member with rfl | later
        · exact other rfl
        · exact other (by simpa using List.all_eq_true.mp same _ later)
      · split at found
        · rename_i numbers
          simpa using List.all_eq_true.mp numbers _ member
        · cases found
  · cases common

-- A pack casts numbers and truth values alone, so only what is no element of its own tensor's type is read.
theorem eval_raises (axis : Int) (first : Tensor) (rest : List Tensor) : Raises (fun k => k.isReported = true ∨
    k = .overflow ∧ ∃ t ∈ first :: rest, ∃ x ∈ t.data, ¬ x.Fits t.dtype) (eval axis first rest) := by
  refine ((commonDType_reports _).mono fun _ => .inl).bind fun dtype common => ?_
  have casted : ∀ t ∈ first :: rest, Raises (fun k => k.isReported = true ∨
      k = .overflow ∧ ∃ t ∈ first :: rest, ∃ x ∈ t.data, ¬ x.Fits t.dtype) (t.ofTensor (some dtype)) := by
    intro t member
    unfold Tensor.ofTensor
    dsimp only
    split
    · exact raises_ok _
    · rename_i other
      refine (t.cast_raises dtype).mono fun k => ?_
      rintro ⟨unread,x,element,read⟩
      have numbers := commonDType_number common (List.mem_map_of_mem member) other
      have misfit := Scalar.misfits_of_read numbers read
      exact or_iff_not_imp_right.mpr fun other => Kind.reported_of_unread unread
        fun overflow => other ⟨overflow,t,member,x,element,misfit⟩
  dsimp only
  split
  · refine ((normalizeAxis_reports _ _).mono fun _ => .inl).bind fun _ _ => ?_
    exact (raises_mapM casted).bind fun _ _ => raises_ok _
  · exact (raises_fail _).mpr (.inl rfl)

end Pack

namespace Patch

theorem outputPair_raises (p : Patch) (rows columns : Nat) : Raises (Patch.Divides p.strides) (p.outputPair rows columns) := by
  refine (p.outputSpatial_raises _ _).bind fun _ _ => ?_
  split
  · exact raises_ok _
  · exact (raises_fail _).mpr (.inl rfl)

end Patch

namespace Image

theorem toChannelsSecond_reports (last : Bool) (x : Tensor) : Reports (toChannelsSecond last x) := by
  unfold toChannelsSecond
  split
  · exact Transpose.eval_reports _ _
  · exact raises_ok _

theorem ofChannelsSecond_reports (last : Bool) (x : Tensor) : Reports (ofChannelsSecond last x) := by
  unfold ofChannelsSecond
  split
  · exact Transpose.eval_reports _ _
  · exact raises_ok _

end Image

namespace Convolution

theorem apply_raises (c : Convolution) (x w : Tensor) (bias : Option Tensor) :
    Raises (Patch.Divides c.strides) (c.apply x w bias) := by
  rw [apply_eq]
  unfold gathered
  split
  · exact (raises_fail _).mpr (.inl rfl)
  · refine ((c.patch _).outputPair_raises _ _).bind fun windows _ => ?_
    dsimp only
    repeat' split
    all_goals first
      | exact raises_ok _
      | exact (raises_fail _).mpr (.inl rfl)

theorem eval_raises (c : Convolution) (x w : Tensor) (bias : Option Tensor) :
    Raises (Patch.Divides c.strides) (c.eval x w bias) := by
  refine ((requireFloat_reports _ _).mono fun _ => .inl).bind fun _ _ =>
    ((MatMul.requireSameDType_reports _ _).mono fun _ => .inl).bind fun _ _ => ?_
  dsimp only
  split
  · exact (raises_fail _).mpr (.inl rfl)
  · refine ((Image.toChannelsSecond_reports _ _).mono fun _ => .inl).bind fun data _ => ?_
    have kernel : Reports (c.kernelOutputFirst w) := by
      unfold kernelOutputFirst
      split
      · exact Transpose.eval_reports _ _
      · exact raises_ok _
    exact (kernel.mono fun _ => .inl).bind fun _ _ => (c.apply_raises _ _ _).bind fun _ _ =>
      (Image.ofChannelsSecond_reports _ _).mono fun _ => .inl

end Convolution

namespace Pooling

theorem greatest_raises (p : Patch) (x : Tensor) : Raises (Patch.Divides p.strides) (greatest p x) := by
  have stretches : ∀ n positions, Reports (stretched n positions) := by
    intro n positions
    refine raises_foldlM (fun _ _ _ => ?_) _
    split
    · exact raises_ok _
    · exact reports_fail rfl
  rw [greatest_eq]
  refine (p.outputPair_raises _ _).bind fun windows _ => ?_
  dsimp only
  split
  · exact (raises_fail _).mpr (.inl rfl)
  · exact ((stretches _ _).mono fun _ => .inl).bind fun _ _ => ((stretches _ _).mono fun _ => .inl).bind
      fun _ _ => raises_ok _

theorem mean_raises (p : Patch) (x : Tensor) : Raises (Patch.Divides p.strides) (mean p x) := by
  rw [mean_eq]
  refine (p.outputPair_raises _ _).bind fun windows _ => ?_
  dsimp only
  split
  · exact (raises_fail _).mpr (.inl rfl)
  · exact raises_ok _

theorem eval_raises (k : PoolKind) (p : Patch) (x : Tensor) : Raises (Patch.Divides p.strides) (eval k p x) := by
  refine ((k.checkDType_reports _).mono fun _ => .inl).bind fun _ _ => ?_
  dsimp only
  split
  · exact (raises_fail _).mpr (.inl rfl)
  · refine ((Image.toChannelsSecond_reports _ _).mono fun _ => .inl).bind fun data _ => ?_
    cases k with
    | max => exact (greatest_raises p _).bind fun _ _ => (Image.ofChannelsSecond_reports _ _).mono fun _ => .inl
    | average => exact (mean_raises p _).bind fun _ _ => (Image.ofChannelsSecond_reports _ _).mono fun _ => .inl

end Pooling

namespace Op

-- What the rule of an operator fails with that its node does not report, and when it can. Ranks that disagree
-- are looked up before they are compared, and an input of the graph may lack what its operator takes.
def RuleEscapes (o : Op) (inputs : Nat) (k : Kind) : Prop :=
  match o with
  | concat _ => k = .index
  | reshape _ => k = .index ∧ inputs = 0
  | shape => k = .overflow
  | conv c => k = .zeroDivision ∧ Patch.Still c.strides ∨ k = .index ∧ inputs < 2
  | pool _ p => k = .zeroDivision ∧ Patch.Still p.strides
  | _ => False

-- The same for its evaluation.
def EvalEscapes (o : Op) (ts : List Tensor) (k : Kind) : Prop :=
  match o with
  | reshape _ => k = .overflow
  | cast _ => k = .overflow ∧ ∃ t ∈ ts, ∃ x ∈ t.data, x.isRead = true
  | pack _ => k = .overflow ∧ ∃ t ∈ ts, ∃ x ∈ t.data, ¬ x.Fits t.dtype
  | conv c => k = .zeroDivision ∧ Patch.Still c.strides
  | pool _ p => k = .zeroDivision ∧ Patch.Still p.strides
  | _ => False

theorem inferSource_reports (known : Fact) (ins outs : Facts) : Reports (inferSource known ins outs) :=
  (Fact.unify_reports _ _).bind fun _ _ => raises_ok _

theorem inferIdentity_reports (ins outs : Facts) : Reports (inferIdentity ins outs) := by
  refine (Facts.shareDType_reports _).bind fun _ _ => (Facts.shareShape_reports _).bind fun _ _ =>
    (Facts.pair_reports _).bind fun p _ => ?_
  dsimp only
  split
  · exact (Fact.unify_reports _ _).bind fun _ _ => raises_ok _
  · exact (Fact.unify_reports _ _).bind fun _ _ => raises_ok _
  · exact raises_ok _

theorem infer_raises (o : Op) (ins outs : Facts) :
    Raises (fun k => k.isReported = true ∨ o.RuleEscapes ins.length k) (o.infer ins outs) := by
  cases o with
  | const | placeholder => exact (inferSource_reports _ _ _).mono fun _ => .inl
  | identity => exact (inferIdentity_reports _ _).mono fun _ => .inl
  | binary k => exact (k.infer_reports _ _).mono fun _ => .inl
  | addN => exact (AddN.infer_reports _ _).mono fun _ => .inl
  | unary k => exact (k.infer_reports _ _).mono fun _ => .inl
  | reshape own =>
    refine (Reshape.infer_raises _ _ _).mono fun _ => Or.imp_right ?_
    rintro ⟨rfl,rfl⟩
    exact ⟨rfl,rfl⟩
  | transpose perm => exact (Transpose.infer_reports _ _ _).mono fun _ => .inl
  | concat axis => exact Concat.infer_raises _ _ _
  | pack axis => exact (Pack.infer_reports _ _ _).mono fun _ => .inl
  | slice spans => exact (Slice.infer_reports _ _ _).mono fun _ => .inl
  | squeeze axes => exact (Squeeze.infer_reports _ _ _).mono fun _ => .inl
  | expandDims axes => exact (ExpandDims.infer_reports _ _ _).mono fun _ => .inl
  | flatten axis => exact (Flatten.infer_reports _ _ _).mono fun _ => .inl
  | cast t => exact (Cast.infer_reports _ _ _).mono fun _ => .inl
  | shape => exact ShapeOf.infer_raises _ _
  | reduce named reduction axes keepDims => exact (Reduction.infer_reports _ _ _ _ _).mono fun _ => .inl
  | matMul => exact (MatMul.infer_reports _ _).mono fun _ => .inl
  | softmax axis => exact (Softmax.infer_reports _ _).mono fun _ => .inl
  | batchNorm epsilon => exact (BatchNorm.infer_reports _ _).mono fun _ => .inl
  | conv c => exact (c.infer_raises _ _).mono fun _ => or_assoc.mp
  | pool k p => exact Pooling.infer_raises _ _ _ _

theorem eval_raises (o : Op) (ts : List Tensor) :
    Raises (fun k => k.isReported = true ∨ o.EvalEscapes ts k) (o.eval ts) := by
  unfold eval
  dsimp only
  split
  · exact (raises_fail _).mpr (.inl rfl)
  · exact raises_ok _
  · exact raises_ok _
  · exact Raises.map ((BinaryKind.eval_reports _ _ _).mono fun _ => .inl) _
  · exact Raises.map ((AddN.eval_reports _ _).mono fun _ => .inl) _
  · exact Raises.map ((UnaryKind.eval_reports _ _).mono fun _ => .inl) _
  · exact (Reshape.eval_raises _ _ _).map _
  · exact (Reshape.eval_raises _ _ _).map _
  · exact Raises.map ((Transpose.eval_reports _ _).mono fun _ => .inl) _
  · exact Raises.map ((Concat.eval_reports _ _ _).mono fun _ => .inl) _
  · exact (Pack.eval_raises _ _ _).map _
  · exact Raises.map ((Slice.eval_reports _ _).mono fun _ => .inl) _
  · exact Raises.map ((Squeeze.eval_reports _ _).mono fun _ => .inl) _
  · exact Raises.map ((ExpandDims.eval_reports _ _).mono fun _ => .inl) _
  · exact Raises.map ((Flatten.eval_reports _ _).mono fun _ => .inl) _
  · rename_i x
    refine Raises.map ((Cast.eval_raises _ x).mono fun _ => Or.imp_right ?_) _
    rintro ⟨overflow,read⟩
    exact ⟨overflow,x,List.mem_singleton_self x,read⟩
  · exact raises_ok _
  · exact Raises.map ((Reduction.eval_reports _ _ _ _ _).mono fun _ => .inl) _
  · exact Raises.map ((MatMul.eval_reports _ _).mono fun _ => .inl) _
  · exact Raises.map ((Softmax.eval_reports _ _).mono fun _ => .inl) _
  · exact Raises.map ((BatchNorm.eval_reports _ _ _ _ _ _).mono fun _ => .inl) _
  · exact (Convolution.eval_raises _ _ _ _).map _
  · exact (Convolution.eval_raises _ _ _ _).map _
  · exact (Pooling.eval_raises _ _ _).map _
  · exact (raises_fail _).mpr (.inl rfl)

end Op

end TensorGraph
