import Mathlib.Data.Int.ModEq
import TensorGraph.Proofs.Op.Proper.Window
import TensorGraph.Proofs.Tensor.Stretch

namespace TensorGraph
open Outcome

variable {t u : Tensor} {d : DType} {signed : Bool} {bits : Nat} {i j : Int} {is : List Int}

namespace DType

theorem wrap_emod (signed : Bool) (bits : Nat) (i : Int) :
    wrap signed bits i % (2 ^ bits : Nat) = i % (2 ^ bits : Nat) := by
  unfold wrap
  cases signed
  · exact Int.emod_emod_of_dvd i (dvd_refl _)
  · exact Int.bmod_emod

-- What agrees modulo the size of the width wraps alike.
theorem wrap_congr (same : i % (2 ^ bits : Nat) = j % (2 ^ bits : Nat)) :
    wrap signed bits i = wrap signed bits j := by
  unfold wrap
  cases signed
  · exact same
  · simp only [if_true,Nat.pow_eq]
    rw [← Int.emod_bmod,same,Int.emod_bmod]

-- Wrapping on the way does not change what a sum wraps to.
theorem wrap_add (signed : Bool) (bits : Nat) (i j : Int) :
    wrap signed bits (wrap signed bits i + j) = wrap signed bits (i + j) :=
  wrap_congr (by rw [Int.add_emod,wrap_emod,← Int.add_emod])

-- A floored remainder is zero or on the divisor's side of it, and nearer to it than the divisor.
theorem fmod_between (i : Int) (other : j ≠ 0) :
    0 < j ∧ 0 ≤ i.fmod j ∧ i.fmod j < j ∨ j < 0 ∧ j < i.fmod j ∧ i.fmod j ≤ 0 := by
  rcases Int.lt_or_gt_of_ne other with negative | positive
  · have low := Int.fmod_nonneg_of_pos (-i) (Int.neg_pos_of_neg negative)
    have high := Int.fmod_lt_of_pos (-i) (Int.neg_pos_of_neg negative)
    rw [Int.neg_fmod_neg] at low high
    exact .inr ⟨negative,by omega,by omega⟩
  · exact .inl ⟨positive,Int.fmod_nonneg_of_pos i positive,Int.fmod_lt_of_pos i positive⟩

theorem Within.fmod (positive : 0 < bits) (right : Within signed bits j) (i : Int) (other : j ≠ 0) :
    Within signed bits (i.fmod j) := by
  have between := fmod_between i other
  cases signed
  · rw [within_unsigned] at right ⊢
    omega
  · rw [within_signed positive] at right ⊢
    omega

end DType

namespace Scalar

-- The integer of an integer element.
def whole : Scalar → Int
  | .int i => i
  | _ => 0

theorem whole_eq {x : Scalar} (holds : (Layout.integer signed bits).Holds x) : x = .int x.whole := by
  obtain ⟨i,rfl,-⟩ := Layout.holds_integer holds
  rfl

theorem whole_within {x : Scalar} (holds : (Layout.integer signed bits).Holds x) :
    DType.Within signed bits x.whole := by
  obtain ⟨i,rfl,within⟩ := Layout.holds_integer holds
  exact within

end Scalar

-- An integer tensor whose elements are these integers, each wrapped once.
def Tensor.Wraps (u : Tensor) (is : List Int) : Prop :=
  ∀ signed bits, u.dtype.layout = .integer signed bits → u.data = is.map fun i => .int (DType.wrap signed bits i)

theorem Tensor.wraps_table {shape : Shape} {g : List Nat → Scalar} {h : List Nat → Int}
    (each : ∀ signed bits, d.layout = .integer signed bits → ∀ index ∈ shape.indices,
      g index = .int (DType.wrap signed bits (h index))) : (tabulate d shape g).Wraps (shape.indices.map h) := by
  intro signed bits integer
  rw [List.map_map]
  exact List.map_congr_left (each signed bits integer)

namespace BinaryKind

variable {k : BinaryKind} {a b : Tensor} {g : Int → Int → Int}

-- The operation on integers of any size.
def onWhole? : BinaryKind → Option (Int → Int → Int)
  | add => some (· + ·)
  | sub => some (· - ·)
  | mul => some (· * ·)
  | div => some Int.tdiv
  | rem => some Int.fmod
  | pow => some fun i j => i ^ j.toNat
  | maximum => some max
  | minimum => some min
  | _ => none

-- Squaring takes one bit of the exponent at each step.
theorem powMod_eq {m steps base e : Nat} (covered : e < 2 ^ steps) : powMod m steps base e = base ^ e % m := by
  induction steps generalizing base e with
  | zero =>
    have none : e = 0 := by simpa using covered
    rw [none,powMod,pow_zero]
  | succ steps ih =>
    have half : e / 2 < 2 ^ steps := Nat.div_lt_of_lt_mul (by rw [← Nat.pow_succ']; exact covered)
    have squares : (base * base % m) ^ (e / 2) % m = base ^ (2 * (e / 2)) % m := by
      rw [← Nat.pow_mod,pow_mul,sq]
    have bits := Nat.div_add_mod e 2
    rw [powMod,ih half,squares]
    split
    · rename_i odd
      rw [Nat.mul_mod_mod,← pow_succ',← odd,bits]
    · rename_i even
      rw [Nat.mod_two_ne_one.mp even,Nat.add_zero] at bits
      rw [bits]

theorem wrap_powMod (i : Int) (e : Nat) : DType.wrap signed bits
    (powMod (2 ^ bits) (e.log2 + 1) (i % (2 ^ bits : Nat)).toNat e) = DType.wrap signed bits (i ^ e) := by
  have positive : 0 ≤ i % (2 ^ bits : Nat) := Int.emod_nonneg i (by simp)
  refine DType.wrap_congr ?_
  rw [powMod_eq Nat.lt_log2_self,Int.natCast_mod,Int.emod_emod_of_dvd _ (dvd_refl _),Int.natCast_pow,
    Int.toNat_of_nonneg positive]
  exact (Int.mod_modEq i _).pow e

-- A floored quotient lies one below the one that is cut off just where the exact one is negative and no integer.
theorem tdiv_eq_corrected (i : Int) (other : j ≠ 0) : i.tdiv j =
    i.fdiv j + Int.ofNat (i.fmod j != 0 && (decide (i < 0) != decide (j < 0))).toNat := by
  rw [Int.tdiv_eq_fdiv]
  simp only [Int.dvd_iff_fmod_eq_zero]
  refine congrArg (i.fdiv j + ·) ?_
  by_cases none : i.fmod j = 0
  · simp [none]
  · have left_over : (i.fmod j != 0) = true := bne_iff_ne.mpr none
    rw [if_neg none,left_over]
    rcases Int.lt_or_gt_of_ne other with negative | positive
    · rw [if_neg negative.not_ge,if_neg negative.not_ge,Int.sign_eq_neg_one_of_neg negative]
      rcases lt_or_ge i 0 with below | above
      · simp [below,negative,below.not_ge]
      · simp [above,negative,above.not_gt]
    · rw [if_pos positive.le,if_pos positive.le,Int.sign_eq_one_of_pos positive]
      rcases lt_or_ge i 0 with below | above
      · simp [below,positive.not_gt,below.not_ge]
      · simp [above,positive.not_gt,above.not_gt]

theorem quotient_wraps (positive : 0 < bits) (right : DType.Within signed bits j) (i : Int) :
    quotient signed bits i j = DType.wrap signed bits (i.tdiv j) := by
  unfold quotient
  rcases eq_or_ne j 0 with rfl | other
  · rw [DType.wrap_add,if_pos rfl,Int.fdiv_zero,Int.tdiv_zero]
    rfl
  · rw [DType.wrap_add,if_neg other,DType.wrap_of_within positive (right.fmod positive i other),tdiv_eq_corrected i other]

theorem onInts_wraps (positive : 0 < bits) (left : DType.Within signed bits i) (right : DType.Within signed bits j)
    (meant : k.onWhole? = some g) : k.onInts signed bits i j = DType.wrap signed bits (g i j) := by
  cases k <;> cases meant
  case div => exact quotient_wraps positive right i
  case pow => exact wrap_powMod i j.toNat
  case maximum => exact (DType.wrap_of_within positive (max_rec' (DType.Within signed bits) left right)).symm
  case minimum => exact (DType.wrap_of_within positive (min_rec' (DType.Within signed bits) left right)).symm
  all_goals rfl

theorem resultDType_whole (meant : k.onWhole? = some g) (d : DType) : k.resultDType d = d := by
  cases k <;> cases meant <;> rfl

theorem onScalars_wraps {x y : Scalar} (integer : d.layout = .integer signed bits) (left : d.layout.Holds x)
    (right : d.layout.Holds y) (meant : k.onWhole? = some g) :
    k.onScalars d x y = .int (DType.wrap signed bits (g x.whole y.whole)) := by
  rw [integer] at left right
  rw [← onInts_wraps (DType.layout_bits integer) (Scalar.whole_within left) (Scalar.whole_within right) meant]
  obtain ⟨i,rfl,-⟩ := Layout.holds_integer left
  obtain ⟨j,rfl,-⟩ := Layout.holds_integer right
  cases k <;> cases meant
  all_goals
    unfold onScalars
    rw [integer]
    rfl

def exact (k : BinaryKind) (a b : Tensor) : Option (List Int) := do
  let g ← k.onWhole?
  let shape ← Shape.broadcast? a.shape b.shape
  return shape.indices.map fun index => g (a.getStretched index).whole (b.getStretched index).whole

theorem eval_wraps (left : a.Proper) (right : b.Proper) (evaluated : k.eval a b = .ok u)
    (meant : k.exact a b = some is) : u.Wraps is := by
  obtain ⟨same,-,shape,met,rfl⟩ := eval_ok evaluated
  obtain ⟨g,onWhole,meant⟩ := Option.bind_eq_some_iff.mp meant
  rw [met] at meant
  cases meant
  refine Tensor.wraps_table fun signed bits integer index _ => ?_
  rw [resultDType_whole onWhole] at integer
  exact onScalars_wraps integer (left.get _) (same ▸ right.get _) onWhole

end BinaryKind

namespace UnaryKind

variable {k : UnaryKind} {g : Int → Int}

def onWhole? : UnaryKind → Option (Int → Int)
  | abs => some fun i => i.natAbs
  | neg => some (- ·)
  | relu => some (max · 0)
  | _ => none

theorem onScalar_wraps {x : Scalar} (integer : d.layout = .integer signed bits) (holds : d.layout.Holds x)
    (meant : k.onWhole? = some g) : k.onScalar d x = .int (DType.wrap signed bits (g x.whole)) := by
  rw [integer] at holds
  obtain ⟨i,rfl,within⟩ := Layout.holds_integer holds
  have made : k.onInts signed bits i = DType.wrap signed bits (g i) := by
    cases k <;> cases meant
    case relu =>
      have range := onInts_within (k := .relu) integer within
      exact (DType.wrap_of_within (DType.layout_bits integer) range).symm
    all_goals rfl
  rw [Scalar.whole,← made]
  cases k <;> cases meant
  all_goals
    unfold onScalar
    rw [integer]

def exact (k : UnaryKind) (x : Tensor) : Option (List Int) :=
  k.onWhole?.map fun g => x.data.map fun s => g s.whole

theorem eval_wraps (input : t.Proper) (evaluated : k.eval t = .ok u) (meant : k.exact t = some is) : u.Wraps is := by
  obtain ⟨-,rfl⟩ := eval_ok evaluated
  obtain ⟨g,onWhole,rfl⟩ := Option.map_eq_some_iff.mp meant
  intro signed bits integer
  rw [List.map_map]
  exact List.map_congr_left fun x member => onScalar_wraps integer (input.holds x member) onWhole

end UnaryKind

namespace AddN

-- At each index the sum over all tensors.
def total (ts : List Tensor) (index : List Nat) : Int := (ts.map fun t => (t.getStretched index).whole).sum

def exact (ts : List Tensor) : Option (List Int) :=
  (Shape.broadcastAll? (ts.map Tensor.shape)).map fun shape => shape.indices.map (total ts)

-- What has been summed: the sum over some tensors that stretch to its shape, wrapped once.
structure Summed (d : DType) (signed : Bool) (bits : Nat) (ts : List Tensor) (u : Tensor) : Prop where
  dtype : u.dtype = d
  data : u.data.length = u.shape.size
  spans : ∀ t ∈ ts, t.shape.Spans u.shape
  wraps : ∀ index ∈ u.shape.indices, u.get index = .int (DType.wrap signed bits (total ts index))

theorem summed_one (proper : t.Proper) (integer : t.dtype.layout = .integer signed bits) :
    Summed t.dtype signed bits [t] t where
  dtype := rfl
  data := proper.size
  spans := List.forall_mem_singleton.mpr (Shape.Spans.refl t.shape)
  wraps index inside := by
    have holds := proper.get index
    rw [integer] at holds
    have alone : total [t] index = (t.get index).whole := by
      rw [total,List.map_singleton,List.sum_singleton,Tensor.getStretched,Shape.source_self inside]
    rw [alone,DType.wrap_of_within (DType.layout_bits integer) (Scalar.whole_within holds)]
    exact Scalar.whole_eq holds

theorem Summed.more {ts : List Tensor} {acc : Tensor} {shape : Shape} (summed : Summed d signed bits ts acc)
    (integer : d.layout = .integer signed bits) (proper : t.Proper) (dtype : t.dtype = d)
    (met : Shape.broadcast? acc.shape t.shape = some shape) : Summed d signed bits (ts ++ [t]) (sum acc t) := by
  have result : sum acc t = Tensor.combine acc.dtype (BinaryKind.add.onScalars acc.dtype) acc t shape := by
    rw [sum,Tensor.zipWith?,met]
    rfl
  obtain ⟨before,last⟩ := Shape.spans_of_broadcast? met
  rw [result,summed.dtype]
  refine ⟨rfl,Tensor.length_data_tabulate ..,?_,?_⟩
  · rw [List.forall_mem_append,List.forall_mem_singleton]
    exact ⟨fun s member => (summed.spans s member).trans before,last⟩
  · intro index inside
    change index ∈ shape.indices at inside
    have earlier : total ts (Shape.source acc.shape index) = total ts index := by
      refine congrArg List.sum (List.map_congr_left fun s member => ?_)
      rw [Tensor.getStretched,(summed.spans s member).source_source before inside]
      rfl
    have here : acc.getStretched index = .int (DType.wrap signed bits (total ts index)) := by
      rw [← earlier]
      exact summed.wraps _ (before.source_mem inside)
    have sofar : d.layout.Holds (.int (DType.wrap signed bits (total ts index))) := by
      rw [integer]
      exact Scalar.holds_wrap integer _
    have holds : d.layout.Holds (t.getStretched index) := dtype ▸ proper.get _
    have grown : total (ts ++ [t]) index = total ts index + (t.getStretched index).whole := by
      rw [total,List.map_append,List.sum_append,List.map_singleton,List.sum_singleton]
      rfl
    calc (Tensor.combine d (BinaryKind.add.onScalars d) acc t shape).get index
      _ = BinaryKind.add.onScalars d (acc.getStretched index) (t.getStretched index) := Tensor.get_tabulate d _ inside
      _ = .int (DType.wrap signed bits (DType.wrap signed bits (total ts index) + (t.getStretched index).whole)) := by
        rw [here]
        exact BinaryKind.onScalars_wraps (k := .add) integer sofar holds rfl
      _ = .int (DType.wrap signed bits (total (ts ++ [t]) index)) := by rw [DType.wrap_add,grown]

theorem summed_fold {rest ts : List Tensor} {acc : Tensor} {shape : Shape} (summed : Summed d signed bits ts acc)
    (integer : d.layout = .integer signed bits) (inputs : ∀ t ∈ rest, t.Proper ∧ t.dtype = d)
    (met : (rest.map Tensor.shape).foldlM Shape.broadcast? acc.shape = some shape) :
    Summed d signed bits (ts ++ rest) (rest.foldl sum acc) := by
  induction rest generalizing ts acc with
  | nil => exact (List.append_nil ts).symm ▸ summed
  | cons t rest ih =>
    rw [List.map_cons,List.foldlM_cons,Option.bind_eq_bind,Option.bind_eq_some_iff] at met
    obtain ⟨next,here,later⟩ := met
    obtain ⟨⟨proper,dtype⟩,inputs⟩ := List.forall_mem_cons.mp inputs
    rw [← (sum_parts here).2] at later
    rw [List.foldl_cons,List.append_cons]
    exact ih (summed.more integer proper dtype here) inputs later

theorem eval_wraps {rest : List Tensor} (inputs : ∀ s ∈ t :: rest, s.Proper) (evaluated : eval t rest = .ok u)
    (meant : exact (t :: rest) = some is) : u.Wraps is := by
  obtain ⟨same,shape,met,later,rfl⟩ := eval_ok evaluated
  obtain ⟨_,found,rfl⟩ := Option.map_eq_some_iff.mp meant
  cases met.symm.trans found
  obtain ⟨dtype,reached⟩ := fold_parts later
  intro signed bits integer
  rw [dtype] at integer
  have summed := summed_fold (summed_one (inputs t List.mem_cons_self) integer) integer
    (fun s member => ⟨inputs s (List.mem_cons_of_mem t member),same s (List.mem_cons_of_mem t member)⟩) later
  rw [Tensor.data_eq summed.data,List.map_map,reached]
  exact List.map_congr_left (reached ▸ summed.wraps)

end AddN

namespace Reduction

variable {k : Reduction} {g : List Int → Int}

def onWhole? : Reduction → Option (List Int → Int)
  | sum => some List.sum
  | prod => some List.prod
  | _ => none

theorem intsOf_eq {xs : List Scalar} (each : ∀ x ∈ xs, (Layout.integer signed bits).Holds x) :
    intsOf xs = xs.map Scalar.whole := by
  induction xs with
  | nil => rfl
  | cons x xs ih =>
    obtain ⟨first,rest⟩ := List.forall_mem_cons.mp each
    obtain ⟨i,rfl,-⟩ := Layout.holds_integer first
    rw [List.map_cons,← ih rest]
    rfl

theorem onScalars_wraps {xs : List Scalar} (integer : d.layout = .integer signed bits)
    (each : ∀ x ∈ xs, d.layout.Holds x) (meant : k.onWhole? = some g) :
    k.onScalars d xs = .int (DType.wrap signed bits (g (xs.map Scalar.whole))) := by
  rw [integer] at each
  unfold onScalars
  rw [integer]
  dsimp only
  rw [intsOf_eq each]
  cases k <;> cases meant
  · rfl
  · rw [onInts,← List.prod_eq_foldl]

def exact (k : Reduction) (given : Option (List Int)) (x : Tensor) : Option (List Int) := do
  let g ← k.onWhole?
  let chosen ← (axes given x.rank).toOption
  return (keptShape chosen x.shape).indices.map fun index => g ((group chosen x index).map Scalar.whole)

theorem eval_wraps {name : String} {given : Option (List Int)} {keepDims : Bool} (input : t.Proper)
    (evaluated : k.eval name given keepDims t = .ok u) (meant : k.exact given t = some is) : u.Wraps is := by
  obtain ⟨-,chosen,found,rfl⟩ := eval_ok evaluated
  obtain ⟨g,onWhole,meant⟩ := Option.bind_eq_some_iff.mp meant
  rw [Tensor.rank,found] at meant
  cases meant
  have reduced : (k.reduce chosen t).Wraps _ := Tensor.wraps_table fun signed bits integer index _ =>
    onScalars_wraps integer (List.forall_mem_map.mpr fun _ _ => input.get _) onWhole
  cases keepDims with
  | true => exact reduced
  | false => exact reduced

end Reduction

namespace MatMul

variable {a b : Tensor}

-- The elements of a row and a column that meet at an index of the product.
def pairs (a b : Tensor) (shape : Shape) (index : List Nat) : List (Scalar × Scalar) :=
  let m := a.rank - 2
  let k := b.rank - 2
  let batch := shape.length - 2
  let left := Shape.source (a.shape.take m) (index.take batch) ++ [index.getD batch 0]
  let right := Shape.source (b.shape.take k) (index.take batch)
  (List.range (a.shape.getD (m + 1) 0)).map fun i =>
    (a.get (left ++ [i]),b.get (right ++ [i,index.getD (batch + 1) 0]))

def inner (ps : List (Scalar × Scalar)) : Int := (ps.map fun p => p.1.whole * p.2.whole).sum

theorem foldl_sum {α : Type} {step : Int → α → Int} (value : α → Int)
    (each : ∀ acc x, step acc x = acc + value x) (xs : List α) (acc : Int) :
    xs.foldl step acc = acc + (xs.map value).sum := by
  induction xs generalizing acc with
  | nil => exact (Int.add_zero acc).symm
  | cons x xs ih => rw [List.foldl_cons,ih,each,List.map_cons,List.sum_cons,Int.add_assoc]

theorem dot_wraps (integer : d.layout = .integer signed bits) (ps : List (Scalar × Scalar)) :
    dot d ps = .int (DType.wrap signed bits (inner ps)) := by
  unfold dot
  rw [integer]
  dsimp only
  rw [foldl_sum fun p => p.1.whole * p.2.whole,Int.zero_add]
  · rfl
  · rintro acc ⟨x,y⟩
    cases x <;> cases y <;> simp [Scalar.whole]

def exact (a b : Tensor) : Option (List Int) :=
  (productShape? (asMatrixLeft a.shape) (asMatrixRight b.shape)).map fun shape => shape.indices.map fun index =>
    inner (pairs (a.reshape (asMatrixLeft a.shape)) (b.reshape (asMatrixRight b.shape)) shape index)

theorem eval_wraps (evaluated : eval a b = .ok u) (meant : exact a b = some is) : u.Wraps is := by
  obtain ⟨-,-,-,shape,met,rfl⟩ := eval_ok evaluated
  obtain ⟨_,found,rfl⟩ := Option.map_eq_some_iff.mp meant
  cases met.symm.trans found
  exact Tensor.wraps_table fun signed bits integer index _ => dot_wraps integer _

end MatMul

namespace Cast

-- Integers, and truth values as the integers 0 and 1.
def whole? : Scalar → Option Int
  | .int i => some i
  | .bool b => some b.toNat
  | _ => none

def exact (x : Tensor) : Option (List Int) := x.data.mapM whole?

theorem cast_wraps {source : DType} {x y : Scalar} (integer : d.layout = .integer signed bits)
    (made : Scalar.cast source d x = .ok y) (meant : whole? x = some i) : y = .int (DType.wrap signed bits i) := by
  cases x with
  | int j =>
    cases meant
    simp only [Scalar.cast,integer] at made
    cases made
    rfl
  | bool b =>
    cases meant
    simp only [Scalar.cast,integer] at made
    cases made
    rw [DType.wrap_of_within (DType.layout_bits integer) (Scalar.holds_bit integer b)]
  | float | text | object => cases meant

theorem eval_wraps {target : DType} (evaluated : eval target t = .ok u) (meant : exact t = some is) : u.Wraps is := by
  intro signed bits integer
  unfold eval at evaluated
  split at evaluated
  · rename_i made
    cases evaluated
    obtain ⟨xs,converted,equal⟩ := bind_ok.mp made
    cases equal
    have each := forall₂_trans (mapM_ok.mp converted).flip (mapM_some.mp meant) fun _ _ _ => cast_wraps integer
    rwa [← List.forall₂_eq_eq_eq,List.forall₂_map_right_iff]
  · split at evaluated <;> cases evaluated

end Cast

namespace Op

variable {o : Op} {ts vs : List Tensor}

-- What an operator computes from integers, in row-major order, if the integers may be of any size. The other
-- operators select or move elements, or give integers only by way of floats.
def exact (o : Op) (inputs : List Tensor) : Option (List Int) :=
  match o,inputs with
  | binary k,[a,b] => k.exact a b
  | addN,ts => AddN.exact ts
  | unary k,[x] => k.exact x
  | cast _,[x] => Cast.exact x
  | reduce _ r axes _,[x] => r.exact axes x
  | matMul,[a,b] => MatMul.exact a b
  | _,_ => none

theorem alone {x : Outcome Tensor} {P : Tensor → Prop} (evaluated : x.map ([·]) = .ok vs)
    (holds : ∀ u, x = .ok u → P u) : ∀ v ∈ vs, P v := by
  obtain ⟨u,ran,rfl⟩ := map_ok.mp evaluated
  exact List.forall_mem_singleton.mpr (holds u ran)

theorem proper_head {x : Tensor} {rest : List Tensor} (inputs : ∀ t ∈ x :: rest, t.Proper) : x.Proper :=
  inputs x List.mem_cons_self

-- Evaluation makes proper tensors from proper ones, and wraps what integers come to once.
theorem outputs_proper (attributes : ∀ t, o = const t → t.Proper) (inputs : ∀ t ∈ ts, t.Proper)
    (counted : o = shape → ∀ t ∈ ts, ∀ n ∈ t.shape, n < 2 ^ 63) (evaluated : o.eval ts = .ok vs) :
    ∀ v ∈ vs, v.Proper ∧ ∀ is, o.exact ts = some is → v.Wraps is := by
  unfold eval at evaluated
  dsimp only at evaluated
  split at evaluated
  · cases evaluated
  · cases evaluated
    exact List.forall_mem_singleton.mpr ⟨attributes _ rfl,nofun⟩
  · cases evaluated
    exact List.forall_mem_singleton.mpr ⟨inputs _ (List.mem_singleton_self _),nofun⟩
  · exact alone evaluated fun _ ran => ⟨BinaryKind.eval_proper (proper_head inputs) (inputs _ (by simp)) ran,
      fun _ => BinaryKind.eval_wraps (proper_head inputs) (inputs _ (by simp)) ran⟩
  · exact alone evaluated fun _ ran => ⟨AddN.eval_proper inputs ran,fun _ => AddN.eval_wraps inputs ran⟩
  · exact alone evaluated fun _ ran => ⟨UnaryKind.eval_proper (proper_head inputs) ran,
      fun _ => UnaryKind.eval_wraps (proper_head inputs) ran⟩
  · exact alone evaluated fun _ ran => ⟨Reshape.eval_proper (proper_head inputs) ran,nofun⟩
  · exact alone evaluated fun _ ran => ⟨Reshape.eval_proper (proper_head inputs) ran,nofun⟩
  · exact alone evaluated fun _ ran => ⟨Transpose.eval_proper (proper_head inputs) ran,nofun⟩
  · exact alone evaluated fun _ ran => ⟨Concat.eval_proper inputs ran,nofun⟩
  · exact alone evaluated fun _ ran => ⟨Pack.eval_proper inputs ran,nofun⟩
  · exact alone evaluated fun _ ran => ⟨Slice.eval_proper (proper_head inputs) ran,nofun⟩
  · exact alone evaluated fun _ ran => ⟨Squeeze.eval_proper (proper_head inputs) ran,nofun⟩
  · exact alone evaluated fun _ ran => ⟨ExpandDims.eval_proper (proper_head inputs) ran,nofun⟩
  · exact alone evaluated fun _ ran => ⟨Flatten.eval_proper (proper_head inputs) ran,nofun⟩
  · exact alone evaluated fun _ ran => ⟨Cast.eval_proper (proper_head inputs) ran,fun _ => Cast.eval_wraps ran⟩
  · cases evaluated
    exact List.forall_mem_singleton.mpr ⟨ShapeOf.eval_proper (counted rfl _ (by simp)),nofun⟩
  · exact alone evaluated fun _ ran => ⟨Reduction.eval_proper (proper_head inputs) ran,
      fun _ => Reduction.eval_wraps (proper_head inputs) ran⟩
  · exact alone evaluated fun _ ran => ⟨MatMul.eval_proper ran,fun _ => MatMul.eval_wraps ran⟩
  · exact alone evaluated fun _ ran => ⟨Softmax.eval_proper (proper_head inputs) ran,nofun⟩
  · exact alone evaluated fun _ ran => ⟨BatchNorm.eval_proper (proper_head inputs) ran,nofun⟩
  · exact alone evaluated fun _ ran => ⟨Convolution.eval_proper (proper_head inputs) (by simp) ran,nofun⟩
  · refine alone evaluated fun _ ran => ⟨Convolution.eval_proper (proper_head inputs) ?_ ran,nofun⟩
    intro b equal
    cases equal
    exact inputs _ (by simp)
  · exact alone evaluated fun _ ran => ⟨Pooling.eval_proper (proper_head inputs) ran,nofun⟩
  · cases evaluated

def octets : Tensor := ⟨.u8,[2,1],[.int 200,.int 7]⟩

def addends : Tensor := ⟨.u8,[2],[.int 100,.int 1]⟩

def octetSums : Tensor := ⟨.u8,[2,2],[.int 44,.int 201,.int 107,.int 8]⟩

-- A sum of 300 leaves the range of eight bits.
theorem outputs_proper_octets : (∀ t ∈ [octets,addends], t.Proper) ∧
    (binary .add).eval [octets,addends] = .ok [octetSums] ∧
      (binary .add).exact [octets,addends] = some [300,201,107,8] ∧
        octetSums.Proper ∧ octetSums.Wraps [300,201,107,8] := by
  have inputs : ∀ t ∈ [octets,addends], t.Proper := by
    refine List.forall_mem_cons.mpr ⟨Tensor.proper_iff.mpr ⟨rfl,?_⟩,
      List.forall_mem_singleton.mpr (Tensor.proper_iff.mpr ⟨rfl,?_⟩)⟩
    · simp [octets,DType.layout,Layout.Holds,DType.Within,DType.lowest,DType.highest]
    · simp [addends,DType.layout,Layout.Holds,DType.Within,DType.lowest,DType.highest]
  have evaluated : (binary .add).eval [octets,addends] = .ok [octetSums] := rfl
  have meant : (binary .add).exact [octets,addends] = some [300,201,107,8] := rfl
  obtain ⟨proper,wraps⟩ := outputs_proper (o := binary .add) (by simp) inputs (by simp) evaluated octetSums
    (List.mem_singleton_self _)
  exact ⟨inputs,evaluated,meant,proper,wraps _ meant⟩

end Op

end TensorGraph
