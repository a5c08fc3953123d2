import TensorGraph.Proofs.Fact.Sound
import TensorGraph.Proofs.Op.Settled

namespace TensorGraph
open Outcome Facts

variable {ins outs : Facts} {r : Facts × Facts} {x out : Fact} {t u : Tensor}

namespace Op

theorem inferSource_sound {known : Fact} (input : Accept ins []) (output : Accept outs [u])
    (holds : known.accepts u = true) (found : inferSource known ins outs = .ok r) : Hold r [] [u] := by
  obtain ⟨c,unified,equal⟩ := bind_ok.mp found
  cases equal
  exact ⟨input,accept_one (Fact.unify_accepts unified output.first holds)⟩

theorem agree_sound (input : x.accepts t = true) (output : out.accepts t = true)
    (found : agree x out = .ok r) : Hold r [t] [t] := by
  unfold agree at found
  split at found
  · obtain ⟨o,unified,equal⟩ := bind_ok.mp found
    cases equal
    exact hold_one input (Fact.unify_accepts unified output input)
  · obtain ⟨y,unified,equal⟩ := bind_ok.mp found
    cases equal
    exact hold_one (Fact.unify_accepts unified input output) output
  · cases found
    exact hold_one input output

-- Input and output of one type and shape.
theorem alike_accept {fs gs : Facts} {s : Facts} (accept : Accept fs [t,u]) (dtype : u.dtype = t.dtype)
    (shape : u.shape = t.shape) (typed : fs.shareDType = .ok gs) (shaped : gs.shareShape = .ok s) :
    Accept s [t,u] :=
  shareShape_accept (shareDType_accept accept (d := t.dtype) (by simp [dtype]) typed) (s := t.shape)
    (by simp [shape]) shaped

theorem inferIdentity_sound (input : Accept ins [t]) (output : Accept outs [t])
    (found : inferIdentity ins outs = .ok r) : Hold r [t] [t] := by
  obtain ⟨fs,typed,found⟩ := bind_ok.mp found
  obtain ⟨both,shaped,found⟩ := bind_ok.mp found
  obtain ⟨⟨x,out⟩,paired,found⟩ := bind_ok.mp found
  have accept : Accept [Facts.first ins,Facts.first outs] [t,t] :=
    .cons input.first (accept_one output.first)
  obtain ⟨input,output⟩ := pair_accept (alike_accept accept rfl rfl typed shaped) paired
  exact agree_sound input output found

end Op

namespace UnaryKind

theorem eval_ok {k : UnaryKind} (evaluated : k.eval t = .ok u) :
    k.supports t.dtype = true ∧ u = t.map t.dtype (k.onScalar t.dtype) := by
  unfold eval at evaluated
  split at evaluated
  · rename_i supported
    cases evaluated
    exact ⟨supported,rfl⟩
  · cases evaluated

theorem eval_parts {k : UnaryKind} (evaluated : k.eval t = .ok u) :
    u.dtype = t.dtype ∧ u.shape = t.shape := by
  obtain ⟨-,rfl⟩ := eval_ok evaluated
  exact ⟨rfl,rfl⟩

theorem infer_sound {k : UnaryKind} (evaluated : k.eval t = .ok u) (input : Accept ins [t])
    (output : Accept outs [u]) (found : k.infer ins outs = .ok r) : Hold r [t] [u] := by
  obtain ⟨dtype,shape⟩ := eval_parts evaluated
  obtain ⟨fs,typed,found⟩ := bind_ok.mp found
  obtain ⟨both,shaped,found⟩ := bind_ok.mp found
  have accept := Op.alike_accept (accept_around input output) dtype shape typed shaped
  have answer : Hold ([Facts.first both],[both.getD 1 .unknown]) [t] [u] :=
    hold_one accept.first (accept.getD 1 u)
  split at found
  · split at found
    · cases found; exact answer
    · cases found
  · cases found; exact answer

end UnaryKind

namespace Cast

theorem eval_parts {target : DType} (evaluated : eval target t = .ok u) :
    u.dtype = target ∧ u.shape = t.shape := by
  unfold eval at evaluated
  split at evaluated
  · rename_i cast
    cases evaluated
    obtain ⟨_,-,equal⟩ := bind_ok.mp cast
    cases equal
    exact ⟨rfl,rfl⟩
  · split at evaluated <;> cases evaluated

theorem infer_sound {target : DType} (evaluated : eval target t = .ok u) (input : Accept ins [t])
    (output : Accept outs [u]) (found : infer target ins outs = .ok r) : Hold r [t] [u] := by
  obtain ⟨dtype,shape⟩ := eval_parts evaluated
  obtain ⟨fs,shared,found⟩ := bind_ok.mp found
  obtain ⟨⟨x,out⟩,paired,found⟩ := bind_ok.mp found
  obtain ⟨_,typed,equal⟩ := bind_ok.mp found
  cases equal
  have accept := shareShape_accept (accept_around input output) (s := t.shape) (by simp [shape]) shared
  obtain ⟨input,output⟩ := pair_accept accept paired
  exact hold_one input (Fact.withDType_accepts output typed dtype)

end Cast

namespace ShapeOf

theorem eval_typed (t : Tensor) : (eval t).Typed := by
  intro x member d equal
  obtain ⟨n,-,rfl⟩ := List.mem_map.mp member
  cases equal

theorem conclude_sound (input : x.accepts t = true) (output : out.accepts (eval t) = true)
    (found : conclude x out = .ok r) : Hold r [t] [eval t] := by
  unfold conclude at found
  split at found
  · cases found
    exact hold_one input output
  · rename_i s known
    split at found
    · cases found
    · obtain ⟨o,unified,equal⟩ := bind_ok.mp found
      cases equal
      cases Fact.accepts_extents input known
      exact hold_one input (Fact.unify_accepts unified output
        (Fact.accepts_constant.mpr (Tensor.same_self (eval_typed t))))

theorem infer_sound (input : Accept ins [t]) (output : Accept outs [eval t])
    (found : infer ins outs = .ok r) : Hold r [t] [eval t] := by
  obtain ⟨typed,dtype,found⟩ := bind_ok.mp found
  have holds := Fact.withDType_accepts output.first dtype rfl
  unfold Fact.rank at found
  cases known : (Facts.first ins).shape with
  | none =>
    rw [known] at found
    exact conclude_sound input.first holds found
  | some s =>
    rw [known] at found
    obtain ⟨shaped,dims,found⟩ := bind_ok.mp found
    have rank : s.length = t.shape.length := (Fact.accepts_fits input.first known).length_eq
    have row : ShapeFact.Fits [.known s.length] (eval t).shape := .cons (Dim.accepts_known.mpr rank) .nil
    exact conclude_sound input.first (Fact.withDims_accepts holds dims row) found

end ShapeOf

namespace Softmax

theorem eval_parts {axis : Int} (evaluated : eval axis t = .ok u) :
    u.dtype = t.dtype ∧ u.shape = t.shape := by
  obtain ⟨_,-,evaluated⟩ := bind_ok.mp evaluated
  obtain ⟨a,-,evaluated⟩ := bind_ok.mp evaluated
  split at evaluated
  · cases evaluated
  · cases evaluated
    exact ⟨rfl,rfl⟩

theorem infer_sound {axis : Int} (evaluated : eval axis t = .ok u) (input : Accept ins [t])
    (output : Accept outs [u]) (found : infer ins outs = .ok r) : Hold r [t] [u] := by
  obtain ⟨dtype,shape⟩ := eval_parts evaluated
  obtain ⟨fs,typed,found⟩ := bind_ok.mp found
  obtain ⟨both,shaped,found⟩ := bind_ok.mp found
  obtain ⟨⟨x,out⟩,paired,found⟩ := bind_ok.mp found
  obtain ⟨_,-,equal⟩ := bind_ok.mp found
  cases equal
  obtain ⟨input,output⟩ := pair_accept
    (Op.alike_accept (accept_around input output) dtype shape typed shaped) paired
  exact hold_one input output

end Softmax

namespace BinaryKind

variable {k : BinaryKind} {a b : Tensor}

theorem eval_ok (evaluated : k.eval a b = .ok u) : b.dtype = a.dtype ∧ k.supports a.dtype = true ∧
    ∃ shape, Shape.broadcast? a.shape b.shape = some shape ∧
      u = .combine (k.resultDType a.dtype) (k.onScalars a.dtype) a b shape := by
  unfold eval at evaluated
  dsimp only at evaluated
  split at evaluated
  · rename_i same
    split at evaluated
    · rename_i supported
      split at evaluated
      · cases evaluated
      · rename_i shape met
        obtain ⟨_,-,equal⟩ := bind_ok.mp evaluated
        cases equal
        exact ⟨same.symm,supported,shape,met,rfl⟩
    · cases evaluated
  · cases evaluated

theorem eval_parts (evaluated : k.eval a b = .ok u) : b.dtype = a.dtype ∧
    u.dtype = k.resultDType a.dtype ∧ Shape.broadcast? a.shape b.shape = some u.shape := by
  obtain ⟨same,-,shape,met,rfl⟩ := eval_ok evaluated
  exact ⟨same,rfl,met⟩

theorem passType_sound {f g : Fact} {p : Facts × Fact} (left : f.accepts a = true)
    (right : g.accepts b = true) (output : out.accepts u = true) (same : b.dtype = a.dtype)
    (result : u.dtype = a.dtype) (found : passType [f,g] out = .ok p) :
    Accept p.1 [a,b] ∧ p.2.accepts u = true := by
  have pair : Accept [f,g] [a,b] := .cons left (accept_one right)
  unfold passType at found
  split at found
  · rename_i known
    obtain ⟨o,typed,equal⟩ := bind_ok.mp found
    cases equal
    exact ⟨pair,Fact.withDType_accepts output typed (result.trans (Fact.accepts_dtype left known))⟩
  · rename_i known
    obtain ⟨h,typed,found⟩ := bind_ok.mp found
    obtain ⟨fs,shared,equal⟩ := bind_ok.mp found
    cases equal
    have head := Fact.withDType_accepts left typed (result.symm.trans (Fact.accepts_dtype output known))
    exact ⟨shareDType_accept (.cons head (accept_one right)) (d := a.dtype) (by simp [same]) shared,output⟩
  · cases found
    exact ⟨pair,output⟩

theorem shareTypes_sound {p : Facts × Fact} (same : b.dtype = a.dtype)
    (result : u.dtype = k.resultDType a.dtype) (input : Accept ins [a,b]) (output : Accept outs [u])
    (found : k.shareTypes ins outs = .ok p) : Accept p.1 [a,b] ∧ p.2.accepts u = true := by
  obtain ⟨fs,shared,found⟩ := bind_ok.mp found
  obtain ⟨_,-,found⟩ := bind_ok.mp found
  have accept := shareDType_accept (input.pad (Nat.le_refl 2)) (d := a.dtype) (by simp [same]) shared
  unfold resultDType at result
  split at found
  · rename_i compares
    rw [if_pos compares] at result
    obtain ⟨o,typed,equal⟩ := bind_ok.mp found
    cases equal
    exact ⟨accept,Fact.withDType_accepts output.first typed result⟩
  · rename_i computes
    rw [if_neg computes] at result
    match accept with
    | .cons left (.cons right .nil) => exact passType_sound left right output.first same result found

theorem infer_sound (evaluated : k.eval a b = .ok u) (input : Accept ins [a,b])
    (output : Accept outs [u]) (found : k.infer ins outs = .ok r) : Hold r [a,b] [u] := by
  obtain ⟨same,result,met⟩ := eval_parts evaluated
  rw [infer_eq] at found
  obtain ⟨p,typed,found⟩ := bind_ok.mp found
  obtain ⟨q,stretched,equal⟩ := bind_ok.mp found
  cases equal
  obtain ⟨input,output⟩ := shareTypes_sound same result input output typed
  obtain ⟨input,output⟩ := broadcast_accept input (Shape.stretched_two met) output stretched
  exact ⟨input,accept_one output⟩

end BinaryKind

namespace AddN

theorem sum_parts {a b : Tensor} {shape : Shape} (met : Shape.broadcast? a.shape b.shape = some shape) :
    (sum a b).dtype = a.dtype ∧ (sum a b).shape = shape := by
  unfold sum Tensor.zipWith?
  rw [met]
  exact ⟨rfl,rfl⟩

-- The sum has the shape that all tensors stretch to.
theorem fold_parts {rest : List Tensor} {first : Tensor} {shape : Shape}
    (met : (rest.map Tensor.shape).foldlM Shape.broadcast? first.shape = some shape) :
    (rest.foldl sum first).dtype = first.dtype ∧ (rest.foldl sum first).shape = shape := by
  induction rest generalizing first with
  | nil =>
    cases met
    exact ⟨rfl,rfl⟩
  | cons t rest ih =>
    rw [List.map_cons,List.foldlM_cons,Option.bind_eq_bind,Option.bind_eq_some_iff] at met
    obtain ⟨next,here,later⟩ := met
    obtain ⟨dtype,equal⟩ := sum_parts here
    rw [← equal] at later
    rw [List.foldl_cons,← dtype]
    exact ih later

theorem eval_ok {rest : List Tensor} (evaluated : eval t rest = .ok u) : (∀ s ∈ t :: rest, s.dtype = t.dtype) ∧
    ∃ shape, Shape.broadcastAll? ((t :: rest).map Tensor.shape) = some shape ∧
      (rest.map Tensor.shape).foldlM Shape.broadcast? t.shape = some shape ∧ u = rest.foldl sum t := by
  unfold eval at evaluated
  dsimp only at evaluated
  split at evaluated
  · rename_i typed
    split at evaluated
    · split at evaluated
      · cases evaluated
      · rename_i shape met
        cases evaluated
        have later := met
        rw [Shape.broadcastAll?,List.map_cons,List.foldlM_cons,Option.bind_eq_bind,
          Option.bind_eq_some_iff] at later
        obtain ⟨first,none,later⟩ := later
        rw [Shape.broadcast?_nil none] at later
        exact ⟨by simpa using typed,shape,met,later,rfl⟩
    · cases evaluated
  · cases evaluated

theorem eval_parts {rest : List Tensor} (evaluated : eval t rest = .ok u) :
    (∀ s ∈ t :: rest, s.dtype = t.dtype) ∧ u.dtype = t.dtype ∧
      Shape.broadcastAll? ((t :: rest).map Tensor.shape) = some u.shape := by
  obtain ⟨same,shape,met,later,rfl⟩ := eval_ok evaluated
  obtain ⟨dtype,equal⟩ := fold_parts later
  exact ⟨same,dtype,equal ▸ met⟩

theorem infer_sound {rest : List Tensor} (evaluated : eval t rest = .ok u)
    (input : Accept ins (t :: rest)) (output : Accept outs [u]) (found : infer ins outs = .ok r) :
    Hold r (t :: rest) [u] := by
  obtain ⟨same,dtype,met⟩ := eval_parts evaluated
  obtain ⟨fs,shared,found⟩ := bind_ok.mp found
  obtain ⟨q,stretched,equal⟩ := bind_ok.mp found
  cases equal
  have all : ∀ s ∈ t :: rest ++ [u], s.dtype = t.dtype := by
    rw [List.forall_mem_append]
    exact ⟨same,by simpa using dtype⟩
  have accept := shareDType_accept (input.append (output.pad (Nat.le_refl 1))) all shared
  obtain ⟨input,output⟩ := broadcast_accept accept.split.1 (Shape.stretched_all met) accept.split.2 stretched
  exact ⟨input,accept_one output⟩

end AddN

namespace MatMul

theorem requireSameDType_ok {name : String} {rest : List Tensor} {d : Unit}
    (passed : requireSameDType name (t :: rest) = .ok d) : ∀ s ∈ t :: rest, s.dtype = t.dtype := by
  unfold requireSameDType at passed
  dsimp only at passed
  split at passed
  · rename_i same
    intro s member
    have equal := List.all_eq_true.mp same s.dtype (List.mem_map_of_mem member)
    exact (Option.some.inj (eq_of_beq equal)).symm
  · cases passed

end MatMul

namespace BatchNorm

theorem eval_parts {epsilon : Binary} {scale bias mean variance : Tensor}
    (evaluated : eval epsilon t scale bias mean variance = .ok u) :
    (∀ s ∈ [t,scale,bias,mean,variance], s.dtype = t.dtype) ∧ u.dtype = t.dtype ∧ u.shape = t.shape ∧
      2 ≤ t.shape.length ∧ ∀ s ∈ [scale,bias,mean,variance], s.shape = [t.shape.getD 1 0] := by
  obtain ⟨_,-,evaluated⟩ := bind_ok.mp evaluated
  obtain ⟨_,typed,evaluated⟩ := bind_ok.mp evaluated
  dsimp only at evaluated
  split at evaluated
  · cases evaluated
  · rename_i rank
    split at evaluated
    · rename_i rows
      cases evaluated
      refine ⟨MatMul.requireSameDType_ok typed,rfl,rfl,Nat.le_of_not_lt rank,fun s member => ?_⟩
      exact eq_of_beq (List.all_eq_true.mp rows s member)
    · cases evaluated

-- The rule once the types are shared and the parameters are rows.
def conclude (x out : Fact) (parameters : Facts) : Outcome (Facts × Facts) :=
  match x.shape with
  | none => .ok (x :: parameters,[out])
  | some s =>
    match s with
    | batch :: c :: rest => do
      let parameters ← parameters.mapM (·.withDims [c])
      let channel := (((Facts.first parameters).shape.getD []).headD .unknown)
      let x ← x.withDims (batch :: channel :: rest)
      return (x :: parameters,[← out.withShape x.shape])
    | _ => fail .batchNormRank

theorem conclude_sound {rest : List Tensor} {parameters : Facts} {s : Tensor} (shape : u.shape = t.shape)
    (rows : ∀ v ∈ s :: rest, v.shape = [t.shape.getD 1 0]) (input : x.accepts t = true)
    (output : out.accepts u = true) (accept : Accept parameters (s :: rest))
    (found : conclude x out parameters = .ok r) : Hold r (t :: s :: rest) [u] := by
  unfold conclude at found
  split at found
  · cases found
    exact ⟨.cons input accept,accept_one output⟩
  · rename_i known
    have fits := Fact.accepts_fits input known
    split at found
    · obtain ⟨better,each,found⟩ := bind_ok.mp found
      obtain ⟨y,widened,found⟩ := bind_ok.mp found
      obtain ⟨o,joined,equal⟩ := bind_ok.mp found
      cases equal
      obtain ⟨n,tail,batch,fits,dims⟩ := List.forall₂_cons_left_iff.mp fits
      obtain ⟨m,tail,channel,others,rfl⟩ := List.forall₂_cons_left_iff.mp fits
      have row : ∀ v ∈ s :: rest, v.shape = [m] := fun v member => (rows v member).trans (by rw [dims]; rfl)
      have accept := mapM_accept accept each fun f g v member holds found =>
        Fact.withDims_accepts holds found (row v member ▸ .cons channel .nil)
      have narrow := Fact.accepts_headD accept.first m
      rw [row s List.mem_cons_self] at narrow
      have input := Fact.withDims_accepts input widened (dims ▸ .cons batch (.cons narrow others))
      have output := Fact.withShape_accepts output joined fun r known =>
        shape ▸ Fact.accepts_fits input known
      exact ⟨.cons input accept,accept_one output⟩
    · cases found

theorem infer_sound {epsilon : Binary} {scale bias mean variance : Tensor}
    (evaluated : eval epsilon t scale bias mean variance = .ok u)
    (input : Accept ins [t,scale,bias,mean,variance]) (output : Accept outs [u])
    (found : infer ins outs = .ok r) : Hold r [t,scale,bias,mean,variance] [u] := by
  obtain ⟨same,dtype,shape,rank,rows⟩ := eval_parts evaluated
  obtain ⟨facts,typed,found⟩ := bind_ok.mp found
  obtain ⟨_,-,found⟩ := bind_ok.mp found
  obtain ⟨both,shared,found⟩ := bind_ok.mp found
  obtain ⟨wide,each,found⟩ := bind_ok.mp found
  obtain ⟨parameters,alike,concluded⟩ := bind_ok.mp found
  change conclude (Facts.first both) (both.getD 1 .unknown) parameters = .ok r at concluded
  have all : ∀ s ∈ [t,scale,bias,mean,variance] ++ [u], s.dtype = t.dtype := by
    rw [List.forall_mem_append]
    exact ⟨same,by simpa using dtype⟩
  have accept := shareDType_accept ((input.pad (Nat.le_refl 5)).append (output.pad (Nat.le_refl 1))) all typed
  have outer : Accept [Facts.first facts,facts.getD 5 .unknown] [t,u] :=
    .cons accept.first (accept_one (accept.getD 5 u))
  have ends := shareShape_accept outer (s := t.shape) (by simp [shape]) shared
  have middle : Accept ((List.drop 1 facts).take 4) [scale,bias,mean,variance] :=
    List.forall₂_take 4 (List.forall₂_drop 1 accept)
  have row : ∀ s ∈ [scale,bias,mean,variance], s.shape.length = 1 := fun s member => by
    rw [rows s member]
    rfl
  have wide := mapM_accept middle each fun f g s member holds found =>
    Fact.withDims_accepts holds found (ShapeFact.fits_unknown (row s member))
  exact conclude_sound shape rows ends.first (ends.getD 1 u) (shareShape_accept wide rows alike) concluded

end BatchNorm

end TensorGraph
