import TensorGraph.Proofs.Fact.Told
import TensorGraph.Proofs.Op.Exact.Elementwise
import TensorGraph.Proofs.Op.Folding

namespace TensorGraph
open Outcome Facts

variable {ins : Facts} {out : Fact} {r : Facts × Facts} {t u : Tensor}

theorem matched_ok {α : Type} (a : α) : Matched (.ok a) := raises_ok a

theorem matched_fail {α : Type} {c : Cause} (other : c.kind.isMismatch = false) : Matched (fail c : Outcome α) :=
  (raises_fail c).mpr other

theorem matched_bind {α β : Type} {x : Outcome α} {f : α → Outcome β} {a : α} (ran : x = .ok a)
    (rest : Matched (f a)) : Matched (x >>= f) := by
  rw [ran]
  exact rest

namespace Op

theorem inferIdentity_tells (tell : Tell ins [t]) (found : inferIdentity ins [out] = .ok r) : Tell r.2 [t] := by
  obtain ⟨x,rfl,-⟩ := tell.one
  obtain ⟨typed,shared,found⟩ := bind_ok.mp found
  obtain ⟨both,shaped,found⟩ := bind_ok.mp found
  obtain ⟨y,o,rfl,-,output⟩ := alike_tell tell shared shaped
  obtain ⟨_,equal,found⟩ := bind_ok.mp found
  cases equal
  dsimp only at found
  split at found
  · obtain ⟨p,learned,equal⟩ := bind_ok.mp found
    cases equal
    exact .cons (output.learns learned) .nil
  · obtain ⟨p,-,equal⟩ := bind_ok.mp found
    cases equal
    exact .cons output .nil
  · cases found
    exact .cons output .nil

end Op

theorem UnaryKind.infer_meets {k : UnaryKind} (tell : Tell ins [t]) (found : k.infer ins [out] = .ok r) :
    Meets (k.eval t) r.2 := by
  obtain ⟨typed,shared,found⟩ := bind_ok.mp found
  obtain ⟨both,shaped,found⟩ := bind_ok.mp found
  obtain ⟨x,o,rfl,input,output⟩ := alike_tell tell shared shaped
  dsimp only [Facts.first,List.headD_cons] at found
  rw [input.dtype] at found
  dsimp only at found
  split at found
  · rename_i supported
    cases found
    refine meets_one ?_ fun u ran => ?_
    · unfold eval
      rw [if_pos supported]
      exact matched_ok _
    · obtain ⟨dtype,shape⟩ := eval_parts ran
      exact output.like dtype shape
  · cases found

theorem matched_unread {α : Type} {x : Outcome α} (unread : Unread x) : Matched x :=
  unread.mono fun k => by cases k <;> decide

namespace Cast

theorem eval_matched (target : DType) (t : Tensor) : Matched (eval target t) := by
  unfold eval
  split
  · exact matched_ok _
  · rename_i f failed
    split
    · exact matched_fail rfl
    · exact (raises_error f).mpr (matched_unread ((t.cast_raises target).mono fun _ unread => unread.1) f failed)

theorem infer_meets {target : DType} (tell : Tell ins [t]) (found : infer target ins [out] = .ok r) :
    Meets (eval target t) r.2 := by
  obtain ⟨y,rfl,tells⟩ := tell.one
  obtain ⟨fs,shaped,found⟩ := bind_ok.mp found
  obtain ⟨_,o,rfl,later,-⟩ := tell.concat (p := out) (shareShape_below shaped)
  obtain ⟨x,rfl,-⟩ := later.one
  have shape := shareShape_shape shaped ⟨y,by simp [Facts.pad],tells.shape⟩ o (by simp)
  obtain ⟨_,equal,found⟩ := bind_ok.mp found
  cases equal
  obtain ⟨p,typed,equal⟩ := bind_ok.mp found
  cases equal
  refine meets_one (eval_matched target t) fun u ran => ?_
  obtain ⟨dtype,same⟩ := eval_parts ran
  exact ⟨dtype ▸ Fact.withDType_exact typed,same ▸ Fact.kept_shape (Fact.withDType_below typed) shape⟩

end Cast

namespace ShapeOf

-- Every extent is known, so the rule finds the row of them.
theorem infer_tells (tell : Tell ins [t]) (found : infer ins [out] = .ok r) : Tell r.2 [eval t] := by
  obtain ⟨x,rfl,tells⟩ := tell.one
  have known := tells.extents
  have concluded : ∃ o, conclude x o = .ok r := by
    obtain ⟨o,-,found⟩ := bind_ok.mp found
    dsimp only at found
    split at found
    · obtain ⟨p,-,found⟩ := bind_ok.mp found
      exact ⟨p,found⟩
    · exact ⟨o,found⟩
  obtain ⟨o,concluded⟩ := concluded
  unfold conclude at concluded
  rw [known] at concluded
  dsimp only at concluded
  split at concluded
  · cases concluded
  · obtain ⟨p,row,equal⟩ := bind_ok.mp concluded
    cases equal
    exact .cons ((Fact.tells_constant _).above (Fact.unify_right (row_typed t.shape) row)) .nil

end ShapeOf

theorem Softmax.infer_meets {axis : Int} {a : Nat} (inside : normalizeAxis axis t.shape.length = .ok a)
    (tell : Tell ins [t]) (found : infer ins [out] = .ok r) : Meets (eval axis t) r.2 := by
  obtain ⟨typed,shared,found⟩ := bind_ok.mp found
  obtain ⟨both,shaped,found⟩ := bind_ok.mp found
  obtain ⟨x,o,rfl,input,output⟩ := alike_tell tell shared shaped
  obtain ⟨_,equal,found⟩ := bind_ok.mp found
  cases equal
  obtain ⟨⟨⟩,float,equal⟩ := bind_ok.mp found
  cases equal
  unfold requireFloatFact at float
  rw [input.dtype] at float
  refine meets_one ?_ fun u ran => ?_
  · refine matched_bind float (matched_bind inside ?_)
    dsimp only
    split
    · exact matched_fail rfl
    · exact matched_ok _
  · obtain ⟨dtype,shape⟩ := eval_parts ran
    exact output.like dtype shape

namespace BinaryKind

variable {k : BinaryKind} {a b : Tensor}

theorem checkOperand_matched (k : BinaryKind) (t : DType) (b : Tensor) : Matched (k.checkOperand t b) := by
  unfold checkOperand
  repeat' split
  all_goals first
    | exact matched_ok _
    | exact matched_fail rfl

theorem shareTypes_tell {p : Facts × Fact} (tell : Tell ins [a,b]) (found : k.shareTypes ins [out] = .ok p) :
    Tell p.1 [a,b] ∧ b.dtype = a.dtype ∧ k.supports a.dtype = true ∧
      p.2.dtype = some (k.resultDType a.dtype) := by
  obtain ⟨gs,shared,found⟩ := bind_ok.mp found
  obtain ⟨x,y,rfl,-,-⟩ := tell.two
  obtain ⟨later,all,same⟩ := shareDType_same tell shared
  obtain ⟨x,y,rfl,first,-⟩ := later.two
  obtain ⟨⟨⟩,required,found⟩ := bind_ok.mp found
  unfold Fact.require at required
  dsimp only [Facts.first,List.headD_cons] at required found
  rw [first.dtype] at required
  dsimp only at required
  split at required
  · rename_i supported
    have typed : ∃ o, out.withDType (some (k.resultDType a.dtype)) = .ok o ∧ p = ([x,y],o) := by
      unfold resultDType
      split at found
      · rename_i compares
        rw [if_pos compares]
        obtain ⟨o,typed,equal⟩ := bind_ok.mp found
        exact ⟨o,typed,(Except.ok.inj equal).symm⟩
      · rename_i other
        rw [if_neg other]
        unfold passType at found
        dsimp only [Facts.first,List.headD_cons] at found
        rw [first.dtype] at found
        obtain ⟨o,typed,equal⟩ := bind_ok.mp found
        exact ⟨o,typed,(Except.ok.inj equal).symm⟩
    obtain ⟨o,typed,rfl⟩ := typed
    exact ⟨later,same b (by simp),supported,Fact.withDType_exact typed⟩
  · cases required

theorem infer_meets (tell : Tell ins [a,b]) (found : k.infer ins [out] = .ok r) : Meets (k.eval a b) r.2 := by
  rw [infer_eq] at found
  obtain ⟨⟨fs,o⟩,shared,found⟩ := bind_ok.mp found
  obtain ⟨later,same,supported,dtype⟩ := shareTypes_tell tell shared
  obtain ⟨q,stretched,equal⟩ := bind_ok.mp found
  cases equal
  obtain ⟨s,all,shape,low⟩ := broadcast_tell later stretched
  have met := Shape.broadcast?_of_all all
  refine meets_one ?_ fun u ran => ?_
  · unfold eval
    dsimp only
    rw [if_pos same.symm,if_pos supported,met]
    exact (checkOperand_matched _ _ _).bind fun _ _ => matched_ok _
  · obtain ⟨-,result,shaped⟩ := eval_parts ran
    rw [met] at shaped
    cases shaped
    exact ⟨result ▸ low.dtype _ dtype,shape⟩

end BinaryKind

namespace AddN

theorem infer_meets {rest : List Tensor} (numeric : t.dtype.isNumeric = true) (tell : Tell ins (t :: rest))
    (found : infer ins [out] = .ok r) : Meets (eval t rest) r.2 := by
  obtain ⟨gs,shared,found⟩ := bind_ok.mp found
  obtain ⟨fs,o,rfl,later,-,dtype,same⟩ := shareDType_tell (p := out) tell shared
  rw [List.dropLast_concat,List.getLastD_concat] at found
  obtain ⟨q,stretched,equal⟩ := bind_ok.mp found
  cases equal
  obtain ⟨s,met,shape,low⟩ := broadcast_tell later stretched
  refine meets_one ?_ fun u ran => ?_
  · have alike : (t :: rest).all (·.dtype == t.dtype) = true := by
      simpa using fun s member => same s (List.mem_cons_of_mem _ member)
    unfold eval
    dsimp only
    rw [if_pos alike,if_pos numeric,met]
    exact matched_ok _
  · obtain ⟨-,result,shaped⟩ := eval_parts ran
    rw [met] at shaped
    cases shaped
    exact ⟨result ▸ low.dtype _ dtype,shape⟩

end AddN

theorem requireSameDType_passes {name : String} {rest : List Tensor} (same : ∀ s ∈ t :: rest, s.dtype = t.dtype) :
    MatMul.requireSameDType name (t :: rest) = .ok () := by
  unfold MatMul.requireSameDType
  dsimp only
  refine if_pos (List.all_eq_true.mpr fun d member => ?_)
  obtain ⟨s,entry,rfl⟩ := List.mem_map.mp member
  rw [same s entry,List.map_cons,List.head?_cons]
  exact beq_self_eq_true _

namespace BatchNorm

variable {scale bias mean variance : Tensor} {epsilon : Binary}

theorem conclude_meets {x o : Fact} {parameters : Facts} (input : x.Tells t)
    (tell : Tell parameters [scale,bias,mean,variance]) (float : t.dtype.isFloat = true)
    (same : ∀ s ∈ [t,scale,bias,mean,variance], s.dtype = t.dtype) (typed : o.dtype = some t.dtype)
    (found : conclude x o parameters = .ok r) : Meets (eval epsilon t scale bias mean variance) r.2 := by
  unfold conclude at found
  rw [input.shape] at found
  dsimp only at found
  split at found
  · rename_i n c rest dims
    obtain ⟨ps,each,found⟩ := bind_ok.mp found
    obtain ⟨y,widened,found⟩ := bind_ok.mp found
    obtain ⟨p,shaped,equal⟩ := bind_ok.mp found
    cases equal
    obtain ⟨m,k,others,shape⟩ : ∃ m k others, t.shape = m :: k :: others := by
      match shape : t.shape with
      | [] | [_] => simp [shape,ShapeFact.ofShape] at dims
      | m :: k :: others => exact ⟨m,k,others,rfl⟩
    have channel : c = .known k := by
      rw [shape] at dims
      cases dims
      rfl
    have rows : ∀ v ∈ [scale,bias,mean,variance], v.shape = [t.shape.getD 1 0] := by
      intro v member
      obtain ⟨f,entry,tells⟩ := forall₂_right tell v member
      obtain ⟨g,-,learned⟩ := forall₂_left (mapM_ok.mp each) f entry
      rw [shape]
      rw [channel] at learned
      exact tells.same_dims learned
    rw [(input.withDims widened).shape] at shaped
    refine meets_one ?_ fun u ran => ?_
    · refine matched_bind (if_pos float) (matched_bind (requireSameDType_passes same) ?_)
      have rank : ¬ t.rank < 2 := by
        unfold Tensor.rank
        rw [shape]
        simp
      dsimp only
      rw [if_neg rank,if_pos (by simpa using rows)]
      exact matched_ok _
    · obtain ⟨-,dtype,same,-,-⟩ := eval_parts ran
      exact Fact.withDims_tells shaped (dtype ▸ typed) same
  · cases found

theorem infer_meets (tell : Tell ins [t,scale,bias,mean,variance]) (found : infer ins [out] = .ok r) :
    Meets (eval epsilon t scale bias mean variance) r.2 := by
  obtain ⟨gs,shared,found⟩ := bind_ok.mp found
  have exact_ : ins.pad 5 = ins := by
    unfold Facts.pad
    rw [tell.length_eq]
    exact List.append_nil ins
  rw [exact_] at shared
  obtain ⟨fs,o,rfl,later,-,dtype,same⟩ := shareDType_tell (p := out) tell shared
  obtain ⟨x,ps,rfl,input,parameters⟩ := later.uncons
  obtain ⟨a,b,c,d,rfl⟩ := parameters.four
  obtain ⟨⟨⟩,float,found⟩ := bind_ok.mp found
  obtain ⟨both,shaped,found⟩ := bind_ok.mp found
  obtain ⟨wide,each,found⟩ := bind_ok.mp found
  obtain ⟨ps,alike,concluded⟩ := bind_ok.mp found
  obtain ⟨y,p,rfl,first,output⟩ := shareShape_tell (.cons input .nil) dtype shaped
  have widened : Facts.Below [a,b,c,d] wide := (mapM_ok.mp each).imp fun _ _ => Fact.withDims_below
  unfold requireFloatFact at float
  rw [show Facts.first (x :: [a,b,c,d] ++ [o]) = x from rfl,input.dtype] at float
  exact conclude_meets first ((parameters.above widened).above (shareShape_below alike)) (requireFloat_ok float)
    same output.dtype concluded

end BatchNorm

end TensorGraph
