import TensorGraph.Proofs.Op.Settled
import TensorGraph.Proofs.Op.Sound

namespace TensorGraph
open Outcome

theorem Fact.unifyAll_open {fs : List Fact} {g : Fact} (open_ : ∀ f ∈ fs, f.value = none)
    (found : unifyAll fs = .ok g) : g.value = none :=
  foldlM_keeps (P := fun f : Fact => f.value = none)
    (fun _ f _ member kept unified => (unify_value (open_ f member) unified).trans kept) rfl found

namespace Facts

variable {fs gs ins : Facts} {out x a b : Fact} {r : Facts × Facts}

def values (fs : Facts) : List (Option Tensor) := fs.map Fact.value

theorem mapM_values {α : Type} (pick : α → Fact) {step : α → Outcome Fact} {xs : List α}
    (each : ∀ x g, step x = .ok g → g.value = (pick x).value) (found : xs.mapM step = .ok gs) :
    values gs = values (xs.map pick) := by
  have related := mapM_ok.mp found
  clear found
  induction related with
  | nil => rfl
  | cons head _ ih => exact congrArg₂ List.cons (each _ _ head) ih

theorem shareDType_values (found : fs.shareDType = .ok gs) : gs.values = fs.values := by
  unfold shareDType at found
  split at found
  · cases found
    rfl
  · obtain ⟨shared,unified,found⟩ := bind_ok.mp found
    rw [mapM_values id (fun f g step => Fact.unify_value (Fact.unifyAll_open ?_ unified) step) found,List.map_id]
    intro f member
    obtain ⟨_,-,rfl⟩ := List.mem_map.mp member
    rfl

theorem shareShape_values (found : fs.shareShape = .ok gs) : gs.values = fs.values := by
  unfold shareShape at found
  split at found
  · cases found
    rfl
  · obtain ⟨shared,-,found⟩ := bind_ok.mp found
    rw [mapM_values id (fun f g step => Fact.withShape_value step) found,List.map_id]

theorem values_cons {v : Option Tensor} {vs : List (Option Tensor)} (equal : values gs = v :: vs) :
    ∃ x rest, gs = x :: rest ∧ x.value = v ∧ values rest = vs := by
  obtain ⟨x,rest,rfl,first,later⟩ := List.map_eq_cons_iff.mp equal
  exact ⟨x,rest,rfl,first,later⟩

theorem values_one {v : Option Tensor} (equal : values gs = [v]) : ∃ x, gs = [x] ∧ x.value = v := by
  obtain ⟨x,_,rfl,first,none⟩ := values_cons equal
  cases List.map_eq_nil_iff.mp none
  exact ⟨x,rfl,first⟩

theorem values_two {v w : Option Tensor} (equal : values gs = [v,w]) :
    ∃ x y, gs = [x,y] ∧ x.value = v ∧ y.value = w := by
  obtain ⟨x,_,rfl,first,later⟩ := values_cons equal
  obtain ⟨y,rfl,second⟩ := values_one later
  exact ⟨x,y,rfl,first,second⟩

theorem values_last {vs : List (Option Tensor)} {v : Option Tensor} (equal : values gs = vs ++ [v]) :
    values gs.dropLast = vs ∧ (gs.getLastD .unknown).value = v := by
  unfold values at equal ⊢
  obtain ⟨front,last,rfl,rfl,one⟩ := List.map_eq_append_iff.mp equal
  obtain ⟨x,rfl,same⟩ := values_one one
  rw [List.dropLast_concat,List.getLastD_concat]
  exact ⟨rfl,same⟩

-- No value is gained, at the inputs or at the output.
structure Kept (ins : Facts) (out : Fact) (r : Facts × Facts) : Prop where
  inputs : values r.1 = values ins
  output : values r.2 = [out.value]

theorem sharedPair_values {p : Fact × Fact} (found : sharedPair [x] [out] = .ok p) :
    p.1.value = x.value ∧ p.2.value = out.value := by
  obtain ⟨fs,shared,found⟩ := bind_ok.mp found
  obtain ⟨a,b,rfl,first,second⟩ := values_two (shareDType_values shared)
  cases found
  exact ⟨first,second⟩

theorem alike_values {fs gs : Facts} (typed : shareDType (pad [x] 1 ++ pad [out] 1) = .ok fs)
    (shaped : fs.shareShape = .ok gs) : ∃ a b, gs = [a,b] ∧ a.value = x.value ∧ b.value = out.value :=
  values_two ((shareShape_values shaped).trans (shareDType_values typed))

theorem shareDType_concat (found : shareDType (ins ++ pad [out] 1) = .ok gs) :
    values gs = values ins ++ [out.value] := (shareDType_values found).trans List.map_append

theorem refill_values {o : ShapeFact} (found : refill ins o = .ok gs) : values gs = values ins := by
  unfold refill at found
  split at found
  · split at found
    · have kept := mapM_values Prod.fst (fun p g step => ?_) found
      · rw [kept,List.zipIdx_map_fst]
      · obtain ⟨f,k⟩ := p
        dsimp only at step
        split at step
        · exact Fact.withDims_value step
        · cases step
          rfl
    · cases found
      rfl
  · cases found
    rfl

theorem broadcast_values {q : Facts × Fact} (found : broadcast ins out = .ok q) :
    values q.1 = values ins ∧ q.2.value = out.value := by
  rw [broadcast_eq] at found
  obtain ⟨o,forward,found⟩ := bind_ok.mp found
  have output : o.value = out.value := by
    unfold stretchOutput at forward
    split at forward
    · obtain ⟨_,-,shaped⟩ := bind_ok.mp forward
      exact Fact.withDims_value shaped
    · cases forward
      rfl
  unfold stretchInputs at found
  split at found
  · cases found
    exact ⟨rfl,output⟩
  · obtain ⟨filled,refilled,found⟩ := bind_ok.mp found
    obtain ⟨⟨⟩,-,equal⟩ := bind_ok.mp found
    cases equal
    exact ⟨refill_values refilled,output⟩

end Facts

open Facts

variable {ins : Facts} {x y out : Fact} {r : Facts × Facts}

theorem BinaryKind.infer_values {k : BinaryKind} (found : k.infer [x,y] [out] = .ok r) : Kept [x,y] out r := by
  rw [infer_eq] at found
  obtain ⟨⟨fs,o⟩,shared,found⟩ := bind_ok.mp found
  obtain ⟨q,stretched,equal⟩ := bind_ok.mp found
  cases equal
  obtain ⟨inputs,output⟩ := broadcast_values stretched
  suffices same : values fs = values [x,y] ∧ o.value = out.value from
    ⟨inputs.trans same.1,congrArg (fun v => [v]) (output.trans same.2)⟩
  obtain ⟨gs,typed,shared⟩ := bind_ok.mp shared
  obtain ⟨a,b,rfl,first,second⟩ := values_two (shareDType_values typed)
  obtain ⟨⟨⟩,-,shared⟩ := bind_ok.mp shared
  split at shared
  · obtain ⟨p,learned,equal⟩ := bind_ok.mp shared
    cases equal
    exact ⟨congrArg₂ (fun v w => [v,w]) first second,Fact.withDType_value learned⟩
  · unfold passType at shared
    split at shared
    · obtain ⟨p,learned,equal⟩ := bind_ok.mp shared
      cases equal
      exact ⟨congrArg₂ (fun v w => [v,w]) first second,Fact.withDType_value learned⟩
    · obtain ⟨head,learned,shared⟩ := bind_ok.mp shared
      obtain ⟨hs,typed,equal⟩ := bind_ok.mp shared
      cases equal
      refine ⟨(shareDType_values typed).trans ?_,rfl⟩
      exact congrArg₂ (fun v w => [v,w]) ((Fact.withDType_value learned).trans first) second
    · cases shared
      exact ⟨congrArg₂ (fun v w => [v,w]) first second,rfl⟩

theorem AddN.infer_values (found : infer ins [out] = .ok r) : Kept ins out r := by
  obtain ⟨fs,shared,found⟩ := bind_ok.mp found
  obtain ⟨inputs,output⟩ := values_last (shareDType_concat shared)
  obtain ⟨q,stretched,equal⟩ := bind_ok.mp found
  cases equal
  obtain ⟨same,last⟩ := broadcast_values stretched
  exact ⟨same.trans inputs,congrArg (fun v => [v]) (last.trans output)⟩

theorem UnaryKind.infer_values {k : UnaryKind} (found : k.infer [x] [out] = .ok r) : Kept [x] out r := by
  obtain ⟨typed,shared,found⟩ := bind_ok.mp found
  obtain ⟨both,shaped,found⟩ := bind_ok.mp found
  obtain ⟨a,b,rfl,first,second⟩ := alike_values shared shaped
  dsimp only [Facts.first,List.headD_cons] at found
  split at found
  · split at found
    · cases found
      exact ⟨congrArg (fun v => [v]) first,congrArg (fun v => [v]) second⟩
    · cases found
  · cases found
    exact ⟨congrArg (fun v => [v]) first,congrArg (fun v => [v]) second⟩

-- One input and one output: their facts gain dimensions at most.
theorem kept_one {a b : Fact} (first : a.value = x.value) (second : b.value = out.value) : Kept [x] out ([a],[b]) :=
  ⟨congrArg (fun v => [v]) first,congrArg (fun v => [v]) second⟩

theorem Cast.infer_values {target : DType} (found : infer target [x] [out] = .ok r) : Kept [x] out r := by
  obtain ⟨fs,shaped,found⟩ := bind_ok.mp found
  obtain ⟨a,b,rfl,first,second⟩ := values_two (shareShape_values shaped)
  obtain ⟨_,equal,found⟩ := bind_ok.mp found
  cases equal
  obtain ⟨p,learned,equal⟩ := bind_ok.mp found
  cases equal
  exact kept_one first ((Fact.withDType_value learned).trans second)

theorem Softmax.infer_values (found : infer [x] [out] = .ok r) : Kept [x] out r := by
  obtain ⟨typed,shared,found⟩ := bind_ok.mp found
  obtain ⟨both,shaped,found⟩ := bind_ok.mp found
  obtain ⟨a,b,rfl,first,second⟩ := alike_values shared shaped
  obtain ⟨_,equal,found⟩ := bind_ok.mp found
  cases equal
  obtain ⟨⟨⟩,-,equal⟩ := bind_ok.mp found
  cases equal
  exact kept_one first second

theorem Transpose.infer_values {perm : Option (List Int)} (found : infer perm [x] [out] = .ok r) : Kept [x] out r := by
  rw [infer_eq] at found
  obtain ⟨⟨a,b⟩,shared,found⟩ := bind_ok.mp found
  obtain ⟨first,second⟩ := sharedPair_values shared
  obtain ⟨b',forth,found⟩ := bind_ok.mp found
  obtain ⟨a',back,equal⟩ := bind_ok.mp found
  cases equal
  have output : b'.value = b.value := by
    unfold forward at forth
    split at forth
    · cases forth
      rfl
    · obtain ⟨_,-,shaped⟩ := bind_ok.mp forth
      exact Fact.withDims_value shaped
  have input : a'.value = a.value := by
    unfold backward at back
    split at back
    · cases back
      rfl
    · obtain ⟨_,-,shaped⟩ := bind_ok.mp back
      exact Fact.withDims_value shaped
  exact kept_one (input.trans first) (output.trans second)

theorem Slice.infer_values {spans : List Span} (found : infer spans [x] [out] = .ok r) : Kept [x] out r := by
  obtain ⟨⟨a,b⟩,shared,found⟩ := bind_ok.mp found
  obtain ⟨first,second⟩ := sharedPair_values shared
  obtain ⟨a',ranked,found⟩ := bind_ok.mp found
  obtain ⟨dims,-,found⟩ := bind_ok.mp found
  obtain ⟨b',shaped,equal⟩ := bind_ok.mp found
  cases equal
  exact kept_one ((Fact.withDims_value ranked).trans first) ((Fact.withDims_value shaped).trans second)

theorem Squeeze.infer_values {chosen : Option (List Int)} (found : infer chosen [x] [out] = .ok r) :
    Kept [x] out r := by
  obtain ⟨⟨a,b⟩,shared,found⟩ := bind_ok.mp found
  obtain ⟨first,second⟩ := sharedPair_values shared
  dsimp only at found
  split at found
  · cases found
    exact kept_one first second
  · obtain ⟨axes,-,found⟩ := bind_ok.mp found
    split at found
    · cases found
      exact kept_one first second
    · obtain ⟨a',ranked,found⟩ := bind_ok.mp found
      obtain ⟨b',shaped,equal⟩ := bind_ok.mp found
      cases equal
      exact kept_one ((Fact.withDims_value ranked).trans first) ((Fact.withDims_value shaped).trans second)

theorem ExpandDims.infer_values {axes : List Int} (found : infer axes [x] [out] = .ok r) : Kept [x] out r := by
  obtain ⟨⟨a,b⟩,shared,found⟩ := bind_ok.mp found
  obtain ⟨first,second⟩ := sharedPair_values shared
  dsimp only at found
  split at found
  · obtain ⟨dims,-,found⟩ := bind_ok.mp found
    obtain ⟨b',shaped,equal⟩ := bind_ok.mp found
    cases equal
    exact kept_one first ((Fact.withDims_value shaped).trans second)
  · obtain ⟨dropped,-,found⟩ := bind_ok.mp found
    obtain ⟨a',shaped,equal⟩ := bind_ok.mp found
    cases equal
    exact kept_one ((Fact.withDims_value shaped).trans first) second
  · cases found
    exact kept_one first second

theorem Flatten.infer_values {axis : Int} (found : infer axis [x] [out] = .ok r) : Kept [x] out r := by
  obtain ⟨⟨a,b⟩,shared,found⟩ := bind_ok.mp found
  obtain ⟨first,second⟩ := sharedPair_values shared
  obtain ⟨b',flat,found⟩ := bind_ok.mp found
  have output := (Fact.withDims_value flat).trans second
  split at found
  · cases found
    exact kept_one first output
  · obtain ⟨k,-,found⟩ := bind_ok.mp found
    obtain ⟨b'',shaped,equal⟩ := bind_ok.mp found
    cases equal
    exact kept_one first ((Fact.withDims_value shaped).trans output)

theorem Reduction.infer_values {name : String} {chosen : Option (List Int)} {keepDims : Bool}
    (found : infer name chosen keepDims [x] [out] = .ok r) : Kept [x] out r := by
  obtain ⟨⟨a,b⟩,shared,found⟩ := bind_ok.mp found
  obtain ⟨first,second⟩ := sharedPair_values shared
  have concluded : conclude chosen keepDims a b = .ok r := by
    dsimp only at found
    split at found
    · split at found
      · exact found
      · cases found
    · exact found
  unfold conclude at concluded
  split at concluded
  · cases concluded
    exact kept_one first second
  · obtain ⟨axes,-,found⟩ := bind_ok.mp concluded
    obtain ⟨b',shaped,equal⟩ := bind_ok.mp found
    cases equal
    exact kept_one first ((Fact.withDims_value shaped).trans second)

theorem Pooling.infer_values {kind : PoolKind} {p : Patch} (found : infer kind p [x] [out] = .ok r) :
    Kept [x] out r := by
  rw [infer_eq] at found
  obtain ⟨⟨a,b⟩,shared,found⟩ := bind_ok.mp found
  obtain ⟨first,second⟩ := sharedPair_values shared
  obtain ⟨⟨⟩,-,found⟩ := bind_ok.mp found
  obtain ⟨a',ranked,found⟩ := bind_ok.mp found
  obtain ⟨dims,-,found⟩ := bind_ok.mp found
  obtain ⟨b',shaped,equal⟩ := bind_ok.mp found
  cases equal
  exact kept_one ((Fact.withDims_value ranked).trans first) ((Fact.withDims_value shaped).trans second)

namespace Concat

theorem spread_values {rank axis : Nat} {fs gs : Facts} (found : spread rank axis fs = .ok gs) :
    values gs = values fs := by
  refine foldlM_keeps (P := fun hs => values hs = values fs) (fun hs a hs' _ kept step => ?_) rfl found
  obtain ⟨shared,-,step⟩ := bind_ok.mp step
  rw [mapM_values id (fun f g refined => ?_) step,List.map_id,kept]
  obtain ⟨_,-,shaped⟩ := bind_ok.mp refined
  exact Fact.withDims_value shaped

theorem total_values {rank axis : Nat} (found : total rank axis ins out = .ok r) : Kept ins out r := by
  unfold total at found
  split at found
  · cases found
    exact ⟨rfl,rfl⟩
  · obtain ⟨extents,-,found⟩ := bind_ok.mp found
    split at found
    · cases found
      exact ⟨rfl,rfl⟩
    · obtain ⟨_,-,found⟩ := bind_ok.mp found
      obtain ⟨p,shaped,equal⟩ := bind_ok.mp found
      cases equal
      exact ⟨rfl,congrArg (fun v => [v]) (Fact.withDims_value shaped)⟩

theorem infer_values {axis : Int} (found : infer axis ins [out] = .ok r) : Kept ins out r := by
  rw [infer_eq] at found
  obtain ⟨fs,shared,placed⟩ := bind_ok.mp found
  have typed := shareDType_concat shared
  unfold place at placed
  split at placed
  · cases placed
    obtain ⟨inputs,output⟩ := values_last typed
    exact ⟨inputs,congrArg (fun v => [v]) output⟩
  · obtain ⟨a,-,placed⟩ := bind_ok.mp placed
    obtain ⟨gs,spread,placed⟩ := bind_ok.mp placed
    obtain ⟨inputs,output⟩ := values_last ((spread_values spread).trans typed)
    obtain ⟨same,last⟩ := total_values placed
    exact ⟨same.trans inputs,last.trans (congrArg (fun v => [v]) output)⟩

end Concat

theorem Pack.infer_values {axis : Int} (found : infer axis ins [out] = .ok r) : Kept ins out r := by
  rw [infer_eq] at found
  obtain ⟨fs,shared,found⟩ := bind_ok.mp found
  obtain ⟨b,typed,placed⟩ := bind_ok.mp found
  have inputs := shareShape_values shared
  have output : b.value = out.value := by
    unfold packType at typed
    split at typed
    · obtain ⟨_,-,learned⟩ := bind_ok.mp typed
      exact Fact.withDType_value learned
    · cases typed
      rfl
  unfold place at placed
  split at placed
  · obtain ⟨_,-,placed⟩ := bind_ok.mp placed
    obtain ⟨b',shaped,equal⟩ := bind_ok.mp placed
    cases equal
    exact ⟨inputs,congrArg (fun v => [v]) ((Fact.withDims_value shaped).trans output)⟩
  · obtain ⟨_,-,placed⟩ := bind_ok.mp placed
    obtain ⟨gs,each,placed⟩ := bind_ok.mp placed
    obtain ⟨hs,alike,equal⟩ := bind_ok.mp placed
    cases equal
    have unpacked := mapM_values id (fun f g step => Fact.withDims_value step) each
    rw [List.map_id] at unpacked
    exact ⟨(shareShape_values alike).trans (unpacked.trans inputs),congrArg (fun v => [v]) output⟩
  · cases placed
    exact ⟨inputs,congrArg (fun v => [v]) output⟩

namespace Reshape

variable {own : Option (List Int)}

theorem conclude_values {s : Option ShapeFact} {target : Option (List Int)}
    (found : conclude s ins out target = .ok r) : Kept ins out r := by
  unfold conclude at found
  split at found
  · cases found
    exact ⟨rfl,rfl⟩
  · obtain ⟨_,-,found⟩ := bind_ok.mp found
    obtain ⟨p,shaped,equal⟩ := bind_ok.mp found
    cases equal
    exact ⟨rfl,congrArg (fun v => [v]) (Fact.withDims_value shaped)⟩

theorem passType_values {p : Facts × Fact} (found : passType (x :: ins) out = .ok p) :
    values p.1 = values (x :: ins) ∧ p.2.value = out.value := by
  unfold passType at found
  split at found
  · obtain ⟨b,learned,equal⟩ := bind_ok.mp found
    cases equal
    exact ⟨rfl,Fact.withDType_value learned⟩
  · obtain ⟨a,learned,equal⟩ := bind_ok.mp found
    cases equal
    exact ⟨congrArg (· :: values ins) (Fact.withDType_value learned),rfl⟩
  · cases found
    exact ⟨rfl,rfl⟩

theorem readTarget_values {q : Facts × Option (List Int)} (found : readTarget own ins = .ok q) :
    values q.1 = values ins := by
  unfold readTarget at found
  split at found
  · obtain ⟨b,ranked,found⟩ := bind_ok.mp found
    have same := Fact.withDims_value ranked
    split at found
    · obtain ⟨_,-,equal⟩ := bind_ok.mp found
      cases equal
      exact congrArg (fun v => [_,v]) same
    · cases found
      exact congrArg (fun v => [_,v]) same
  · cases found
    rfl

theorem infer_values (found : infer own (x :: ins) [out] = .ok r) : Kept (x :: ins) out r := by
  rw [infer_eq] at found
  obtain ⟨⟨fs,b⟩,passed,found⟩ := bind_ok.mp found
  obtain ⟨first,second⟩ := passType_values passed
  obtain ⟨⟨gs,target⟩,read,found⟩ := bind_ok.mp found
  obtain ⟨inputs,output⟩ := conclude_values found
  exact ⟨inputs.trans ((readTarget_values read).trans first),output.trans (congrArg (fun v => [v]) second)⟩

end Reshape

namespace BatchNorm

theorem conclude_values {o : Fact} {ps : Facts} (found : conclude x o ps = .ok r) : Kept (x :: ps) o r := by
  unfold conclude at found
  split at found
  · cases found
    exact ⟨rfl,rfl⟩
  · split at found
    · obtain ⟨qs,each,found⟩ := bind_ok.mp found
      obtain ⟨a,refined,found⟩ := bind_ok.mp found
      obtain ⟨b,shaped,equal⟩ := bind_ok.mp found
      cases equal
      have rows := mapM_values id (fun f g step => Fact.withDims_value step) each
      rw [List.map_id] at rows
      exact ⟨congrArg₂ List.cons (Fact.withDims_value refined) rows,congrArg (fun v => [v]) (Fact.withShape_value shaped)⟩
    · cases found

theorem infer_values {s b m v : Fact} (found : infer [x,s,b,m,v] [out] = .ok r) : Kept [x,s,b,m,v] out r := by
  obtain ⟨fs,shared,found⟩ := bind_ok.mp found
  have typed := shareDType_values shared
  obtain ⟨a,_,rfl,first,typed⟩ := values_cons typed
  obtain ⟨s',_,rfl,s_,typed⟩ := values_cons typed
  obtain ⟨b',_,rfl,b_,typed⟩ := values_cons typed
  obtain ⟨m',_,rfl,m_,typed⟩ := values_cons typed
  obtain ⟨v',o,rfl,v_,o_⟩ := values_two typed
  obtain ⟨⟨⟩,-,found⟩ := bind_ok.mp found
  obtain ⟨both,shaped,found⟩ := bind_ok.mp found
  obtain ⟨wide,each,found⟩ := bind_ok.mp found
  obtain ⟨ps,alike,concluded⟩ := bind_ok.mp found
  obtain ⟨a',p,rfl,first',output⟩ := values_two (shareShape_values shaped)
  have rows := mapM_values id (fun f g step => Fact.withDims_value step) each
  rw [List.map_id] at rows
  obtain ⟨inputs,last⟩ := conclude_values (x := a') (o := p) concluded
  refine ⟨inputs.trans (congrArg₂ List.cons (first'.trans first) ((shareShape_values alike).trans (rows.trans ?_))),
    last.trans (congrArg (fun v => [v]) (output.trans o_))⟩
  change [s'.value,b'.value,m'.value,v'.value] = _
  rw [s_,b_,m_,v_]
  rfl

end BatchNorm

namespace MatMul

theorem combine_values {s t : ShapeFact} (found : combine x y out s t = .ok r) : Kept [x,y] out r := by
  unfold combine at found
  split at found
  · obtain ⟨k,-,found⟩ := bind_ok.mp found
    obtain ⟨a,left,found⟩ := bind_ok.mp found
    obtain ⟨b,right,found⟩ := bind_ok.mp found
    obtain ⟨batch,-,found⟩ := bind_ok.mp found
    obtain ⟨o,shaped,equal⟩ := bind_ok.mp found
    cases equal
    exact ⟨congrArg₂ (fun v w => [v,w]) (Fact.withDims_value left) (Fact.withDims_value right),
      congrArg (fun v => [v]) (Fact.withDims_value shaped)⟩
  · cases found

theorem infer_values (found : infer [x,y] [out] = .ok r) : Kept [x,y] out r := by
  obtain ⟨fs,shared,found⟩ := bind_ok.mp found
  have typed := shareDType_values shared
  obtain ⟨a,_,rfl,first,typed⟩ := values_cons typed
  obtain ⟨b,o,rfl,second,output⟩ := values_two typed
  have joined : join a b o = .ok r := found
  suffices kept : Kept [a,b] o r from
    ⟨kept.inputs.trans (congrArg₂ (fun v w => [v,w]) first second),kept.output.trans (congrArg (fun v => [v]) output)⟩
  unfold join at joined
  split at joined
  · exact combine_values joined
  · cases joined
    exact ⟨rfl,rfl⟩

end MatMul

namespace Convolution

variable {c : Convolution}

theorem declareKernel_value (found : c.declareKernel x = .ok y) : y.value = x.value := by
  unfold declareKernel at found
  split at found
  · cases found
    rfl
  · obtain ⟨_,-,found⟩ := bind_ok.mp found
    obtain ⟨_,-,found⟩ := bind_ok.mp found
    exact Fact.withDims_value found

theorem answer_values {k : Fact} {rest : Facts} (found : answer c x k out rest = .ok r) :
    Kept (x :: k :: rest) out r := by
  unfold answer at found
  split at found
  · obtain ⟨_,-,found⟩ := bind_ok.mp found
    obtain ⟨o,shaped,equal⟩ := bind_ok.mp found
    cases equal
    exact ⟨rfl,congrArg (fun v => [v]) (Fact.withDims_value shaped)⟩
  · rename_i bias more
    obtain ⟨b,row,found⟩ := bind_ok.mp found
    obtain ⟨k',refined,found⟩ := bind_ok.mp found
    obtain ⟨_,-,found⟩ := bind_ok.mp found
    obtain ⟨o,shaped,equal⟩ := bind_ok.mp found
    cases equal
    exact ⟨congrArg₂ (fun v w => x.value :: v :: w :: values more) (Fact.withDims_value refined) (Fact.withDims_value row),
      congrArg (fun v => [v]) (Fact.withDims_value shaped)⟩

theorem infer_values (found : c.infer ins [out] = .ok r) : Kept ins out r := by
  unfold infer at found
  obtain ⟨fs,shared,found⟩ := bind_ok.mp found
  obtain ⟨inputs,output⟩ := values_last (shareDType_concat shared)
  dsimp only at found
  split at found
  · cases found
  · rename_i a others split_
    obtain ⟨⟨⟩,-,found⟩ := bind_ok.mp found
    obtain ⟨a',rankedA,found⟩ := bind_ok.mp found
    cases others with
    | nil => cases found
    | cons k rest =>
      obtain ⟨k₁,rankedK,found⟩ := bind_ok.mp found
      obtain ⟨k₂,declared,found⟩ := bind_ok.mp found
      have answered : answer c a' k₂ (fs.getLastD .unknown) rest = .ok r := Dim.guard_passed found
      obtain ⟨same,last⟩ := answer_values answered
      rw [split_] at inputs
      refine ⟨same.trans (Eq.trans ?_ inputs),last.trans (congrArg (fun v => [v]) output)⟩
      exact congrArg₂ (fun v w => v :: w :: values rest) (Fact.withDims_value rankedA)
        ((declareKernel_value declared).trans (Fact.withDims_value rankedK))

end Convolution

namespace Op

-- Where a constant comes from: evaluation of constants, a declared constant, or extents that are all known.
inductive Yields : Op → Facts → Tensor → Prop where
  | evaluated {o : Op} {ins : Facts} {ts : List Tensor} {v : Tensor} : values ins = ts.map some →
      o.eval ts = .ok [v] → Yields o ins v
  | declared {f : Fact} {ins : Facts} {v : Tensor} : f.value = some v → Yields (placeholder f) ins v
  | measured {x : Fact} {s : Shape} : x.extents? = some s → Yields shape [x] (.row s)

variable {o : Op} {v : Tensor}

-- A rule finds the constants that its operator yields, at the output. At the input only the identity finds
-- any, and those are of its output.
structure Finds (o : Op) (ins : Facts) (out : Fact) (r : Facts × Facts) : Prop where
  inputs : List.Forall₂ (fun x y => ∀ v, y.value = some v → x.value = some v ∨ o = identity ∧ out.value = some v) ins r.1
  output : ∃ y, r.2 = [y] ∧ ∀ v, y.value = some v → out.value = some v ∨ o.Yields ins v

theorem values_forall₂ {fs gs : Facts} (equal : values gs = values fs) :
    List.Forall₂ (fun x y => y.value = x.value) fs gs := by
  unfold values at equal
  rw [← List.forall₂_eq_eq_eq,List.forall₂_map_left_iff,List.forall₂_map_right_iff] at equal
  exact equal.flip

theorem finds_kept (kept : Kept ins out r) : o.Finds ins out r := by
  obtain ⟨y,single,same⟩ := values_one kept.output
  exact ⟨(values_forall₂ kept.inputs).imp fun x y equal v known => .inl (equal ▸ known),
    y,single,fun v known => .inl (same ▸ known)⟩

theorem inferSource_finds {known : Fact} (yields : ∀ v, known.value = some v → o.Yields ins v)
    (found : inferSource known ins [out] = .ok r) : o.Finds ins out r := by
  obtain ⟨y,unified,equal⟩ := bind_ok.mp found
  cases equal
  refine ⟨List.forall₂_same.mpr fun x _ v known => .inl known,y,rfl,fun v found => ?_⟩
  obtain ⟨-,-,value,-⟩ := Fact.unify_parts unified
  rw [value] at found
  rcases Option.or_eq_some_iff.mp found with first | ⟨-,second⟩
  · exact .inl first
  · exact .inr (yields v second)

theorem inferIdentity_finds (found : inferIdentity [x] [out] = .ok r) : identity.Finds [x] out r := by
  obtain ⟨fs,shared,found⟩ := bind_ok.mp found
  obtain ⟨gs,shaped,found⟩ := bind_ok.mp found
  obtain ⟨a,b,rfl,first,second⟩ := alike_values shared shaped
  obtain ⟨_,equal,found⟩ := bind_ok.mp found
  cases equal
  -- the two sides join their constants, from whichever side they come
  have joined {c d e : Fact} {w : Tensor} (unified : c.unify d = .ok e) (known : e.value = some w) :
      c.value = some w ∨ d.value = some w := by
    obtain ⟨-,-,value,-⟩ := Fact.unify_parts unified
    rw [value] at known
    exact (Option.or_eq_some_iff.mp known).imp_right And.right
  have passed {w : Tensor} (known : x.value = some w) : identity.Yields [x] w := by
    have single : values [x] = [w].map some := congrArg (fun v => [v]) known
    exact .evaluated single rfl
  dsimp only at found
  split at found
  · obtain ⟨e,unified,equal⟩ := bind_ok.mp found
    cases equal
    refine ⟨.cons (fun w known => .inl (first ▸ known)) .nil,e,rfl,fun w known => ?_⟩
    rcases joined unified known with left | right
    · exact .inl (second ▸ left)
    · exact .inr (passed (first ▸ right))
  · obtain ⟨e,unified,equal⟩ := bind_ok.mp found
    cases equal
    refine ⟨.cons (fun w known => ?_) .nil,_,rfl,fun w known => .inl (second ▸ known)⟩
    rcases joined unified known with left | right
    · exact .inl (first ▸ left)
    · exact .inr ⟨rfl,second ▸ right⟩
  · cases found
    exact ⟨.cons (fun w known => .inl (first ▸ known)) .nil,_,rfl,fun w known => .inl (second ▸ known)⟩

theorem inferShape_finds (found : ShapeOf.infer [x] [out] = .ok r) : shape.Finds [x] out r := by
  obtain ⟨b,typed,found⟩ := bind_ok.mp found
  have concluded : ∃ c : Fact, c.value = out.value ∧ ShapeOf.conclude x c = .ok r := by
    dsimp only at found
    split at found
    · obtain ⟨c,ranked,found⟩ := bind_ok.mp found
      exact ⟨c,(Fact.withDims_value ranked).trans (Fact.withDType_value typed),found⟩
    · exact ⟨b,Fact.withDType_value typed,found⟩
  obtain ⟨c,same,concluded⟩ := concluded
  unfold ShapeOf.conclude at concluded
  split at concluded
  · cases concluded
    exact ⟨.cons (fun v known => .inl known) .nil,c,rfl,fun v known => .inl (same ▸ known)⟩
  · rename_i s known
    split at concluded
    · cases concluded
    · obtain ⟨e,unified,equal⟩ := bind_ok.mp concluded
      cases equal
      refine ⟨.cons (fun v known => .inl known) .nil,e,rfl,fun v found => ?_⟩
      obtain ⟨-,-,value,-⟩ := Fact.unify_parts unified
      rw [value] at found
      rcases Option.or_eq_some_iff.mp found with first | ⟨-,second⟩
      · exact .inl (same ▸ first)
      · cases second
        exact .inr (.measured known)

theorem infer_finds (accepted : o.arity.accepts ins.length = true) (found : o.infer ins [out] = .ok r) :
    o.Finds ins out r := by
  have one (exact_ : Arity.accepts (.exactly 1) ins.length = true) : ∃ x, ins = [x] :=
    List.length_eq_one_iff.mp (of_decide_eq_true exact_)
  have two (exact_ : Arity.accepts (.exactly 2) ins.length = true) : ∃ x y, ins = [x,y] :=
    List.length_eq_two.mp (of_decide_eq_true exact_)
  cases o with
  | const t =>
    cases List.length_eq_zero_iff.mp (of_decide_eq_true accepted)
    refine inferSource_finds (fun v known => ?_) found
    cases known
    have none : values [] = ([] : List Tensor).map some := rfl
    exact .evaluated none rfl
  | placeholder f => exact inferSource_finds (fun v => .declared) found
  | identity =>
    obtain ⟨x,rfl⟩ := one accepted
    exact inferIdentity_finds found
  | binary k =>
    obtain ⟨x,y,rfl⟩ := two accepted
    exact finds_kept (BinaryKind.infer_values found)
  | addN => exact finds_kept (AddN.infer_values found)
  | unary k =>
    obtain ⟨x,rfl⟩ := one accepted
    exact finds_kept (UnaryKind.infer_values found)
  | reshape own =>
    cases ins with
    | nil => cases accepted
    | cons x rest => exact finds_kept (Reshape.infer_values found)
  | transpose perm =>
    obtain ⟨x,rfl⟩ := one accepted
    exact finds_kept (Transpose.infer_values found)
  | concat axis => exact finds_kept (Concat.infer_values found)
  | pack axis => exact finds_kept (Pack.infer_values found)
  | slice spans =>
    obtain ⟨x,rfl⟩ := one accepted
    exact finds_kept (Slice.infer_values found)
  | squeeze axes =>
    obtain ⟨x,rfl⟩ := one accepted
    exact finds_kept (Squeeze.infer_values found)
  | expandDims axes =>
    obtain ⟨x,rfl⟩ := one accepted
    exact finds_kept (ExpandDims.infer_values found)
  | flatten axis =>
    obtain ⟨x,rfl⟩ := one accepted
    exact finds_kept (Flatten.infer_values found)
  | cast target =>
    obtain ⟨x,rfl⟩ := one accepted
    exact finds_kept (Cast.infer_values found)
  | shape =>
    obtain ⟨x,rfl⟩ := one accepted
    exact inferShape_finds found
  | reduce named reduction axes keepDims =>
    obtain ⟨x,rfl⟩ := one accepted
    exact finds_kept (Reduction.infer_values found)
  | matMul =>
    obtain ⟨x,y,rfl⟩ := two accepted
    exact finds_kept (MatMul.infer_values found)
  | softmax axis =>
    obtain ⟨x,rfl⟩ := one accepted
    exact finds_kept (Softmax.infer_values found)
  | batchNorm epsilon =>
    obtain ⟨x,s,b,m,v,rfl⟩ : ∃ x s b m v, ins = [x,s,b,m,v] := by
      have five : ins.length = 5 := of_decide_eq_true accepted
      match ins, five with
      | [x,s,b,m,v], _ => exact ⟨x,s,b,m,v,rfl⟩
    exact finds_kept (BatchNorm.infer_values found)
  | conv c => exact finds_kept (Convolution.infer_values found)
  | pool kind p =>
    obtain ⟨x,rfl⟩ := one accepted
    exact finds_kept (Pooling.infer_values found)

end Op

end TensorGraph
