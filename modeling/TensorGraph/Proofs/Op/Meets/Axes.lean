import TensorGraph.Proofs.Op.Exact.Axes
import TensorGraph.Proofs.Op.Meets.Elementwise

namespace TensorGraph
open Outcome Facts

variable {ins : Facts} {out : Fact} {r : Facts × Facts} {t u : Tensor}

theorem Transpose.infer_meets {perm : Option (List Int)} (tell : Tell ins [t])
    (found : infer perm ins [out] = .ok r) : Meets (eval perm t) r.2 := by
  rw [infer_eq] at found
  obtain ⟨q,shared,found⟩ := bind_ok.mp found
  obtain ⟨input,typed⟩ := sharedPair_tell tell shared
  obtain ⟨o,forwards,found⟩ := bind_ok.mp found
  obtain ⟨y,-,equal⟩ := bind_ok.mp found
  cases equal
  unfold forward at forwards
  rw [input.shape] at forwards
  obtain ⟨p,permuted,shaped⟩ := bind_ok.mp forwards
  rw [ShapeFact.length_ofShape] at permuted
  rw [dims_exact permuted] at shaped
  refine meets_one (matched_bind permuted (matched_ok _)) fun u ran => ?_
  obtain ⟨p',again,dtype,shape⟩ := eval_parts ran
  cases permuted.symm.trans again
  exact Fact.withDims_tells shaped (dtype ▸ typed) shape

namespace Slice

variable {spans : List Span}

-- The rule checks every span against the extent of its axis.
theorem dims_within {shape : Shape} {dims : ShapeFact}
    (found : (spans.zip (ShapeFact.ofShape shape)).mapM (fun (s,d) => dim s d) = .ok dims) :
    ∀ p ∈ spans.zip shape, p.1.within p.2 = true := by
  rw [ShapeFact.ofShape,List.zip_map_right,mapM_ok,List.forall₂_map_left_iff] at found
  intro p member
  obtain ⟨d,-,learned⟩ := forall₂_left found p member
  unfold dim at learned
  dsimp only [Prod.map] at learned
  split at learned
  · assumption
  · cases learned

theorem infer_meets (tell : Tell ins [t]) (found : infer spans ins [out] = .ok r) : Meets (eval spans t) r.2 := by
  obtain ⟨q,shared,found⟩ := bind_ok.mp found
  obtain ⟨input,typed⟩ := sharedPair_tell tell shared
  obtain ⟨x,ranked,found⟩ := bind_ok.mp found
  obtain ⟨dims,sliced,found⟩ := bind_ok.mp found
  obtain ⟨o,shaped,equal⟩ := bind_ok.mp found
  cases equal
  have rank : t.rank = spans.length := (input.rank ranked).trans List.length_replicate
  rw [(input.withDims ranked).shape,Option.getD_some] at sliced
  have within := dims_within sliced
  refine meets_one ?_ fun u ran => ?_
  · unfold eval
    dsimp only
    rw [if_pos rank]
    split
    · rename_i beyond
      have member := List.mem_of_find?_eq_some beyond
      have outside := List.find?_some beyond
      dsimp only at outside
      rw [within _ (List.mem_of_getElem? (List.mem_zipIdx_iff_getElem?.mp member))] at outside
      cases outside
    · exact matched_ok _
  · obtain ⟨-,dtype,-⟩ := eval_parts ran
    rw [dims_exact ran] at sliced
    cases sliced
    exact Fact.withDims_tells shaped (dtype ▸ typed) rfl

end Slice

theorem Squeeze.infer_meets {chosen : Option (List Int)} (tell : Tell ins [t])
    (found : infer chosen ins [out] = .ok r) : Meets (eval chosen t) r.2 := by
  obtain ⟨q,shared,found⟩ := bind_ok.mp found
  obtain ⟨input,typed⟩ := sharedPair_tell tell shared
  dsimp only at found
  rw [input.shape] at found
  obtain ⟨o,dropped,found⟩ := bind_ok.mp found
  obtain ⟨axes,rfl⟩ := axes_ofShape dropped
  obtain ⟨x,marked,found⟩ := bind_ok.mp found
  obtain ⟨p,shaped,equal⟩ := bind_ok.mp found
  cases equal
  rw [(input.withDims marked).shape,Option.getD_some,
    ShapeFact.eq_of_exactly (forall₂_dropAxes (ShapeFact.exactly_ofShape t.shape) axes)] at shaped
  refine meets_one (matched_bind dropped (matched_ok _)) fun u ran => ?_
  obtain ⟨o,again,dtype,shape⟩ := eval_parts ran
  cases dropped.symm.trans again
  exact Fact.withDims_tells shaped (dtype ▸ typed) shape

namespace ExpandDims

theorem expand_exact {axes : List Int} {shape : Shape} {dims : ShapeFact}
    (found : expand axes .one (ShapeFact.ofShape shape) = .ok dims) :
    ∃ s, expand axes 1 shape = .ok s ∧ dims = .ofShape s := by
  obtain ⟨as,chosen,length,rfl⟩ := expand_ok found
  rw [ShapeFact.length_ofShape] at chosen ⊢
  have one : Dim.one = .known 1 := rfl
  refine ⟨_,bind_ok.mpr ⟨as,chosen,if_pos length⟩,?_⟩
  exact ShapeFact.eq_of_exactly (forall₂_addAxes (ShapeFact.exactly_ofShape shape) as one 0 _)

theorem infer_meets {axes : List Int} (tell : Tell ins [t]) (found : infer axes ins [out] = .ok r) :
    Meets (eval axes t) r.2 := by
  obtain ⟨q,shared,found⟩ := bind_ok.mp found
  obtain ⟨input,typed⟩ := sharedPair_tell tell shared
  dsimp only at found
  rw [input.shape] at found
  obtain ⟨dims,expanded,found⟩ := bind_ok.mp found
  obtain ⟨s,plain,rfl⟩ := expand_exact expanded
  obtain ⟨p,shaped,equal⟩ := bind_ok.mp found
  cases equal
  refine meets_one (matched_bind plain (matched_ok _)) fun u ran => ?_
  obtain ⟨again,dtype⟩ := eval_parts ran
  cases plain.symm.trans again
  exact Fact.withDims_tells shaped (dtype ▸ typed) rfl

end ExpandDims

theorem Flatten.infer_meets {axis : Int} (tell : Tell ins [t]) (found : infer axis ins [out] = .ok r) :
    Meets (eval axis t) r.2 := by
  obtain ⟨q,shared,found⟩ := bind_ok.mp found
  obtain ⟨input,typed⟩ := sharedPair_tell tell shared
  obtain ⟨o,flat,found⟩ := bind_ok.mp found
  rw [input.shape] at found
  obtain ⟨a,cut,found⟩ := bind_ok.mp found
  rw [ShapeFact.length_ofShape] at cut
  obtain ⟨p,shaped,equal⟩ := bind_ok.mp found
  cases equal
  rw [ShapeFact.ofShape,← List.map_take,← List.map_drop] at shaped
  refine meets_one (matched_bind cut (matched_ok _)) fun u ran => ?_
  obtain ⟨a',again,dtype,shape⟩ := eval_parts ran
  cases cut.symm.trans again
  have cut (s : Shape) : collapse (s.map .known) = .known s.size := collapse_exact s
  rw [cut,cut] at shaped
  exact Fact.withDims_tells shaped (dtype ▸ (Fact.withDims_dtype flat typed)) shape

theorem Reduction.infer_meets {k : Reduction} {name : String} {chosen : Option (List Int)} {keepDims : Bool}
    (tell : Tell ins [t]) (found : infer name chosen keepDims ins [out] = .ok r) :
    Meets (k.eval name chosen keepDims t) r.2 := by
  obtain ⟨q,shared,found⟩ := bind_ok.mp found
  obtain ⟨input,typed⟩ := sharedPair_tell tell shared
  dsimp only at found
  rw [input.dtype] at found
  dsimp only at found
  split at found
  · rename_i numeric
    change conclude chosen keepDims q.1 q.2 = .ok r at found
    unfold conclude at found
    rw [input.shape] at found
    obtain ⟨axes,here,found⟩ := bind_ok.mp found
    obtain ⟨p,shaped,equal⟩ := bind_ok.mp found
    cases equal
    rw [ShapeFact.length_ofShape] at here
    rw [dims_exact] at shaped
    refine meets_one ?_ fun u ran => ?_
    · unfold eval
      dsimp only
      rw [if_pos numeric]
      refine matched_bind here ?_
      split
      · exact matched_fail rfl
      · exact matched_ok _
    · obtain ⟨_,again,dtype,shape⟩ := eval_parts ran
      cases here.symm.trans again
      exact Fact.withDims_tells shaped (dtype ▸ typed) shape
  · cases found

end TensorGraph
