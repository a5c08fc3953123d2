import TensorGraph.Proofs.Op.Exact.Product
import TensorGraph.Proofs.Op.Meets.Elementwise

namespace TensorGraph
open Outcome Facts

namespace MatMul

variable {ins : Facts} {x y out : Fact} {r : Facts × Facts} {a b u : Tensor} {s t : Shape}

theorem productShape?_total {front back batch : Shape} (met : Shape.broadcast? front back = some batch) (m k n : Nat) :
    productShape? (front ++ [m,k]) (back ++ [k,n]) = some (batch ++ [m,n]) := by
  unfold productShape?
  simp [met]

theorem dim_same {k l : Nat} {d : Dim} (found : (Dim.known k).unify (.known l) = .ok d) : k = l ∧ d = .known k := by
  have left := (Dim.unify_left found).eq rfl
  have right := (Dim.unify_right found).eq rfl
  cases left.trans right.symm
  exact ⟨rfl,left.symm⟩

theorem combine_some (found : combine x y out (.ofShape s) (.ofShape t) = .ok r) : s ≠ [] ∧ t ≠ [] := by
  constructor
  · rintro rfl
    cases found
  · rintro rfl
    unfold combine at found
    split at found
    · rename_i empty
      cases empty
    · cases found

-- Where the rule lets the operands pass, evaluation finds their product.
theorem join_evaluates (left : x.Tells a) (right : y.Tells b) (typed : out.dtype = some a.dtype)
    (same : ∀ s ∈ [a,b], s.dtype = a.dtype) (numeric : a.dtype.isNumeric = true) (found : join x y out = .ok r) :
    ∃ v, eval a b = .ok v ∧ Tell r.2 [v] := by
  unfold join at found
  rw [left.shape,right.shape] at found
  obtain ⟨filledA,filledB⟩ := combine_some found
  obtain ⟨front,row,m,k,ownA,splitA,matrixA,rowA⟩ := asMatrixLeft_split filledA
  obtain ⟨back,column,l,n,ownB,splitB,matrixB,columnB⟩ := asMatrixRight_split filledB
  have shapeA : ShapeFact.ofShape a.shape = ShapeFact.ofShape front ++ ShapeFact.ofShape row ++ [.known k] := by
    simp [splitA,ShapeFact.ofShape]
  have shapeB : ShapeFact.ofShape b.shape = ShapeFact.ofShape back ++ .known l :: ShapeFact.ofShape column := by
    simp [splitB,ShapeFact.ofShape]
  dsimp only at found
  rw [shapeA,shapeB,combine_eq (own_ofShape ownA) (own_ofShape ownB)] at found
  obtain ⟨d,inner,found⟩ := bind_ok.mp found
  obtain ⟨rfl,rfl⟩ := dim_same inner
  obtain ⟨x,-,found⟩ := bind_ok.mp found
  obtain ⟨y,-,found⟩ := bind_ok.mp found
  obtain ⟨dims,stretched,found⟩ := bind_ok.mp found
  obtain ⟨p,shaped,equal⟩ := bind_ok.mp found
  cases equal
  obtain ⟨batch,all,rfl⟩ := ShapeFact.broadcast_stretches [front,back] stretched
  have met := Shape.broadcast?_of_all all
  have product := productShape?_total met m k n
  rw [← matrixA,← matrixB] at product
  have ranks : ¬ (a.rank = 0 || b.rank = 0) = true := by
    simpa [Tensor.rank] using ⟨filledA,filledB⟩
  have ran : eval a b = .ok ((MatMul.product (a.reshape (asMatrixLeft a.shape)) (b.reshape (asMatrixRight b.shape))
      (batch ++ [m,n])).reshape (dropAdded a.rank b.rank (batch ++ [m,n]))) := by
    unfold eval
    dsimp only
    rw [requireSameDType_passes same,ok_bind,if_pos numeric,if_neg ranks]
    split
    · rename_i missing
      cases product.symm.trans missing
    · rename_i shape formed
      cases product.symm.trans formed
      rfl
  have shape : dropAdded a.rank b.rank (batch ++ [m,n]) = batch ++ row ++ column := by
    rw [rowA,columnB]
    exact dropAdded_append batch
  refine ⟨_,ran,.cons (Fact.withDims_tells ?_ typed shape) .nil⟩
  simpa [ShapeFact.ofShape] using shaped

theorem infer_meets (numeric : a.dtype.isNumeric = true) (tell : Tell ins [a,b])
    (found : infer ins [out] = .ok r) : Meets (eval a b) r.2 := by
  obtain ⟨gs,shared,found⟩ := bind_ok.mp found
  obtain ⟨f,g,rfl,-,-⟩ := tell.two
  obtain ⟨_,o,rfl,later,-,typed,same⟩ := shareDType_tell (p := out) tell shared
  obtain ⟨x,y,rfl,left,right⟩ := later.two
  change join x y o = .ok r at found
  obtain ⟨v,ran,tells⟩ := join_evaluates left right typed same numeric found
  rw [ran]
  exact ⟨matched_ok _,fun u equal => by cases equal; exact tells⟩

end MatMul

end TensorGraph
