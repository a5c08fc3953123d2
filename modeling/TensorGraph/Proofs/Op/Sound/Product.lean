import TensorGraph.Proofs.Op.Monotone
import TensorGraph.Proofs.Op.Sound.Elementwise

namespace TensorGraph
open Outcome Facts

namespace MatMul

variable {ins outs : Facts} {r : Facts × Facts} {a b u : Tensor} {s t shape : Shape} {α : Type}

-- An operand's list of axes: some in front, at most one of its own, and the inner one between the own
-- axes of both. Without an own axis there are none in front.
def Own (front own : List α) : Prop := own.length = 1 ∨ own = [] ∧ front = []

theorem Own.forall₂ {β : Type} {R : α → β → Prop} {fs os : List α} {gs ps : List β} (own : Own gs ps)
    (front : List.Forall₂ R fs gs) (owned : List.Forall₂ R os ps) : Own fs os := by
  rcases own with one | ⟨rfl,rfl⟩
  · exact .inl (owned.length_eq.trans one)
  · cases front
    cases owned
    exact .inr ⟨rfl,rfl⟩

theorem own_cases {front own : List α} (given : Own front own) : (∃ x, own = [x]) ∨ own = [] ∧ front = [] :=
  given.imp_left List.length_eq_one_iff.mp

theorem asMatrixLeft_split (some : s ≠ []) : ∃ front row m k, Own front row ∧
    s = front ++ row ++ [k] ∧ asMatrixLeft s = front ++ [m,k] ∧ row = if s.length = 1 then [] else [m] := by
  rcases List.eq_nil_or_concat' s with rfl | ⟨rest,k,rfl⟩
  · exact absurd rfl some
  · rcases List.eq_nil_or_concat' rest with rfl | ⟨front,m,rfl⟩
    · exact ⟨[],[],1,k,.inr ⟨rfl,rfl⟩,rfl,rfl,rfl⟩
    · refine ⟨front,[m],m,k,.inl rfl,rfl,?_,?_⟩
      · simp [asMatrixLeft]
      · simp

theorem asMatrixRight_split (some : t ≠ []) : ∃ front column k n, Own front column ∧
    t = front ++ k :: column ∧ asMatrixRight t = front ++ [k,n] ∧
      column = if t.length = 1 then [] else [n] := by
  rcases List.eq_nil_or_concat' t with rfl | ⟨rest,n,rfl⟩
  · exact absurd rfl some
  · rcases List.eq_nil_or_concat' rest with rfl | ⟨front,k,rfl⟩
    · exact ⟨[],[],n,1,.inr ⟨rfl,rfl⟩,rfl,rfl,rfl⟩
    · refine ⟨front,[n],k,n,.inl rfl,?_,?_,?_⟩
      · simp
      · simp [asMatrixRight]
      · simp

theorem productShape?_append {front back : Shape} {m k l n : Nat}
    (found : productShape? (front ++ [m,k]) (back ++ [l,n]) = some shape) :
    ∃ batch, Shape.broadcast? front back = some batch ∧ k = l ∧ shape = batch ++ [m,n] := by
  obtain ⟨batch,met,found⟩ := Option.bind_eq_some_iff.mp found
  simp at met found
  exact ⟨batch,met,found.1,found.2.symm⟩

theorem dropAdded_append {leftRank rightRank m n : Nat} (batch : Shape) :
    dropAdded leftRank rightRank (batch ++ [m,n]) =
      batch ++ (if leftRank = 1 then [] else [m]) ++ (if rightRank = 1 then [] else [n]) := by
  unfold dropAdded
  split <;> split <;> simp [List.eraseIdx_append_of_length_le]

theorem eval_ok (evaluated : eval a b = .ok u) : b.dtype = a.dtype ∧ a.shape ≠ [] ∧ b.shape ≠ [] ∧
    ∃ shape, productShape? (asMatrixLeft a.shape) (asMatrixRight b.shape) = some shape ∧
      u = (product (a.reshape (asMatrixLeft a.shape)) (b.reshape (asMatrixRight b.shape)) shape).reshape
        (dropAdded a.shape.length b.shape.length shape) := by
  obtain ⟨_,same,evaluated⟩ := bind_ok.mp evaluated
  dsimp only at evaluated
  split at evaluated
  · split at evaluated
    · cases evaluated
    · rename_i ranks
      simp only [Tensor.rank,Bool.or_eq_true,decide_eq_true_eq,List.length_eq_zero_iff,not_or] at ranks
      split at evaluated
      · cases evaluated
      · rename_i shape met
        cases evaluated
        exact ⟨requireSameDType_ok same b (by simp),ranks.1,ranks.2,shape,met,rfl⟩
  · cases evaluated

-- The inner extents agree, the axes in front stretch, the own axes follow them.
theorem eval_parts (evaluated : eval a b = .ok u) : a.dtype = b.dtype ∧ u.dtype = a.dtype ∧
    ∃ front back batch row column k, Own front row ∧ Own back column ∧
      a.shape = front ++ row ++ [k] ∧ b.shape = back ++ k :: column ∧
        Shape.broadcast? front back = some batch ∧ u.shape = batch ++ row ++ column := by
  obtain ⟨same,someA,someB,shape,met,rfl⟩ := eval_ok evaluated
  obtain ⟨front,row,m,k,left,splitS,matrixS,ownS⟩ := asMatrixLeft_split someA
  obtain ⟨back,column,l,n,right,splitT,matrixT,ownT⟩ := asMatrixRight_split someB
  rw [matrixS,matrixT] at met
  obtain ⟨batch,stretched,rfl,rfl⟩ := productShape?_append met
  refine ⟨same.symm,rfl,front,back,batch,row,column,k,left,right,splitS,splitT,stretched,?_⟩
  rw [ownS,ownT]
  exact dropAdded_append batch

theorem combine_eq {x y out : Fact} {front row back column : ShapeFact} {d e : Dim} (left : Own front row)
    (right : Own back column) : combine x y out (front ++ row ++ [d]) (back ++ e :: column) =
      d.unify e >>= fun k => x.withDims (front ++ row ++ [k]) >>= fun x =>
        y.withDims (back ++ k :: column) >>= fun y => ShapeFact.broadcast [front,back] >>= fun batch =>
          out.withDims (batch ++ row ++ column) >>= fun out => .ok ([x,y],[out]) := by
  rcases own_cases left with ⟨m,rfl⟩ | ⟨rfl,rfl⟩
  · rcases own_cases right with ⟨n,rfl⟩ | ⟨rfl,rfl⟩
    · simp [combine]
    · simp [combine]
  · rcases own_cases right with ⟨n,rfl⟩ | ⟨rfl,rfl⟩
    · simp [combine]
    · simp [combine]

theorem combine_sound {x y out : Fact} {front row back column batch : Shape} {k : Nat} {ss ts : ShapeFact}
    (left : Own front row) (right : Own back column) (splitS : a.shape = front ++ row ++ [k])
    (splitT : b.shape = back ++ k :: column) (met : Shape.broadcast? front back = some batch)
    (splitU : u.shape = batch ++ row ++ column) (inputA : x.accepts a = true) (inputB : y.accepts b = true)
    (output : out.accepts u = true) (fitsS : ss.Fits a.shape) (fitsT : ts.Fits b.shape)
    (found : combine x y out ss ts = .ok r) : Hold r [a,b] [u] := by
  rw [splitS] at fitsS
  rw [splitT] at fitsT
  obtain ⟨os,inner,rfl,fitsS,last⟩ := forall₂_append_right fitsS
  obtain ⟨fs,rs,rfl,fitsF,fitsR⟩ := forall₂_append_right fitsS
  obtain ⟨bs,after,rfl,fitsB,fitsT⟩ := forall₂_append_right fitsT
  cases last with
  | @cons d _ _ _ holdsD none =>
    cases none
    cases fitsT with
    | @cons e _ cs _ holdsE fitsC =>
      rw [combine_eq (left.forall₂ fitsF fitsR) (right.forall₂ fitsB fitsC)] at found
      obtain ⟨d,unified,found⟩ := bind_ok.mp found
      obtain ⟨x,shapedA,found⟩ := bind_ok.mp found
      obtain ⟨y,shapedB,found⟩ := bind_ok.mp found
      obtain ⟨dims,stretched,found⟩ := bind_ok.mp found
      obtain ⟨o,shapedU,equal⟩ := bind_ok.mp found
      cases equal
      have inner := Dim.unify_accepts unified holdsD holdsE
      have fitsBatch := ShapeFact.broadcast_fits (.cons fitsF (.cons fitsB .nil)) (Shape.stretched_two met)
        stretched
      refine ⟨.cons ?_ (accept_one ?_),accept_one ?_⟩
      · refine Fact.withDims_accepts inputA shapedA ?_
        rw [splitS]
        exact List.rel_append (List.rel_append fitsF fitsR) (.cons inner .nil)
      · refine Fact.withDims_accepts inputB shapedB ?_
        rw [splitT]
        exact List.rel_append fitsB (.cons inner fitsC)
      · refine Fact.withDims_accepts output shapedU ?_
        rw [splitU]
        exact List.rel_append (List.rel_append fitsBatch fitsR) fitsC

theorem infer_sound (evaluated : eval a b = .ok u) (input : Accept ins [a,b]) (output : Accept outs [u])
    (found : infer ins outs = .ok r) : Hold r [a,b] [u] := by
  obtain ⟨same,dtype,front,back,batch,row,column,k,left,right,splitS,splitT,met,splitU⟩ :=
    eval_parts evaluated
  obtain ⟨fs,shared,found⟩ := bind_ok.mp found
  have around := (input.pad (Nat.le_refl 2)).append (output.pad (Nat.le_refl 1))
  have accept := shareDType_accept (d := a.dtype) around (by simp [same,dtype]) shared
  match accept with
  | .cons (a := x) inputA (.cons (a := y) inputB (.cons (a := out) output .nil)) =>
    change join x y out = .ok r at found
    unfold join at found
    split at found
    · rename_i ss ts knownS knownT
      exact combine_sound left right splitS splitT met splitU inputA inputB output
        (Fact.accepts_fits inputA knownS) (Fact.accepts_fits inputB knownT) found
    · cases found
      exact ⟨.cons inputA (accept_one inputB),accept_one output⟩

end MatMul

end TensorGraph
