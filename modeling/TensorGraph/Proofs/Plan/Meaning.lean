import TensorGraph.Plan.Run
import TensorGraph.Proofs.Graph.Order

namespace TensorGraph.Plan
open Outcome

-- What a node of a plan stands for, by recursion over the graph and without a schedule or a cache:
-- the tensor it is fed, what the analysis found, or its operator applied to what its inputs mean.
inductive Means (p : Plan) (g : Graph) (bound : Bindings) : Int → List Tensor → Prop where
  | fed {id : Int} : bound.lookup id = some t → Means p g bound id [t]
  | folded {id : Int} : bound.lookup id = none → id ∈ p.folded → g.get? id = some n → p.analysis = some a →
      List.Forall₂ (fun o t => ∃ f, a.facts.get? o = some f ∧ f.value = some t) n.outlets ts →
      Means p g bound id ts
  | evaluated {id : Int} {outs : Outlet → List Tensor} :
      bound.lookup id = none → id ∉ p.folded → g.get? id = some n →
      (∀ o ∈ n.inputs, Means p g bound o.node (outs o)) →
      List.Forall₂ (fun o t => 0 ≤ o.slot ∧ (outs o)[o.slot.toNat]? = some t) n.inputs args →
      n.operator.eval args = .ok ts → ts.length = n.operator.outputCount →
      Means p g bound id ts

-- What an outlet stands for.
def Value (p : Plan) (g : Graph) (bound : Bindings) (o : Outlet) (t : Tensor) : Prop :=
  0 ≤ o.slot ∧ ∃ ts, Means p g bound o.node ts ∧ ts[o.slot.toNat]? = some t

variable {p : Plan} {g : Graph} {bound : Bindings}

theorem functional_forall₂ {R S : α → β → Prop} {xs : List α} {ys zs : List β}
    (left : List.Forall₂ R xs ys) (right : List.Forall₂ S xs zs)
    (agree : ∀ x ∈ xs, ∀ y z, R x y → S x z → y = z) : ys = zs := by
  induction left generalizing zs with
  | nil => cases right; rfl
  | cons first _ ih =>
    cases right with
    | cons other others =>
      obtain ⟨here,rest⟩ := List.forall_mem_cons.mp agree
      rw [here _ _ first other,ih others rest]

theorem functional_map {R : α → β → Prop} {f : α → β} {xs : List α} {ys : List β} (related : List.Forall₂ R xs ys)
    (agree : ∀ x ∈ xs, ∀ y, R x y → y = f x) : ys = xs.map f := by
  have mapped : List.Forall₂ (fun x y => y = f x) xs (xs.map f) := by
    rw [List.forall₂_map_right_iff,List.forall₂_same]
    exact fun _ _ => rfl
  exact functional_forall₂ related mapped fun x member y z here there => (agree x member y here).trans there.symm

-- A node has one meaning at most.
theorem Means.unique {id : Int} {ts us : List Tensor} (left : Means p g bound id ts)
    (right : Means p g bound id us) : ts = us := by
  induction left generalizing us with
  | fed found =>
    cases right with
    | fed other => rw [found] at other; cases other; rfl
    | folded missing => rw [found] at missing; cases missing
    | evaluated missing => rw [found] at missing; cases missing
  | folded missing constant found analysed values =>
    cases right with
    | fed other => rw [missing] at other; cases other
    | folded _ _ found' analysed' values' =>
      rw [found] at found'; cases found'
      rw [analysed] at analysed'; cases analysed'
      refine functional_forall₂ values values' fun o _ t u here there => ?_
      obtain ⟨f,fact,value⟩ := here
      obtain ⟨f',fact',value'⟩ := there
      rw [fact] at fact'; cases fact'
      rw [value] at value'; cases value'; rfl
    | evaluated _ computed => exact absurd constant computed
  | evaluated missing computed found _ args evaluated _ ih =>
    cases right with
    | fed other => rw [missing] at other; cases other
    | folded _ constant => exact absurd constant computed
    | evaluated _ _ found' sources' args' evaluated' =>
      rw [found] at found'; cases found'
      have same := functional_forall₂ args args' fun o source t u here there => by
        have equal := ih o source (sources' o source)
        rw [equal] at here
        exact Option.some.inj (here.2.symm.trans there.2)
      subst same
      rw [evaluated] at evaluated'
      cases evaluated'
      rfl

theorem Value.unique {o : Outlet} {t u : Tensor} (left : Value p g bound o t)
    (right : Value p g bound o u) : t = u := by
  obtain ⟨-,ts,means,at_⟩ := left
  obtain ⟨-,us,means',at'⟩ := right
  rw [means.unique means',at'] at at_
  cases at_
  rfl

theorem evaluate_ok {n : Node} {args ts : List Tensor} : evaluate n args = .ok ts ↔
    n.operator.eval args = .ok ts ∧ ts.length = n.operator.outputCount := by
  unfold evaluate
  rw [bind_ok]
  constructor
  · rintro ⟨values,evaluated,counted⟩
    dsimp only at counted
    split at counted
    · rename_i count
      cases counted
      exact ⟨mapError_ok.mp evaluated,count⟩
    · cases counted
  · rintro ⟨evaluated,count⟩
    exact ⟨ts,mapError_ok.mpr evaluated,by rw [if_pos count]; rfl⟩

-- A node that is neither fed nor folded means what its operator makes of the values of its inputs.
theorem means_evaluated {id : Int} {n : Node} {ts : List Tensor} (unbound : bound.lookup id = none)
    (computed : id ∉ p.folded) (found : g.get? id = some n) : Means p g bound id ts ↔
      ∃ args, List.Forall₂ (Value p g bound) n.inputs args ∧ evaluate n args = .ok ts := by
  constructor
  · intro means
    cases means with
    | fed bound => rw [unbound] at bound; cases bound
    | folded _ folded => exact absurd folded computed
    | evaluated _ _ found' sources taken evaluated count =>
      rw [found] at found'
      cases found'
      refine ⟨_,?_,evaluate_ok.mpr ⟨evaluated,count⟩⟩
      exact (forall₂_mem taken).imp fun o t ⟨source,low,at_⟩ => ⟨low,_,sources o source,at_⟩
  · rintro ⟨args,values,evaluated⟩
    obtain ⟨evaluated,count⟩ := evaluate_ok.mp evaluated
    -- some choice of the nodes' meanings; there is no other, as meanings are unique
    have chosen : ∀ (o : Outlet) ts, Means p g bound o.node ts →
        Means p g bound o.node (Classical.epsilon (Means p g bound o.node)) :=
      fun o ts means => Classical.epsilon_spec ⟨ts,means⟩
    have sources : ∀ o ∈ n.inputs, Means p g bound o.node (Classical.epsilon (Means p g bound o.node)) := by
      intro o source
      obtain ⟨t,-,-,ts,means,-⟩ := forall₂_left values o source
      exact chosen o ts means
    refine .evaluated unbound computed found sources (values.imp ?_) evaluated count
    rintro o t ⟨low,ts,means,at_⟩
    rw [means.unique (chosen o ts means)] at at_
    exact ⟨low,at_⟩

-- Whatever goes wrong in an evaluation is reported as such, at the node.
theorem evaluate_error {n : Node} {args : List Tensor} {f : Fault} (failed : evaluate n args = .error f) :
    f.kind.isA .evaluation = true ∧ f.node = some (n.id : Int) := by
  unfold evaluate at failed
  cases evaluated : n.operator.eval args with
  | error e =>
    rw [evaluated] at failed
    cases failed
    refine ⟨?_,rfl⟩
    unfold Fault.evaluating
    dsimp only
    split
    · rfl
    · split <;> rfl
  | ok values =>
    rw [evaluated] at failed
    simp only [Except.mapError,ok_bind] at failed
    split at failed
    · cases failed
    · cases failed
      exact ⟨rfl,rfl⟩

theorem getElem?_outlets {n : Node} {o : Outlet} (outlet : o ∈ n.outlets) :
    n.outlets[o.slot.toNat]? = some o := by
  obtain ⟨here,low,high⟩ := Node.mem_outlets.mp outlet
  rw [Node.outlets,List.getElem?_map,List.getElem?_range (by omega),Option.map_some]
  cases o
  simp_all

-- The outlets of a node, paired with as many tensors as there are.
theorem mem_zip_outlets {n : Node} {ts : List Tensor} {o : Outlet} {t : Tensor} :
    (o,t) ∈ n.outlets.zip ts ↔ o ∈ n.outlets ∧ ts[o.slot.toNat]? = some t := by
  rw [List.mem_iff_getElem?]
  simp only [List.getElem?_zip_eq_some]
  constructor
  · rintro ⟨i,left,right⟩
    have outlet := List.mem_of_getElem? left
    rw [Node.outlets,List.getElem?_map,Option.map_eq_some_iff] at left
    obtain ⟨slot,position,rfl⟩ := left
    obtain ⟨within,equal⟩ := List.getElem?_eq_some_iff.mp position
    rw [List.getElem_range] at equal
    subst equal
    exact ⟨outlet,by simpa using right⟩
  · rintro ⟨outlet,at_⟩
    exact ⟨o.slot.toNat,getElem?_outlets outlet,at_⟩

end TensorGraph.Plan
