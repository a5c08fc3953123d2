import TensorGraph.Proofs.Plan.Layout

namespace TensorGraph.Plan
open Outcome

variable {p : Plan} {g : Graph} {bound : Bindings}

-- A feed gives a value to the node that its key names.
def Gives (g : Graph) (feeds : Feeds) (id : Int) (value : Attribute) : Prop :=
  ∃ ref n, (ref,value) ∈ Feeds.collapse feeds ∧ g.resolve ref = .ok n ∧ (n.id : Int) = id

theorem resolve_known (numbered : g.Numbered) {ref : NodeRef} {n : Node} (resolved : g.resolve ref = .ok n) :
    g.get? n.id = some n := by
  cases ref with
  | id i =>
    have found := Graph.node_ok.mp resolved
    rw [numbered.id_eq found]
    exact found
  | name s =>
    change g.nodeNamed s = .ok n at resolved
    unfold Graph.nodeNamed at resolved
    split at resolved
    · rename_i m found
      cases resolved
      exact numbered.get?_id (List.mem_of_find?_eq_some found)
    · cases resolved

theorem bindOne_ok {feed : NodeRef × Attribute} {bound' : Bindings} :
    p.bindOne g bound feed = .ok bound' ↔ ∃ n t, g.resolve feed.1 = .ok n ∧ g.isInput n.id = true ∧
      bound.lookup (n.id : Int) = none ∧ p.receive g n feed.2 = .ok t ∧ bound' = bound ++ [((n.id : Int),t)] := by
  unfold bindOne
  rw [bind_ok]
  refine exists_congr fun n => ?_
  dsimp only
  constructor
  · rintro ⟨resolved,ran⟩
    split at ran
    · rename_i designated
      split at ran
      · cases ran
      · rename_i free
        obtain ⟨t,received,equal⟩ := bind_ok.mp ran
        cases equal
        exact ⟨t,resolved,designated,Option.not_isSome_iff_eq_none.mp free,received,rfl⟩
    · cases ran
  · rintro ⟨t,resolved,designated,free,received,rfl⟩
    refine ⟨resolved,?_⟩
    simp only [Int.ofNat_eq_natCast]
    rw [if_pos designated,if_neg (Option.not_isSome_iff_eq_none.mpr free),received]
    rfl

-- Tensors are bound under the number of their node, each once.
theorem foldlM_bindOne {feeds : Feeds} {bound' : Bindings}
    (ran : feeds.foldlM (p.bindOne g) bound = .ok bound') (id : Int) (t : Tensor) :
    bound'.lookup id = some t ↔ bound.lookup id = some t ∨ ∃ feed ∈ feeds, ∃ n,
      g.resolve feed.1 = .ok n ∧ (n.id : Int) = id ∧ g.isInput n.id = true ∧
        p.receive g n feed.2 = .ok t := by
  induction feeds generalizing bound with
  | nil => cases ran; simp
  | cons feed feeds ih =>
    rw [List.foldlM_cons] at ran
    obtain ⟨next,step,rest⟩ := bind_ok.mp ran
    obtain ⟨n,u,resolved,designated,free,received,rfl⟩ := bindOne_ok.mp step
    have here : (bound ++ [((n.id : Int),u)]).lookup id = some t ↔
        bound.lookup id = some t ∨ (n.id : Int) = id ∧ u = t := by
      rw [List.lookup_append]
      by_cases equal : (n.id : Int) = id
      · subst equal; simp [free]
      · have other : (id == (n.id : Int)) = false := by simpa using fun same => equal same.symm
        simp [List.lookup_cons,other,equal]
    rw [ih rest,here,or_assoc]
    refine or_congr_right ?_
    constructor
    · rintro (⟨number,rfl⟩ | ⟨feed',member,found⟩)
      · exact ⟨feed,List.mem_cons_self,n,resolved,number,designated,received⟩
      · exact ⟨feed',List.mem_cons_of_mem _ member,found⟩
    · rintro ⟨feed',member,m,resolved',number,designated',received'⟩
      rcases List.mem_cons.mp member with rfl | member
      · rw [resolved] at resolved'
        cases resolved'
        rw [received] at received'
        cases received'
        exact .inl ⟨number,rfl⟩
      · exact .inr ⟨feed',member,m,resolved',number,designated',received'⟩

-- Feeds of different inputs, each received, are all bound.
theorem foldlM_bindOne_total {feeds : Feeds} (start : Bindings)
    (each : ∀ feed ∈ feeds, ∃ n t, g.resolve feed.1 = .ok n ∧ g.isInput n.id = true ∧
      p.receive g n feed.2 = .ok t)
    (once : feeds.Pairwise fun x y => ∀ n m, g.resolve x.1 = .ok n → g.resolve y.1 = .ok m → n.id ≠ m.id)
    (free : ∀ feed ∈ feeds, ∀ n, g.resolve feed.1 = .ok n → start.lookup (n.id : Int) = none) :
    ∃ bound, feeds.foldlM (p.bindOne g) start = .ok bound := by
  induction feeds generalizing start with
  | nil => exact ⟨start,rfl⟩
  | cons feed feeds ih =>
    obtain ⟨⟨n,t,resolved,designated,received⟩,others⟩ := List.forall_mem_cons.mp each
    obtain ⟨freeHere,freeOthers⟩ := List.forall_mem_cons.mp free
    rw [List.pairwise_cons] at once
    have step : p.bindOne g start feed = .ok (start ++ [((n.id : Int),t)]) :=
      bindOne_ok.mpr ⟨n,t,resolved,designated,freeHere n resolved,received,rfl⟩
    have later : ∀ other ∈ feeds, ∀ m, g.resolve other.1 = .ok m →
        (start ++ [((n.id : Int),t)]).lookup (m.id : Int) = none := by
      intro other member m resolved'
      have different := once.1 other member n m resolved resolved'
      have absent : ((m.id : Int) == (n.id : Int)) = false := by
        rw [beq_eq_false_iff_ne]
        omega
      rw [List.lookup_append,freeOthers other member m resolved']
      simp [List.lookup_cons,absent]
    obtain ⟨bound,ran⟩ := ih _ others once.2 later
    exact ⟨bound,by rw [List.foldlM_cons,step]; exact ran⟩

theorem bind_ok_iff {feeds : Feeds} : p.bind g feeds = .ok bound ↔
    (Feeds.collapse feeds).foldlM (p.bindOne g) [] = .ok bound ∧
      ∀ id ∈ p.required, (bound.lookup id).isSome = true := by
  have complete : (p.required.filter fun id => (bound.lookup id).isNone).isEmpty = true ↔
      ∀ id ∈ p.required, (bound.lookup id).isSome = true := by
    rw [List.isEmpty_iff,List.filter_eq_nil_iff]
    refine forall₂_congr fun id _ => ?_
    cases bound.lookup id <;> simp
  unfold bind
  rw [Outcome.bind_ok]
  constructor
  · rintro ⟨found,ran,checked⟩
    dsimp only at checked
    split at checked
    · rename_i none
      cases checked
      exact ⟨ran,complete.mp none⟩
    · obtain ⟨names,-,checked⟩ := Outcome.bind_ok.mp checked
      cases checked
  · rintro ⟨ran,all⟩
    refine ⟨bound,ran,?_⟩
    dsimp only
    rw [if_pos (complete.mpr all)]
    rfl

-- What is bound after all: the tensors received from the feeds, at inputs of the graph.
theorem bind_lookup (wired : g.Wired) {feeds : Feeds} (accepted : p.bind g feeds = .ok bound)
    (id : Int) (t : Tensor) : bound.lookup id = some t ↔
      g.isInput id = true ∧ ∃ n value, g.get? id = some n ∧ Gives g feeds id value ∧
        p.receive g n value = .ok t := by
  rw [foldlM_bindOne (bind_ok_iff.mp accepted).1]
  constructor
  · rintro (none | ⟨⟨ref,value⟩,member,n,resolved,rfl,designated,received⟩)
    · cases none
    · exact ⟨designated,n,value,resolve_known wired.numbered resolved,⟨ref,n,member,resolved,rfl⟩,received⟩
  · rintro ⟨designated,n,value,found,⟨ref,m,member,resolved,rfl⟩,received⟩
    rw [resolve_known wired.numbered resolved] at found
    cases found
    exact .inr ⟨(ref,value),member,_,resolved,rfl,designated,received⟩

theorem bind_required {feeds : Feeds} (accepted : p.bind g feeds = .ok bound) :
    ∀ id ∈ p.required, (bound.lookup id).isSome = true := (bind_ok_iff.mp accepted).2

-- Mappings that give the required inputs the same values bind the same tensors to them.
theorem bind_agree (wired : g.Wired) {feeds feeds' : Feeds} {bound' : Bindings}
    (accepted : p.bind g feeds = .ok bound) (accepted' : p.bind g feeds' = .ok bound')
    (agree : ∀ id ∈ p.required, ∀ value, Gives g feeds id value ↔ Gives g feeds' id value) :
    ∀ id ∈ p.required, bound.lookup id = bound'.lookup id := by
  intro id member
  apply Option.ext
  intro t
  rw [bind_lookup wired accepted,bind_lookup wired accepted']
  simp only [agree id member]

end TensorGraph.Plan
