import TensorGraph.Proofs.Graph.Growth

namespace TensorGraph
open Outcome

-- Nodes that differ in nothing but their names.
structure Node.Like (n n' : Node) : Prop where
  id : n.id = n'.id
  operator : n.operator = n'.operator
  inputs : n.inputs = n'.inputs

theorem Node.Like.symm {n n' : Node} (like : n.Like n') : n'.Like n :=
  ⟨like.id.symm,like.operator.symm,like.inputs.symm⟩

namespace Graph

variable {g g' h : Graph} {op : Operator} {sources : List Outlet} {x x' : String} {number : Nat} {o : Outlet} {id : Int}
  {n : Node}

-- Graphs that differ in nothing but the names of their nodes, and in what tells graphs apart.
structure Relabelled (g g' : Graph) : Prop where
  name : g.name = g'.name
  nodes : List.Forall₂ Node.Like g.nodes g'.nodes
  entries : g.inputFacts = g'.inputFacts
  exits : g.outputs = g'.outputs

theorem Relabelled.symm (same : g.Relabelled g') : g'.Relabelled g :=
  ⟨same.name.symm,(same.nodes.imp fun _ _ => Node.Like.symm).flip,same.entries.symm,same.exits.symm⟩

theorem Relabelled.size (same : g.Relabelled g') : g.size = g'.size := same.nodes.length_eq

theorem Relabelled.get? (same : g.Relabelled g') (found : g.get? id = some n) :
    ∃ n', g'.get? id = some n' ∧ n.Like n' := by
  obtain ⟨i,rfl,at_⟩ := get?_some.mp found
  obtain ⟨n',at',like⟩ := forall₂_getElem? same.nodes.flip at_
  exact ⟨n',get?_some.mpr ⟨i,rfl,at'⟩,like⟩

theorem Relabelled.outlet (same : g.Relabelled g') (has : g.HasOutlet o) : g'.HasOutlet o := by
  obtain ⟨n,found,low,high⟩ := has
  obtain ⟨n',found',like⟩ := same.get? found
  exact ⟨n',found',low,like.operator ▸ high⟩

theorem Relabelled.isInput (same : g.Relabelled g') (id : Int) : g.isInput id = g'.isInput id := by
  unfold Graph.isInput Graph.inputs
  rw [same.entries]

theorem Relabelled.referred (same : g.Relabelled g') (id : Int) :
    (∃ n n', g.referred id = .ok n ∧ g'.referred id = .ok n' ∧ n.Like n') ∨
      ∃ e, g.referred id = .error e ∧ g'.referred id = .error e := by
  unfold Graph.referred
  rw [← same.size]
  generalize (if id < 0 then id + (g.size : Int) else id) = at_
  cases first : g.get? at_ with
  | some n =>
    obtain ⟨n',second,like⟩ := same.get? first
    rw [second]
    exact .inl ⟨n,n',rfl,rfl,like⟩
  | none =>
    cases second : g'.get? at_ with
    | none => exact .inr ⟨_,rfl,rfl⟩
    | some n' =>
      obtain ⟨n,back,-⟩ := same.symm.get? second
      cases first.symm.trans back

-- A search does not look at names.
theorem Relabelled.reachesFrom (same : g.Relabelled g') (target : Int) (fuel : Nat) (seen stack : List Int) :
    g.reachesFrom target fuel seen stack = g'.reachesFrom target fuel seen stack := by
  induction fuel generalizing seen stack with
  | zero => cases stack <;> rfl
  | succ fuel ih =>
    cases stack with
    | nil => rfl
    | cons id stack =>
      unfold Graph.reachesFrom
      rw [ih]
      rcases same.referred id with ⟨n,n',first,second,like⟩ | ⟨e,first,second⟩
      · have producers : producers n = producers n' := congrArg (List.map Outlet.node) like.inputs
        rw [first,second]
        dsimp only
        rw [producers,ih]
      · rw [first,second]

theorem Relabelled.reaches (same : g.Relabelled g') (start target : Int) : g.reaches start target = g'.reaches start target := by
  have count : g.edgeCount = g'.edgeCount :=
    congrArg (List.foldr (· + ·) 0) (forall₂_map same.nodes fun _ _ like => congrArg List.length like.inputs)
  unfold Graph.reaches walkBound
  rw [count]
  exact same.reachesFrom _ _ _ _

theorem Relabelled.setInput (same : g.Relabelled g') (source : Outlet) (id position : Nat) :
    (g.setInput source id position).Relabelled (g'.setInput source id position) := by
  refine ⟨same.name,?_,same.entries,same.exits⟩
  unfold Graph.setInput
  rw [List.forall₂_map_left_iff,List.forall₂_map_right_iff]
  refine same.nodes.imp fun n n' like => ?_
  rw [like.id,like.inputs]
  split
  · exact ⟨rfl,like.operator,rfl⟩
  · exact like

theorem Relabelled.addEdge {source : Outlet} {target : Inlet} (same : g.Relabelled g')
    (added : g.addEdge source target = .ok h) : ∃ h', g'.addEdge source target = .ok h' ∧ h.Relabelled h' := by
  obtain ⟨has,n,found,free,low,high,searched,rfl⟩ := addEdge_iff.mp added
  obtain ⟨n',found',like⟩ := same.get? found
  refine ⟨_,addEdge_iff.mpr ⟨same.outlet has,n',found',same.isInput _ ▸ free,low,like.inputs ▸ high,
    same.reaches _ _ ▸ searched,rfl⟩,?_⟩
  rw [like.id]
  exact same.setInput _ _ _

theorem Relabelled.valid (same : g.Relabelled g') (inv : g.Invariant) (inv' : g'.Invariant)
    (valid : g.validate = .ok ()) : g'.validate = .ok () := by
  rw [validate_ok_iff inv] at valid
  refine (validate_ok_iff inv').mpr fun n' member' => ?_
  obtain ⟨n,member,like⟩ := forall₂_right same.nodes n' member'
  rw [← same.isInput,← like.id,← like.operator,← like.inputs]
  exact valid n member

end Graph

end TensorGraph
