import TensorGraph.Proofs.Graph.Calls

namespace TensorGraph.Graph
open Outcome
open Relation (ReflTransGen)

variable {g g' : Graph} {o : Outlet}

theorem find?_none {name : String} : g.find? name = none ↔ ∀ n ∈ g.nodes, n.name ≠ name := by
  unfold find?
  rw [List.find?_eq_none]
  simp

theorem addNode_ok {op : Operator} {sources : List Outlet} {name : String} {number : Nat} :
    g.addNode op sources (some name) = .ok (g',number) ↔ (∀ o ∈ sources, g.HasOutlet o) ∧
      (∀ n ∈ g.nodes, n.name ≠ name) ∧ number = g.size ∧
      g' = { g with nodes := g.nodes ++ [⟨g.size,name,op,sources⟩] } := by
  rw [←find?_none]
  constructor
  · intro added
    obtain ⟨⟨⟩,checked,added⟩ := bind_ok.mp added
    dsimp only [Option.getD_some] at added
    split at added
    · cases added
    · rename_i fresh
      cases added
      exact ⟨checkOutlets_ok (fun _ _ => checkOutlet_ok.mp) checked,fresh,rfl,rfl⟩
  · rintro ⟨exist,fresh,rfl,rfl⟩
    unfold addNode
    rw [checkOutlets_of (fun _ _ => checkOutlet_ok.mpr) exist,ok_bind,Option.getD_some]
    dsimp only
    rw [fresh]
    rfl

-- A search that sets out from nodes the target is not needed by comes to an end without it.
theorem reachesFrom_false (wired : g.Wired) {start target : Int} (apart : ¬ ReflTransGen g.Needs start target)
    {fuel : Nat} {seen stack : List Int} (known : ∀ id ∈ stack, g.Known id)
    (inside : ∀ id ∈ stack, ReflTransGen g.Needs start id) : g.reachesFrom target fuel seen stack = .ok false := by
  induction fuel generalizing seen stack with
  | zero => cases stack <;> rfl
  | succ fuel ih =>
    cases stack with
    | nil => rfl
    | cons id stack =>
      obtain ⟨here,knownRest⟩ := List.forall_mem_cons.mp known
      obtain ⟨path,insideRest⟩ := List.forall_mem_cons.mp inside
      unfold reachesFrom
      rw [if_neg (by rintro rfl; exact apart path)]
      split
      · exact ih knownRest insideRest
      · obtain ⟨n,found⟩ := here
        rw [referred_known found]
        refine ih ?_ ?_
        · intro m member
          rcases List.mem_append.mp member with new | old
          · exact wired.producers_known found m (List.mem_reverse.mp new)
          · exact knownRest m old
        · intro m member
          rcases List.mem_append.mp member with new | old
          · exact path.tail (needs_iff.mpr ⟨n,found,List.mem_reverse.mp new⟩)
          · exact insideRest m old

-- A search among nodes that exist always comes to an end.
theorem reachesFrom_total (wired : g.Wired) (target : Int) {fuel : Nat} {seen stack : List Int}
    (known : ∀ id ∈ stack, g.Known id) : ∃ b, g.reachesFrom target fuel seen stack = .ok b := by
  induction fuel generalizing seen stack with
  | zero => cases stack <;> exact ⟨false,rfl⟩
  | succ fuel ih =>
    cases stack with
    | nil => exact ⟨false,rfl⟩
    | cons id stack =>
      obtain ⟨here,rest⟩ := List.forall_mem_cons.mp known
      unfold reachesFrom
      split
      · exact ⟨true,rfl⟩
      · split
        · exact ih rest
        · obtain ⟨n,found⟩ := here
          rw [referred_known found]
          refine ih fun m member => ?_
          rcases List.mem_append.mp member with new | old
          · exact wired.producers_known found m (List.mem_reverse.mp new)
          · exact rest m old

theorem addEdge_ok {source : Outlet} {target : Inlet} {n : Node} (wired : g.Wired) (has : g.HasOutlet source)
    (found : g.get? target.node = some n) (free : g.isInput target.node = false) (low : 0 ≤ target.position)
    (high : target.position ≤ n.inputs.length) (apart : ¬ ReflTransGen g.Needs source.node target.node) :
    g.addEdge source target = .ok (g.setInput source n.id target.position.toNat) := by
  have known : g.Known source.node := by
    obtain ⟨p,found,-⟩ := has
    exact ⟨p,found⟩
  have searched : g.reaches source.node target.node = .ok false :=
    reachesFrom_false wired apart (by simpa using known) (by simpa using ReflTransGen.refl)
  exact addEdge_iff.mpr ⟨has,n,found,free,low,high,searched,rfl⟩

theorem designateOutput_ok : g.designateOutput o = .ok g' ↔ g.HasOutlet o ∧
    g' = if g.outputs.contains o then g else { g with outputs := g.outputs ++ [o] } := by
  unfold designateOutput
  rw [bind_ok]
  constructor
  · rintro ⟨⟨⟩,checked,equal⟩
    cases equal
    exact ⟨checkOutlet_ok.mp checked,rfl⟩
  · rintro ⟨has,rfl⟩
    exact ⟨(),checkOutlet_ok.mpr has,rfl⟩

end TensorGraph.Graph
