import TensorGraph.Proofs.Graph.Calls
import TensorGraph.Proofs.Graph.Scheduling
import TensorGraph.Proofs.Raises

namespace TensorGraph.Graph
open Outcome
open Relation (TransGen)

-- A graph whose node takes from other outlets, whatever they are.
def overwritten (g : Graph) (id : Nat) (sources : List Outlet) : Graph :=
  { g with nodes := g.nodes.map fun n => if n.id = id then { n with inputs := sources } else n }

-- States of a graph that is built by calls while the inputs of its nodes are overwritten without them.
inductive Altered : Graph → Prop where
  | empty (serial : Nat) (name : String) : Altered (empty serial name)
  | call (c : Call) : Altered g → Altered (g.attempt c)
  | overwrite (id : Nat) (sources : List Outlet) : Altered g → Altered (g.overwritten id sources)

variable {g g' : Graph}

-- What is left of the invariant then: numbers are positions, and designated inputs are nodes.
structure Designated (g : Graph) : Prop where
  numbered : g.Numbered
  inputs : ∀ id ∈ g.inputs, g.Known id

theorem Known.kept {id : Int} (known : g.Known id) (kept : Kept g g') : g'.Known id := by
  obtain ⟨n,found⟩ := known
  obtain ⟨i,rfl,at_⟩ := get?_some.mp found
  obtain ⟨n',at',-⟩ := kept i n at_
  exact ⟨n',get?_some.mpr ⟨i,rfl,at'⟩⟩

theorem Designated.kept (designated : g.Designated) (numbered : g'.Numbered) (inputs : g'.inputs = g.inputs)
    (kept : Kept g g') : g'.Designated :=
  ⟨numbered,fun id member => (designated.inputs id (inputs ▸ member)).kept kept⟩

theorem overwritten_designated (designated : g.Designated) (id : Nat) (sources : List Outlet) :
    (g.overwritten id sources).Designated := by
  refine designated.kept (fun i m at_ => ?_) rfl fun i n at_ => ?_
  · rw [overwritten,List.getElem?_map,Option.map_eq_some_iff] at at_
    obtain ⟨n,known,rfl⟩ := at_
    rw [← designated.numbered i n known]
    split <;> rfl
  · refine ⟨_,by rw [overwritten,List.getElem?_map,at_]; rfl,?_⟩
    dsimp only
    split <;> rfl

theorem attempt_designated (designated : g.Designated) (c : Call) : (g.attempt c).Designated := by
  unfold attempt
  split
  · rename_i g' applied
    cases c with
    | addNode op sources label =>
      obtain ⟨⟨_,number⟩,added,rfl⟩ := map_ok.mp applied
      have numbered := addNode_numbered designated.numbered added
      obtain ⟨-,-,name,-,rfl⟩ := addNode_parts added
      exact designated.kept numbered rfl fun i n at_ => ⟨n,addNode_kept i n at_,rfl⟩
    | addEdge source target =>
      obtain ⟨-,t,-,-,-,rfl⟩ := addEdge_parts applied
      exact designated.kept (setInput_numbered designated.numbered _ _ _) rfl (setInput_kept _ _ _)
    | designateInput id fact =>
      obtain ⟨⟨_,_⟩,entered,rfl⟩ := map_ok.mp applied
      obtain ⟨n,found,-,nodes,members⟩ := designateInput_parts entered
      refine ⟨fun i m at_ => designated.numbered i m (nodes ▸ at_),fun p member => ?_⟩
      rcases members p member with old | rfl
      · exact (designated.inputs p old).kept (kept_of_nodes nodes)
      · exact Known.kept ⟨n,found⟩ (kept_of_nodes nodes)
    | designateOutput o =>
      obtain ⟨nodes,inputs⟩ := designateOutput_parts applied
      exact designated.kept (fun i m at_ => designated.numbered i m (nodes ▸ at_)) inputs (kept_of_nodes nodes)
  · exact designated

theorem altered_designated (altered : Altered g) : g.Designated := by
  induction altered with
  | empty => exact ⟨(empty_wired _ _).numbered,fun _ member => nomatch member⟩
  | call c _ designated => exact attempt_designated designated c
  | overwrite id sources _ designated => exact overwritten_designated designated id sources

-- What the unchecked change of one input leads to is among these states.
theorem overwriteInput_altered (altered : Altered g) (overwrote : g.overwriteInput source target = .ok g') :
    Altered g' := by
  have numbered := (altered_designated altered).numbered
  unfold overwriteInput at overwrote
  obtain ⟨n,found,overwrote⟩ := bind_ok.mp overwrote
  dsimp only at overwrote
  generalize (if target.position < 0 then target.position + (n.inputs.length : Int) else target.position) =
    position at overwrote
  split at overwrote
  · cases overwrote
  cases overwrote
  have only {m : Node} (member : m ∈ g.nodes) (here : m.id = n.id) : m = n := by
    have known : n ∈ g.nodes := by
      unfold referred at found
      split at found
      · rename_i at_
        cases found
        exact get?_mem at_
      · cases found
    exact Option.some.inj ((numbered.get?_id member).symm.trans (here ▸ numbered.get?_id known))
  have same : g.setInput source n.id position.toNat = g.overwritten n.id
      (if position.toNat = n.inputs.length then n.inputs ++ [source] else n.inputs.set position.toNat source) := by
    rw [setInput,overwritten]
    congr 1
    refine List.map_congr_left fun m member => ?_
    split
    · rename_i here
      rw [only member here]
    · rfl
  exact same ▸ .overwrite _ _ altered

-- An order of all nodes leaves no room for a loop.
theorem acyclic_of_ordered {line : List Int} (ordered : Ordered g.sourcesOf line)
    (all : ∀ id, g.Known id → id ∈ line) : g.Acyclic := by
  have earlier {a b : Int} (needs : g.Needs a b) : line.idxOf b < line.idxOf a := by
    obtain ⟨n,found,-⟩ := needs_iff.mp needs
    exact idxOf_lt (all a ⟨n,found⟩) fun before rest split => ordered before a rest split b needs
  have descends {a b : Int} (path : TransGen g.Needs a b) : line.idxOf b < line.idxOf a := by
    induction path with
    | single step => exact earlier step
    | tail _ step ih => exact (earlier step).trans ih
  exact fun id loop => Nat.lt_irrefl _ (descends loop)

-- A search among nodes that exist fails only where it comes back to its path.
theorem depthFirst_raises (rooted : g.Rooted) {fuel : Nat} {done : List Int} {path : List (Node × List Int)}
    (known : ∀ frame ∈ path, ∀ m ∈ frame.2, g.Known m) : Raises (· = .cycle) (g.depthFirst fuel done path) := by
  induction fuel generalizing done path with
  | zero => cases path <;> exact raises_ok _
  | succ fuel ih =>
    match path with
    | [] => exact raises_ok _
    | (n,[]) :: path => exact ih (List.forall_mem_cons.mp known).2
    | (n,m :: ms) :: path =>
      obtain ⟨here,later⟩ := List.forall_mem_cons.mp known
      obtain ⟨next,rest⟩ := List.forall_mem_cons.mp here
      unfold depthFirst
      split
      · exact (raises_error _).mpr rfl
      split
      · exact ih (List.forall_mem_cons.mpr ⟨rest,later⟩)
      · obtain ⟨p,found⟩ := next
        rw [referred_known found]
        exact ih (List.forall_mem_cons.mpr ⟨rooted.producers_known found,List.forall_mem_cons.mpr ⟨rest,later⟩⟩)

theorem checkAcyclic_raises (rooted : g.Rooted) : Raises (· = .cycle) g.checkAcyclic := by
  refine Raises.bind (raises_foldlM (fun done n member => ?_) []) fun _ _ => raises_ok _
  split
  · exact raises_ok _
  · exact depthFirst_raises rooted (List.forall_mem_singleton.mpr
      (rooted.producers_known (rooted.numbered.get?_id member)))

theorem checkAcyclic_iff (rooted : g.Rooted) : g.checkAcyclic = .ok () ↔ g.Acyclic := by
  refine ⟨fun checked => ?_,checkAcyclic_ok rooted⟩
  obtain ⟨line,ordered,all⟩ := checkAcyclic_order rooted checked
  exact acyclic_of_ordered ordered all

theorem checkAcyclic_cycle (rooted : g.Rooted) : (∃ e, g.checkAcyclic = .error e ∧ e.kind = .cycle) ↔ ¬ g.Acyclic := by
  rw [← checkAcyclic_iff rooted]
  constructor
  · rintro ⟨e,failed,-⟩ checked
    cases failed.symm.trans checked
  · intro open_
    cases checked : g.checkAcyclic with
    | ok => exact absurd checked open_
    | error e => exact ⟨e,rfl,checkAcyclic_raises rooted e checked⟩

-- Where all nodes are ordered and nothing is a boundary, the edges that count are all edges.
theorem unlooped_iff : g.Unlooped none [] ↔ g.Acyclic := by
  have same : (fun a b => g.Wanted [] none a ∧ g.Follows [] a b) = g.Needs := by
    funext a b
    refine propext ⟨fun step => step.2.2,fun needs => ?_⟩
    obtain ⟨n,found,-⟩ := needs_iff.mp needs
    exact ⟨⟨n,found⟩,List.not_mem_nil,needs⟩
  unfold Unlooped Acyclic
  rw [same]

theorem topologicalOrder_cycle (rooted : g.Rooted) :
    (∃ e, g.topologicalOrder none [] = .error e ∧ e.kind = .cycle) ↔ ¬ g.Acyclic := by
  have untold : ∀ outlets, (none : Option (List Outlet)) = some outlets → ∀ o ∈ outlets, g.Known o.node := nofun
  obtain ⟨wanted,sorted,members,equal⟩ := topologicalOrder_settles [] rooted untold
  rw [equal]
  constructor
  · rintro ⟨e,failed,-⟩ acyclic
    rw [if_pos (settle_unlooped rooted (unlooped_iff.mpr acyclic) members)] at failed
    cases failed
  · intro looped
    have left := fun complete => looped (unlooped_iff.mp (settle_arranged rooted sorted members complete).unlooped)
    rw [if_neg left]
    exact ⟨_,rfl,rfl⟩

theorem checkNode_ok {n : Node} : g.checkNode n = .ok () ↔ (∀ o ∈ n.inputs, g.HasOutlet o) ∧
    (g.isInput n.id = true ∨ n.operator.acceptsArity n.inputs.length = true) := by
  unfold checkNode
  constructor
  · intro checked
    obtain ⟨⟨⟩,sources,arity⟩ := bind_ok.mp checked
    refine ⟨checkOutlets_ok (fun _ _ => checkOutlet_ok.mp) sources,?_⟩
    split at arity
    · rename_i accepted
      simpa using accepted
    · cases arity
  · rintro ⟨exist,accepted⟩
    refine bind_ok.mpr ⟨(),checkOutlets_of (fun _ _ => checkOutlet_ok.mpr) exist,?_⟩
    rw [if_pos (by simpa using accepted)]
    rfl

-- Designated inputs that are nodes are checked to have no producers.
theorem inputs_checked (designated : g.Designated) : (g.inputs.forM fun id => do
      unless (← g.referred id).inputs.isEmpty do
        .error ((Cause.inputHasProducers : Fault).at? id none)) = (.ok () : Outcome Unit) ↔ g.Entered := by
  rw [forM_ok]
  refine forall₂_congr fun id member => ?_
  obtain ⟨n,found⟩ := designated.inputs id member
  rw [referred_known found,ok_bind]
  constructor
  · intro checked
    split at checked
    · rename_i none
      exact ⟨n,found,by simpa using none⟩
    · cases checked
  · rintro ⟨m,again,none⟩
    cases found.symm.trans again
    rw [none]
    rfl

theorem validate_ok (designated : g.Designated) : g.validate = .ok () ↔
    (∀ n ∈ g.nodes, ∀ o ∈ n.inputs, g.HasOutlet o) ∧
    (∀ n ∈ g.nodes, g.isInput n.id = false → n.operator.acceptsArity n.inputs.length = true) ∧
    g.Entered ∧ (∀ o ∈ g.outputs, g.HasOutlet o) ∧ g.Acyclic := by
  have nodes : g.nodes.forM g.checkNode = .ok () ↔ (∀ n ∈ g.nodes, ∀ o ∈ n.inputs, g.HasOutlet o) ∧
      ∀ n ∈ g.nodes, g.isInput n.id = false → n.operator.acceptsArity n.inputs.length = true := by
    rw [forM_ok,← forall₂_and]
    refine forall₂_congr fun n _ => checkNode_ok.trans (and_congr_right fun _ => ?_)
    cases g.isInput n.id <;> simp
  have outputs : g.outputs.forM (g.checkOutlet "graph output") = .ok () ↔ ∀ o ∈ g.outputs, g.HasOutlet o := by
    rw [forM_ok]
    exact forall₂_congr fun o _ => checkOutlet_ok
  have wired (sources : ∀ n ∈ g.nodes, ∀ o ∈ n.inputs, g.HasOutlet o) : g.Rooted :=
    (Wired.mk designated.numbered sources).rooted
  unfold validate
  constructor
  · intro valid
    obtain ⟨⟨⟩,first,valid⟩ := bind_ok.mp valid
    obtain ⟨⟨⟩,second,valid⟩ := bind_ok.mp valid
    obtain ⟨⟨⟩,third,acyclic⟩ := bind_ok.mp valid
    obtain ⟨sources,arities⟩ := nodes.mp first
    exact ⟨sources,arities,(inputs_checked designated).mp second,outputs.mp third,
      (checkAcyclic_iff (wired sources)).mp acyclic⟩
  · rintro ⟨sources,arities,entered,exits,acyclic⟩
    refine bind_ok.mpr ⟨(),nodes.mpr ⟨sources,arities⟩,bind_ok.mpr ⟨(),(inputs_checked designated).mpr entered,?_⟩⟩
    exact bind_ok.mpr ⟨(),outputs.mpr exits,(checkAcyclic_iff (wired sources)).mpr acyclic⟩

-- Whatever the inputs of the nodes were overwritten with, a graph is valid exactly if its edges come from
-- outlets that exist and as many as their nodes take, no designated input has producers, designated outputs
-- exist and no node needs itself; and where edges come from nodes, both searches find a loop if there is one.
theorem validate_decides (altered : Altered g) :
    (g.validate = .ok () ↔
      (∀ n ∈ g.nodes, ∀ o ∈ n.inputs, g.HasOutlet o) ∧
      (∀ n ∈ g.nodes, g.isInput n.id = false → n.operator.acceptsArity n.inputs.length = true) ∧
      (∀ id ∈ g.inputs, ∃ n, g.get? id = some n ∧ n.inputs = []) ∧
      (∀ o ∈ g.outputs, g.HasOutlet o) ∧ ∀ id, ¬ TransGen g.Needs id id) ∧
    ((∀ n ∈ g.nodes, ∀ o ∈ n.inputs, g.Known o.node) →
      ((∃ e, g.checkAcyclic = .error e ∧ e.kind = .cycle) ↔ ∃ id, TransGen g.Needs id id) ∧
      ((∃ e, g.topologicalOrder none [] = .error e ∧ e.kind = .cycle) ↔ ∃ id, TransGen g.Needs id id)) := by
  have designated := altered_designated altered
  refine ⟨validate_ok designated,fun sources => ?_⟩
  have rooted : g.Rooted := ⟨designated.numbered,sources⟩
  have looped : ¬ g.Acyclic ↔ ∃ id, TransGen g.Needs id id := not_forall_not
  exact ⟨(checkAcyclic_cycle rooted).trans looped,(topologicalOrder_cycle rooted).trans looped⟩

-- Two nodes made to take from each other, and one that takes from the first of them twice.
def knotted : Graph :=
  let single := (empty 0 "knot").attempt (.addNode Op.identity.operator [] "a")
  let chain := single.attempt (.addNode Op.identity.operator [⟨0,0⟩] "b")
  (chain.attempt (.addNode Op.addN.operator [⟨0,0⟩,⟨0,0⟩] "c")).overwritten 0 [⟨1,0⟩]

theorem knotted_nodes : knotted.nodes = [⟨0,"a",Op.identity.operator,[⟨1,0⟩]⟩,
    ⟨1,"b",Op.identity.operator,[⟨0,0⟩]⟩,⟨2,"c",Op.addN.operator,[⟨0,0⟩,⟨0,0⟩]⟩] := rfl

theorem validate_decides_knotted : Altered knotted ∧ (∀ n ∈ knotted.nodes, ∀ o ∈ n.inputs, knotted.Known o.node) ∧
    knotted.validate ≠ .ok () ∧ (∃ e, knotted.checkAcyclic = .error e ∧ e.kind = .cycle) ∧
    ∃ e, knotted.topologicalOrder none [] = .error e ∧ e.kind = .cycle := by
  have altered : Altered knotted := .overwrite _ _ (.call _ (.call _ (.call _ (.empty _ _))))
  have sources : ∀ n ∈ knotted.nodes, ∀ o ∈ n.inputs, knotted.Known o.node := by
    intro n member o source
    unfold Known get?
    simp only [knotted_nodes,List.mem_cons,List.not_mem_nil,or_false] at member ⊢
    rcases member with rfl | rfl | rfl <;> simp at source <;> cases source <;> exact ⟨_,rfl⟩
  have loop : TransGen knotted.Needs 0 0 :=
    .tail (.single (needs_iff.mpr ⟨_,rfl,List.mem_cons_self⟩)) (needs_iff.mpr ⟨_,rfl,List.mem_cons_self⟩)
  obtain ⟨valid,searches⟩ := validate_decides altered
  obtain ⟨depth,order⟩ := searches sources
  refine ⟨altered,sources,fun checked => ?_,depth.mpr ⟨0,loop⟩,order.mpr ⟨0,loop⟩⟩
  obtain ⟨-,-,-,-,acyclic⟩ := valid.mp checked
  exact acyclic 0 loop

end TensorGraph.Graph
