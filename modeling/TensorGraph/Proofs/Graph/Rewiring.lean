import TensorGraph.Op
import TensorGraph.Proofs.Graph.Growth

namespace TensorGraph

-- A node with another outlet at one position; the position after the last is one more.
def Node.taking (n : Node) (position : Nat) (source : Outlet) : Node :=
  { n with inputs := n.inputs.take position ++ source :: n.inputs.drop (position + 1) }

theorem Node.taking_at (n : Node) {position : Nat} (source : Outlet) (high : position ≤ n.inputs.length) :
    (n.taking position source).inputs[position]? = some source := by
  unfold taking
  rw [List.getElem?_append_right (by simp),List.length_take,Nat.min_eq_left high]
  simp

theorem Node.taking_else (n : Node) {position k : Nat} (source : Outlet) (high : position ≤ n.inputs.length)
    (other : k ≠ position) : (n.taking position source).inputs[k]? = n.inputs[k]? := by
  unfold taking
  rcases Nat.lt_or_gt_of_ne other with before | behind
  · rw [List.getElem?_append_left (by simp; omega),List.getElem?_take_of_lt before]
  · obtain ⟨j,rfl⟩ := Nat.exists_eq_add_of_lt behind
    rw [List.getElem?_append_right (by simp; omega),List.length_take,Nat.min_eq_left high,
      show position + j + 1 - position = j + 1 by omega,List.getElem?_cons_succ,List.getElem?_drop]
    congr 1
    omega

namespace Graph
open Outcome
open Relation (TransGen ReflTransGen)

variable {g : Graph} {n : Node} {source : Outlet} {target : Inlet}

-- A graph in which one position of a node takes from another outlet, and nothing else is changed.
def rewired (g : Graph) (n : Node) (position : Nat) (source : Outlet) : Graph :=
  { g with nodes := g.nodes.set n.id (n.taking position source) }

theorem rewired_get? (numbered : g.Numbered) {id : Int} (found : g.get? id = some n) (position : Nat)
    (source : Outlet) (other : Int) :
    (g.rewired n position source).get? other = if other = id then some (n.taking position source) else g.get? other := by
  obtain ⟨i,rfl,at_⟩ := get?_some.mp found
  have number := numbered i n at_
  unfold get? rewired
  split
  · rename_i negative
    rw [if_neg (by omega)]
  · rename_i positive
    rw [List.getElem?_set,number]
    by_cases here : other = i
    · subst here
      rw [if_pos (by simp),if_pos rfl,if_pos (List.getElem?_eq_some_iff.mp at_).1]
    · rw [if_neg (by omega),if_neg here]

theorem setInput_eq (numbered : g.Numbered) {id : Int} (found : g.get? id = some n) {position : Nat}
    (source : Outlet) (high : position ≤ n.inputs.length) :
    g.setInput source n.id position = g.rewired n position source := by
  obtain ⟨i,rfl,at_⟩ := get?_some.mp found
  have number := numbered i n at_
  have taken : (if position = n.inputs.length then n.inputs ++ [source] else n.inputs.set position source) =
      (n.taking position source).inputs := by
    unfold Node.taking
    split
    · rename_i last
      subst last
      simp
    · rw [List.set_eq_take_append_cons_drop,if_pos (by omega)]
  rw [setInput,rewired]
  congr 1
  refine List.ext_getElem? fun k => ?_
  rw [List.getElem?_map,List.getElem?_set]
  split
  · rename_i here
    rw [← here,number,at_,if_pos (List.getElem?_eq_some_iff.mp at_).1,Option.map_some,if_pos number,taken]
    rfl
  · rename_i other
    cases there : g.nodes[k]? with
    | none => rfl
    | some m => rw [Option.map_some,if_neg (by rw [numbered k m there]; exact fun same => other same.symm)]

-- A path to the target that stops where it first gets there does not look at what the target takes.
theorem reach_rewired (numbered : g.Numbered) (found : g.get? target.node = some n) (position : Nat)
    {start : Int} (path : ReflTransGen g.Needs start target.node) :
    ReflTransGen (g.rewired n position source).Needs start target.node := by
  induction path using ReflTransGen.head_induction_on with
  | refl => exact .refl
  | @head a b step _ ih =>
    by_cases here : a = target.node
    · rw [here]
    · obtain ⟨m,known,producer⟩ := needs_iff.mp step
      refine .head (needs_iff.mpr ⟨m,?_,producer⟩) ih
      rw [rewired_get? numbered found,if_neg here,known]

-- Where the source needs the target, the edge is refused, and in the graph with the edge the target would
-- need itself.
theorem addEdge_loop (wired : g.Wired) (has : g.HasOutlet source) (found : g.get? target.node = some n)
    (free : g.isInput target.node = false) (low : 0 ≤ target.position) (high : target.position ≤ n.inputs.length)
    (path : ReflTransGen g.Needs source.node target.node) :
    g.addEdge source target = n.fail (.edgeClosesCycle source.text target.text) ∧
      TransGen (g.rewired n target.position.toNat source).Needs target.node target.node := by
  constructor
  · obtain ⟨p,known,slot⟩ := has
    obtain ⟨met,searched⟩ : ∃ met, g.reaches source.node target.node = .ok met :=
      reachesFrom_total wired target.node (List.forall_mem_singleton.mpr ⟨p,known⟩)
    cases met with
    | false => exact absurd path (reaches_false wired ⟨p,known⟩ searched)
    | true =>
      unfold addEdge
      rw [checkOutlet_ok.mpr ⟨p,known,slot⟩,ok_bind,found]
      dsimp only
      rw [free,if_neg (by simp),searched]
      rw [if_neg (by simp [Int.not_lt.mpr low,Int.not_lt.mpr high])]
      rfl
  · refine .head' (needs_iff.mpr ⟨_,by rw [rewired_get? wired.numbered found,if_pos rfl],?_⟩)
      (reach_rewired wired.numbered found _ path)
    refine List.mem_map.mpr ⟨source,List.mem_of_getElem? (i := target.position.toNat) ?_,rfl⟩
    exact n.taking_at source (by omega)

-- An edge is refused exactly if it closes a loop in the graph it would make. Whatever it replaces neither
-- hides a loop nor feigns one; and if it is not refused nothing but the inlet has changed.
theorem addEdge_decides (built : Built g) (has : g.HasOutlet source) (found : g.get? target.node = some n)
    (free : g.isInput target.node = false) (low : 0 ≤ target.position) (high : target.position ≤ n.inputs.length) :
    let g' := g.rewired n target.position.toNat source
    ((∃ e, g.addEdge source target = .error e ∧ e.kind = .cycle) ↔ ∃ id, TransGen g'.Needs id id) ∧
    ((¬ ∃ e, g.addEdge source target = .error e ∧ e.kind = .cycle) → g.addEdge source target = .ok g' ∧ g'.Acyclic) ∧
    ∀ (id : Int) (k : Nat), ((g'.get? id).bind fun m => m.inputs[k]?) =
      if id = target.node ∧ (k : Int) = target.position then some source else (g.get? id).bind fun m => m.inputs[k]? := by
  intro g'
  have wired := built_wired built
  have inlets (id : Int) (k : Nat) : ((g'.get? id).bind fun m => m.inputs[k]?) =
      if id = target.node ∧ (k : Int) = target.position then some source else (g.get? id).bind fun m => m.inputs[k]? := by
    rw [rewired_get? wired.numbered found]
    by_cases here : id = target.node
    · subst here
      rw [if_pos rfl,found,Option.bind_some,Option.bind_some]
      by_cases at_ : (k : Int) = target.position
      · rw [if_pos ⟨rfl,at_⟩,show k = target.position.toNat by omega,n.taking_at source (by omega)]
      · rw [if_neg (at_ ·.2),n.taking_else source (by omega) (by omega)]
    · rw [if_neg here,if_neg (here ·.1)]
  by_cases path : ReflTransGen g.Needs source.node target.node
  · obtain ⟨refused,loop⟩ := addEdge_loop wired has found free low high path
    have raised : ∃ e, g.addEdge source target = .error e ∧ e.kind = .cycle := ⟨_,refused,rfl⟩
    exact ⟨⟨fun _ => ⟨_,loop⟩,fun _ => raised⟩,fun none => absurd raised none,inlets⟩
  · have added : g.addEdge source target = .ok g' := by
      rw [addEdge_ok wired has found free low high path,setInput_eq wired.numbered found source (by omega)]
    have acyclic := addEdge_acyclic wired (built_acyclic built) added
    refine ⟨⟨?_,fun ⟨id,loop⟩ => absurd loop (acyclic id)⟩,fun _ => ⟨added,acyclic⟩,inlets⟩
    rintro ⟨e,failed,-⟩
    cases added.symm.trans failed

-- A node that takes from another both directly and through a third.
def braced : Graph :=
  ⟨0,"brace",[⟨0,"a",Op.identity.operator,[]⟩,⟨1,"b",Op.identity.operator,[⟨0,0⟩]⟩,
    ⟨2,"c",Op.addN.operator,[⟨1,0⟩,⟨0,0⟩]⟩],[],[]⟩

theorem braced_built : Built braced := by
  have first : (empty 0 "brace").addNode Op.identity.operator [] (some "a") =
      .ok (⟨0,"brace",[⟨0,"a",Op.identity.operator,[]⟩],[],[]⟩,0) := rfl
  have second : (⟨0,"brace",[⟨0,"a",Op.identity.operator,[]⟩],[],[]⟩ : Graph).addNode Op.identity.operator [⟨0,0⟩]
      (some "b") = .ok ({ braced with nodes := braced.nodes.take 2 },1) := rfl
  have third : ({ braced with nodes := braced.nodes.take 2 } : Graph).addNode Op.addN.operator [⟨1,0⟩,⟨0,0⟩]
      (some "c") = .ok (braced,2) := rfl
  exact (((Built.empty 0 "brace").addNode first).addNode second).addNode third

-- Its middle node cannot take from it in place of the first, but it can itself take from the first twice.
theorem addEdge_decides_braced : Built braced ∧ braced.HasOutlet ⟨2,0⟩ ∧ braced.HasOutlet ⟨0,0⟩ ∧
    (∃ n, braced.get? 1 = some n ∧ n.inputs.length = 1) ∧ (∃ n, braced.get? 2 = some n ∧ n.inputs.length = 2) ∧
    (∃ e, braced.addEdge ⟨2,0⟩ ⟨1,0⟩ = .error e ∧ e.kind = .cycle) ∧
    ∃ g', braced.addEdge ⟨0,0⟩ ⟨2,0⟩ = .ok g' ∧ g'.Acyclic := by
  have last : braced.HasOutlet ⟨2,0⟩ := ⟨_,rfl,by decide,by decide⟩
  have first : braced.HasOutlet ⟨0,0⟩ := ⟨_,rfl,by decide,by decide⟩
  have middle : braced.get? (Inlet.node ⟨1,0⟩) = some ⟨1,"b",Op.identity.operator,[⟨0,0⟩]⟩ := rfl
  have join : braced.get? (Inlet.node ⟨2,0⟩) = some ⟨2,"c",Op.addN.operator,[⟨1,0⟩,⟨0,0⟩]⟩ := rfl
  have refused := addEdge_decides braced_built last middle rfl (by decide) (by decide)
  have added := addEdge_decides braced_built first join rfl (by decide) (by decide)
  refine ⟨braced_built,last,first,⟨_,rfl,rfl⟩,⟨_,rfl,rfl⟩,refused.1.mpr ⟨1,?_⟩,_,added.2.1 ?_⟩
  · exact .tail (.single (needs_iff.mpr ⟨_,rfl,List.mem_cons_self⟩)) (needs_iff.mpr ⟨_,rfl,List.mem_cons_self⟩)
  · obtain ⟨g',ran⟩ : ∃ g', braced.addEdge ⟨0,0⟩ ⟨2,0⟩ = .ok g' := ⟨_,rfl⟩
    rintro ⟨e,failed,-⟩
    cases ran.symm.trans failed

end Graph

end TensorGraph
