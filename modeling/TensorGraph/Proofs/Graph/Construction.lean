import Mathlib.Data.List.Nodup
import TensorGraph.Graph.Build
import TensorGraph.Proofs.Outcome

namespace TensorGraph
open Outcome

@[simp] theorem Node.fail_ne_ok (n : Node) (c : Cause) (a : α) : (n.fail c : Outcome α) ≠ .ok a := nofun
@[simp] theorem Node.fail_bind (n : Node) (c : Cause) (f : α → Outcome β) :
    ((n.fail c : Outcome α) >>= f) = n.fail c := by
  unfold Node.fail
  rw [error_bind]

theorem Node.mem_outlets {n : Node} {o : Outlet} :
    o ∈ n.outlets ↔ o.node = n.id ∧ 0 ≤ o.slot ∧ o.slot < n.operator.outputCount := by
  unfold Node.outlets
  rw [List.mem_map]
  constructor
  · rintro ⟨slot,within,rfl⟩
    rw [List.mem_range] at within
    exact ⟨rfl,by simp,by simpa using within⟩
  · rintro ⟨node,low,high⟩
    refine ⟨o.slot.toNat,List.mem_range.mpr (by omega),?_⟩
    cases o
    simp only [Outlet.mk.injEq]
    exact ⟨node.symm,Int.toNat_of_nonneg low⟩

theorem Node.outlets_length (n : Node) : n.outlets.length = n.operator.outputCount := by
  simp [Node.outlets]

theorem Node.outlets_nodup (n : Node) : n.outlets.Nodup := by
  unfold Node.outlets
  refine List.Nodup.map ?_ List.nodup_range
  intro i j equal
  cases equal
  rfl

namespace Graph

-- Graphs that the construction steps lead to. A step that fails leads nowhere, so the graph it
-- was tried on is still the one at hand.
inductive Built : Graph → Prop where
  | empty (serial : Nat) (name : String) : Built (empty serial name)
  | addNode {number : Nat} : Built g → g.addNode op sources label = .ok (g',number) → Built g'
  | addEdge : Built g → g.addEdge source target = .ok g' → Built g'
  | designateInput {number : Int} :
      Built g → g.designateInput number declared = .ok (g',fact) → Built g'
  | designateOutput : Built g → g.designateOutput o = .ok g' → Built g'

variable {g g' : Graph}

def Numbered (g : Graph) : Prop := ∀ (i : Nat) (n : Node), g.nodes[i]? = some n → n.id = i

def HasOutlet (g : Graph) (o : Outlet) : Prop :=
  ∃ n, g.get? o.node = some n ∧ 0 ≤ o.slot ∧ o.slot < n.operator.outputCount

-- Node numbers are positions, and inputs come from outlets that exist.
structure Wired (g : Graph) : Prop where
  numbered : g.Numbered
  sources : ∀ n ∈ g.nodes, ∀ o ∈ n.inputs, g.HasOutlet o

-- Designated inputs are nodes without producers.
def Entered (g : Graph) : Prop := ∀ id ∈ g.inputs, ∃ n, g.get? id = some n ∧ n.inputs = []

theorem get?_natCast (g : Graph) (i : Nat) : g.get? (i : Int) = g.nodes[i]? := by
  unfold get?
  rw [if_neg (by omega),Int.toNat_natCast]

theorem get?_some {g : Graph} {id : Int} {n : Node} :
    g.get? id = some n ↔ ∃ i : Nat, id = i ∧ g.nodes[i]? = some n := by
  unfold get?
  split
  · rename_i negative
    constructor
    · exact nofun
    · rintro ⟨i,rfl,-⟩; omega
  · rename_i positive
    constructor
    · intro found
      exact ⟨id.toNat,by omega,found⟩
    · rintro ⟨i,rfl,found⟩
      simpa using found

theorem node_ok {g : Graph} {id : Int} {n : Node} : g.node id = .ok n ↔ g.get? id = some n := by
  unfold node
  cases g.get? id <;> simp

theorem get?_mem {g : Graph} {id : Int} {n : Node} (found : g.get? id = some n) : n ∈ g.nodes := by
  obtain ⟨i,rfl,at_⟩ := get?_some.mp found
  exact List.mem_of_getElem? at_

theorem Numbered.id_eq {g : Graph} {id : Int} {n : Node} (numbered : g.Numbered)
    (found : g.get? id = some n) : (n.id : Int) = id := by
  obtain ⟨i,rfl,at_⟩ := get?_some.mp found
  rw [numbered i n at_]

theorem Numbered.get?_id {g : Graph} {n : Node} (numbered : g.Numbered) (member : n ∈ g.nodes) :
    g.get? n.id = some n := by
  obtain ⟨i,at_⟩ := List.mem_iff_getElem?.mp member
  rw [numbered i n at_,get?_natCast,at_]

theorem Numbered.hasOutlet_iff {g : Graph} (numbered : g.Numbered) {o : Outlet} :
    g.HasOutlet o ↔ ∃ n ∈ g.nodes, o ∈ n.outlets := by
  constructor
  · rintro ⟨n,found,low,high⟩
    exact ⟨n,get?_mem found,Node.mem_outlets.mpr ⟨(numbered.id_eq found).symm,low,high⟩⟩
  · rintro ⟨n,member,outlet⟩
    obtain ⟨node,low,high⟩ := Node.mem_outlets.mp outlet
    exact ⟨n,node ▸ numbered.get?_id member,low,high⟩

theorem checkOutlet_ok {g : Graph} {what : String} {o : Outlet} :
    g.checkOutlet what o = .ok () ↔ g.HasOutlet o := by
  unfold checkOutlet HasOutlet
  cases found : g.get? o.node with
  | none => simp
  | some n =>
    simp only [Option.some.injEq,exists_eq_left']
    split
    · rename_i within; simpa using within
    · rename_i beyond
      constructor
      · exact nofun
      · simpa using beyond

theorem checkOutlets_ok {os : List Outlet} {check : Outlet × Nat → Outcome Unit}
    (each : ∀ o k, check (o,k) = .ok () → g.HasOutlet o) (checked : os.zipIdx.forM check = .ok ()) :
    ∀ o ∈ os, g.HasOutlet o := by
  intro o member
  obtain ⟨k,at_⟩ := List.mem_iff_getElem?.mp member
  have present : (o,k) ∈ os.zipIdx := by
    rw [List.mem_zipIdx_iff_getElem?]; exact at_
  exact each o k (forM_ok.mp checked _ present)

-- Nodes are only ever appended, or their inputs changed; an outlet that exists stays.
theorem HasOutlet.mono {g g' : Graph} {o : Outlet} (has : g.HasOutlet o)
    (kept : ∀ (i : Nat) n, g.nodes[i]? = some n →
      ∃ n', g'.nodes[i]? = some n' ∧ n'.operator = n.operator) : g'.HasOutlet o := by
  obtain ⟨n,found,low,high⟩ := has
  obtain ⟨i,equal,at_⟩ := get?_some.mp found
  obtain ⟨n',at',operator⟩ := kept i n at_
  exact ⟨n',get?_some.mpr ⟨i,equal,at'⟩,low,operator ▸ high⟩

theorem empty_wired (serial : Nat) (name : String) : (empty serial name).Wired := by
  refine ⟨?_,?_⟩
  · intro i n at_; simp [empty] at at_
  · intro n member; cases member

-- Nodes keep their numbers and operators under every construction step.
def Kept (g g' : Graph) : Prop := ∀ (i : Nat) n, g.nodes[i]? = some n →
  ∃ n', g'.nodes[i]? = some n' ∧ n'.operator = n.operator

theorem addNode_parts (added : g.addNode op sources label = .ok (g',number)) :
    (∀ o ∈ sources, g.HasOutlet o) ∧ number = g.size ∧ ∃ name, g.find? name = none ∧
      g' = { g with nodes := g.nodes ++ [⟨g.size,name,op,sources⟩] } := by
  unfold addNode at added
  obtain ⟨⟨⟩,checked,added⟩ := bind_ok.mp added
  dsimp only at added
  split at added
  · cases added
  · rename_i fresh
    cases added
    exact ⟨checkOutlets_ok (fun _ _ => checkOutlet_ok.mp) checked,rfl,_,fresh,rfl⟩

theorem addNode_kept {n : Node} (i : Nat) (m : Node) (at_ : g.nodes[i]? = some m) :
    (g.nodes ++ [n])[i]? = some m := by
  rw [List.getElem?_append_left (List.getElem?_eq_some_iff.mp at_).1,at_]

theorem addNode_numbered (numbered : g.Numbered) (added : g.addNode op sources label = .ok (g',number)) :
    g'.Numbered := by
  obtain ⟨-,-,name,-,rfl⟩ := addNode_parts added
  intro i n at_
  rcases Nat.lt_trichotomy i g.nodes.length with before | rfl | beyond
  · rw [List.getElem?_append_left before] at at_
    exact numbered i n at_
  · rw [List.getElem?_concat_length] at at_
    cases at_
    rfl
  · rw [List.getElem?_eq_none (by simp; omega)] at at_
    cases at_

theorem addNode_wired (wired : g.Wired) (added : g.addNode op sources label = .ok (g',number)) :
    g'.Wired := by
  refine ⟨addNode_numbered wired.numbered added,?_⟩
  obtain ⟨checked,-,name,-,rfl⟩ := addNode_parts added
  have kept : Kept g { g with nodes := g.nodes ++ [⟨g.size,name,op,sources⟩] } :=
    fun i n at_ => ⟨n,addNode_kept i n at_,rfl⟩
  intro n member o source
  refine HasOutlet.mono (g := g) ?_ kept
  rcases List.mem_append.mp member with known | new
  · exact wired.sources n known o source
  · rw [List.mem_singleton] at new
    subst new
    exact checked o source

theorem addNode_entered (entered : g.Entered) (added : g.addNode op sources label = .ok (g',number)) :
    g'.Entered := by
  obtain ⟨-,-,name,-,rfl⟩ := addNode_parts added
  intro id member
  obtain ⟨n,found,none⟩ := entered id member
  obtain ⟨i,equal,at_⟩ := get?_some.mp found
  exact ⟨n,get?_some.mpr ⟨i,equal,addNode_kept i n at_⟩,none⟩

-- Only the node whose input is set takes from somewhere else than before.
theorem setInput_node {source : Outlet} {id position i : Nat} {m : Node}
    (at_ : (g.setInput source id position).nodes[i]? = some m) : ∃ n, g.nodes[i]? = some n ∧ m.id = n.id ∧
      ∀ o ∈ m.inputs, o ∈ n.inputs ∨ o = source ∧ n.id = id := by
  rw [setInput,List.getElem?_map,Option.map_eq_some_iff] at at_
  obtain ⟨n,known,equal⟩ := at_
  refine ⟨n,known,?_⟩
  split at equal
  · rename_i here
    subst equal
    refine ⟨rfl,fun o edge => ?_⟩
    dsimp only at edge
    split at edge
    · rcases List.mem_append.mp edge with old | new
      · exact .inl old
      · exact .inr ⟨List.mem_singleton.mp new,here⟩
    · rcases List.mem_or_eq_of_mem_set edge with old | new
      · exact .inl old
      · exact .inr ⟨new,here⟩
  · subst equal
    exact ⟨rfl,fun o edge => .inl edge⟩

theorem setInput_kept (source : Outlet) (id position : Nat) :
    Kept g (g.setInput source id position) := by
  intro i n at_
  refine ⟨_,by rw [setInput,List.getElem?_map,at_]; rfl,?_⟩
  dsimp only
  split <;> rfl

theorem addEdge_iff : g.addEdge source target = .ok g' ↔ g.HasOutlet source ∧ ∃ n, g.get? target.node = some n ∧
    g.isInput target.node = false ∧ 0 ≤ target.position ∧ target.position ≤ n.inputs.length ∧
      g.reaches source.node target.node = .ok false ∧ g' = g.setInput source n.id target.position.toNat := by
  unfold addEdge
  rw [bind_ok]
  constructor
  · rintro ⟨⟨⟩,checked,added⟩
    refine ⟨checkOutlet_ok.mp checked,?_⟩
    cases found : g.get? target.node with
    | none => simp [found] at added
    | some n =>
      simp only [found] at added
      refine ⟨n,rfl,?_⟩
      split at added
      · simp at added
      · rename_i free
        split at added
        · simp at added
        · rename_i within
          simp only [Bool.or_eq_true,decide_eq_true_eq,not_or,Int.not_lt] at within
          obtain ⟨loop,searched,added⟩ := bind_ok.mp added
          split at added
          · simp at added
          · rename_i open_
            cases added
            exact ⟨by simpa using free,within.1,within.2,by rw [searched,eq_false_of_ne_true open_],rfl⟩
  · rintro ⟨has,n,found,free,low,high,searched,rfl⟩
    refine ⟨(),checkOutlet_ok.mpr has,?_⟩
    rw [found]
    dsimp only
    rw [free,if_neg (by simp),searched,if_neg (by simp [Int.not_lt.mpr low,Int.not_lt.mpr high])]
    rfl

theorem addEdge_parts (added : g.addEdge source target = .ok g') :
    g.HasOutlet source ∧ ∃ n, g.get? target.node = some n ∧ g.isInput target.node = false ∧
      g.reaches source.node target.node = .ok false ∧
      g' = g.setInput source n.id target.position.toNat := by
  obtain ⟨has,n,found,free,-,-,searched,grown⟩ := addEdge_iff.mp added
  exact ⟨has,n,found,free,searched,grown⟩

theorem setInput_numbered (numbered : g.Numbered) (source : Outlet) (id position : Nat) :
    (g.setInput source id position).Numbered := by
  intro i m at_
  obtain ⟨n,known,same,-⟩ := setInput_node at_
  rw [same,numbered i n known]

theorem addEdge_wired (wired : g.Wired) (added : g.addEdge source target = .ok g') : g'.Wired := by
  obtain ⟨has,t,found,-,-,rfl⟩ := addEdge_parts added
  refine ⟨setInput_numbered wired.numbered _ _ _,?_⟩
  intro m member o edge
  obtain ⟨i,at_⟩ := List.mem_iff_getElem?.mp member
  obtain ⟨n,known,-,edges⟩ := setInput_node at_
  refine HasOutlet.mono (g := g) ?_ (setInput_kept source t.id target.position.toNat)
  rcases edges o edge with old | ⟨rfl,-⟩
  · exact wired.sources n (List.mem_of_getElem? known) o old
  · exact has

-- The target of an edge is not a designated input.
theorem addEdge_entered (wired : g.Wired) (entered : g.Entered)
    (added : g.addEdge source target = .ok g') : g'.Entered := by
  obtain ⟨-,t,found,free,-,rfl⟩ := addEdge_parts added
  intro id member
  obtain ⟨n,known,none⟩ := entered id member
  refine ⟨n,?_,none⟩
  obtain ⟨i,equal,at_⟩ := get?_some.mp known
  refine get?_some.mpr ⟨i,equal,?_⟩
  rw [setInput,List.getElem?_map,at_,Option.map_some]
  have other : n.id ≠ t.id := by
    intro same
    have both : id = target.node := by
      rw [←wired.numbered.id_eq known,←wired.numbered.id_eq found,same]
    subst both
    simp [isInput,List.contains_eq_mem] at free
    exact free member
  rw [if_neg other]

theorem designateInput_parts (designated : g.designateInput number declared = .ok (g',fact)) :
    ∃ n, g.get? number = some n ∧ n.inputs = [] ∧ g'.nodes = g.nodes ∧
      ∀ id ∈ g'.inputs, id ∈ g.inputs ∨ id = number := by
  unfold designateInput at designated
  obtain ⟨n,found,designated⟩ := bind_ok.mp designated
  refine ⟨n,node_ok.mp found,?_⟩
  dsimp only at designated
  split at designated
  · rename_i none
    cases designated
    refine ⟨by simpa using none,rfl,?_⟩
    intro id member
    unfold inputs at member
    dsimp only at member
    split at member
    · simp only [List.map_map] at member
      exact .inl member
    · simpa [inputs] using member
  · simp at designated

theorem designateInput_outputs (designated : g.designateInput number declared = .ok (g',fact)) :
    g'.outputs = g.outputs := by
  unfold designateInput at designated
  obtain ⟨n,-,designated⟩ := bind_ok.mp designated
  dsimp only at designated
  split at designated
  · cases designated
    rfl
  · simp at designated

theorem get?_nodes (nodes : g'.nodes = g.nodes) (id : Int) : g'.get? id = g.get? id := by
  unfold get?
  rw [nodes]

theorem Wired.of_nodes (wired : g.Wired) (nodes : g'.nodes = g.nodes) : g'.Wired := by
  refine ⟨?_,?_⟩
  · unfold Numbered
    rw [nodes]
    exact wired.numbered
  · unfold HasOutlet
    simp only [nodes,get?_nodes nodes]
    exact wired.sources

theorem designateInput_entered (entered : g.Entered)
    (designated : g.designateInput number declared = .ok (g',fact)) : g'.Entered := by
  obtain ⟨n,found,none,nodes,members⟩ := designateInput_parts designated
  intro id member
  rw [get?_nodes nodes]
  rcases members id member with old | rfl
  · exact entered id old
  · exact ⟨n,found,none⟩

theorem designateOutput_parts (designated : g.designateOutput o = .ok g') :
    g'.nodes = g.nodes ∧ g'.inputs = g.inputs := by
  unfold designateOutput at designated
  obtain ⟨⟨⟩,-,designated⟩ := bind_ok.mp designated
  cases designated
  split <;> exact ⟨rfl,rfl⟩

theorem built_wired (built : Built g) : g.Wired := by
  induction built with
  | empty serial name => exact empty_wired serial name
  | addNode _ added wired => exact addNode_wired wired added
  | addEdge _ added wired => exact addEdge_wired wired added
  | designateInput _ designated wired =>
    obtain ⟨-,-,-,nodes,-⟩ := designateInput_parts designated
    exact wired.of_nodes nodes
  | designateOutput _ designated wired => exact wired.of_nodes (designateOutput_parts designated).1

theorem built_entered (built : Built g) : g.Entered := by
  induction built with
  | empty serial name => exact fun id member => nomatch member
  | addNode _ added entered => exact addNode_entered entered added
  | addEdge built added entered => exact addEdge_entered (built_wired built) entered added
  | designateInput _ designated entered => exact designateInput_entered entered designated
  | designateOutput _ designated entered =>
    obtain ⟨nodes,sources⟩ := designateOutput_parts designated
    intro id member
    rw [sources] at member
    rw [get?_nodes nodes]
    exact entered id member

end Graph

end TensorGraph
