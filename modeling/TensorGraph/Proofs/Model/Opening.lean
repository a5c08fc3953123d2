import TensorGraph.Proofs.Model.Connect

namespace TensorGraph
open Outcome

namespace Lowering
open TensorGraph.Graph Model

variable {l l' : Lowering} {names : List String} {m : Model}

-- Only constants and inputs have their nodes, each numbered by the position of its name.
structure Opened (names : List String) (l : Lowering) : Prop where
  built : Built l.graph
  named : l.graph.nodes.map (·.name) = names
  bare : ∀ n ∈ l.graph.nodes, n.inputs = []
  values : l.values = (names.zipIdx.map fun p => (p.1,⟨Int.ofNat p.2,0⟩)).reverse
  used : l.used = names.reverse
  pending : l.pending = []
  exits : l.graph.outputs = []

theorem start_opened (serial : Nat) (name : String) : Opened [] (start serial name) :=
  ⟨.empty serial name,rfl,List.forall_mem_nil _,rfl,rfl,rfl,rfl⟩

theorem Opened.keys (opened : Opened names l) : l.values.map (·.1) = names.reverse := by
  rw [opened.values,List.map_reverse,List.map_map]
  exact congrArg List.reverse (List.zipIdx_map_fst 0 names)

theorem named_opened {op : Operator} {g : Graph} {id : Nat} {x : String} (opened : Opened names l)
    (added : l.graph.addNode op [] (some x) = .ok (g,id)) : Opened (names ++ [x]) (l.named g id x) := by
  obtain ⟨-,-,number,grown⟩ := addNode_ok.mp added
  have count : l.graph.size = names.length := by rw [← opened.named,List.length_map]; rfl
  refine ⟨opened.built.addNode added,?_,?_,?_,?_,opened.pending,?_⟩
  · dsimp only [named]
    rw [grown,List.map_append,opened.named]
    rfl
  · dsimp only [named]
    rw [grown]
    exact List.forall_mem_append.mpr ⟨opened.bare,List.forall_mem_singleton.mpr rfl⟩
  · dsimp only [named]
    rw [opened.values,number,count]
    simp [List.zipIdx_append]
  · dsimp only [named]
    rw [opened.used]
    simp
  · dsimp only [named]
    rw [grown]
    exact opened.exits

theorem Opened.with_constants (opened : Opened names l) (constants : List (String × Tensor)) :
    Opened names { l with constants := constants } :=
  ⟨opened.built,opened.named,opened.bare,opened.values,opened.used,opened.pending,opened.exits⟩

theorem Opened.designated {id : Int} {declared : Option Fact} {g : Graph} {fact : Fact} (opened : Opened names l)
    (entered : l.graph.designateInput id declared = .ok (g,fact)) : Opened names { l with graph := g } := by
  obtain ⟨-,-,-,nodes,-⟩ := designateInput_parts entered
  refine ⟨opened.built.designateInput entered,?_,?_,opened.values,opened.used,opened.pending,?_⟩
  · rw [nodes]
    exact opened.named
  · rw [nodes]
    exact opened.bare
  · rw [designateInput_outputs entered]
    exact opened.exits

theorem addConstant_opened {c : Constant} (opened : Opened names l) (ran : l.addConstant c = .ok l') :
    Opened (names ++ [c.name]) l' := by
  unfold addConstant at ran
  dsimp only at ran
  split at ran
  · cases ran
  · obtain ⟨dtype,-,ran⟩ := bind_ok.mp ran
    obtain ⟨array,-,ran⟩ := bind_ok.mp ran
    obtain ⟨t,-,ran⟩ := bind_ok.mp ran
    obtain ⟨⟨g,id⟩,added,equal⟩ := bind_ok.mp ran
    cases equal
    exact (named_opened opened added).with_constants _

theorem addInput_opened {d : Declaration} (opened : Opened names l) (fresh : d.name ∉ names)
    (ran : l.addInput d = .ok l') : Opened (names ++ [d.name]) l' := by
  have unknown : l.values.lookup d.name = none := lookup_missing (by rwa [opened.keys,List.mem_reverse])
  unfold addInput hasValue at ran
  rw [unknown] at ran
  obtain ⟨fact,-,ran⟩ := bind_ok.mp ran
  obtain ⟨⟨g,id⟩,added,ran⟩ := bind_ok.mp ran
  obtain ⟨⟨g',declared⟩,entered,equal⟩ := bind_ok.mp ran
  cases equal
  exact (named_opened opened added).designated entered

theorem constants_opened {cs : List Constant} (opened : Opened names l) (ran : cs.foldlM addConstant l = .ok l') :
    Opened (names ++ cs.map (·.name)) l' := by
  induction cs generalizing names l with
  | nil =>
    cases ran
    rw [List.map_nil,List.append_nil]
    exact opened
  | cons c cs ih =>
    rw [List.foldlM_cons] at ran
    obtain ⟨middle,first,rest⟩ := bind_ok.mp ran
    rw [List.map_cons,List.append_cons]
    exact ih (addConstant_opened opened first) rest

theorem inputs_opened {ds : List Declaration} (opened : Opened names l)
    (distinct : (names ++ ds.map (·.name)).Nodup) (ran : ds.foldlM addInput l = .ok l') :
    Opened (names ++ ds.map (·.name)) l' := by
  induction ds generalizing names l with
  | nil =>
    cases ran
    rw [List.map_nil,List.append_nil]
    exact opened
  | cons d ds ih =>
    rw [List.foldlM_cons] at ran
    obtain ⟨middle,first,rest⟩ := bind_ok.mp ran
    have fresh : d.name ∉ names := fun member =>
      (List.nodup_append.mp distinct).2.2 _ member _ List.mem_cons_self rfl
    rw [List.map_cons,List.append_cons] at distinct ⊢
    exact ih (addInput_opened opened fresh first) distinct rest

-- The number that tells a graph from others plays no part in what is done to it.
def reserial (k : Nat) (l : Lowering) : Lowering := { l with graph := { l.graph with serial := k } }

theorem start_reserial (k serial : Nat) (name : String) : (start serial name).reserial k = start k name := rfl

theorem addNode_reserial {g g' : Graph} {op : Operator} {x : String} {id : Nat} (k : Nat)
    (added : g.addNode op [] (some x) = .ok (g',id)) :
    ({ g with serial := k } : Graph).addNode op [] (some x) = .ok ({ g' with serial := k },id) := by
  obtain ⟨exist,fresh,rfl,rfl⟩ := addNode_ok.mp added
  exact addNode_ok.mpr ⟨List.forall_mem_nil _,fresh,rfl,rfl⟩

theorem designateInput_reserial {g g' : Graph} {id : Int} {declared : Option Fact} {fact : Fact} (k : Nat)
    (designated : g.designateInput id declared = .ok (g',fact)) :
    ({ g with serial := k } : Graph).designateInput id declared = .ok ({ g' with serial := k },fact) := by
  obtain ⟨n,found,designated⟩ := bind_ok.mp designated
  refine bind_ok.mpr ⟨n,found,?_⟩
  dsimp only at designated ⊢
  split at designated
  · rename_i bare
    cases designated
    rw [if_pos bare]
    rfl
  · simp at designated

theorem addConstant_reserial {c : Constant} (k : Nat) (ran : l.addConstant c = .ok l') :
    (l.reserial k).addConstant c = .ok (l'.reserial k) := by
  unfold addConstant at ran ⊢
  dsimp only at ran ⊢
  split at ran
  · cases ran
  · rename_i typed
    rw [if_neg typed]
    obtain ⟨dtype,read,ran⟩ := bind_ok.mp ran
    obtain ⟨array,made,ran⟩ := bind_ok.mp ran
    obtain ⟨t,cast,ran⟩ := bind_ok.mp ran
    obtain ⟨⟨g,id⟩,added,equal⟩ := bind_ok.mp ran
    cases equal
    rw [read,ok_bind,made,ok_bind,cast,ok_bind]
    exact bind_ok.mpr ⟨_,addNode_reserial k added,rfl⟩

theorem addInput_reserial {d : Declaration} (k : Nat) (ran : l.addInput d = .ok l') :
    (l.reserial k).addInput d = .ok (l'.reserial k) := by
  unfold addInput at ran ⊢
  split at ran
  · rename_i known
    cases ran
    exact if_pos known
  · rename_i unknown
    obtain ⟨fact,read,ran⟩ := bind_ok.mp ran
    obtain ⟨⟨g,id⟩,added,ran⟩ := bind_ok.mp ran
    obtain ⟨⟨g',declared⟩,entered,equal⟩ := bind_ok.mp ran
    cases equal
    refine (if_neg unknown).trans ?_
    rw [read,ok_bind]
    refine bind_ok.mpr ⟨_,addNode_reserial k added,?_⟩
    exact bind_ok.mpr ⟨_,designateInput_reserial k entered,rfl⟩

theorem foldlM_reserial {f : Lowering → α → Outcome Lowering} {xs : List α} {k : Nat}
    (step : ∀ l x l', f l x = .ok l' → f (l.reserial k) x = .ok (l'.reserial k)) (ran : xs.foldlM f l = .ok l') :
    xs.foldlM f (l.reserial k) = .ok (l'.reserial k) := by
  induction xs generalizing l with
  | nil =>
    cases ran
    rfl
  | cons x xs ih =>
    rw [List.foldlM_cons] at ran ⊢
    obtain ⟨middle,first,rest⟩ := bind_ok.mp ran
    exact bind_ok.mpr ⟨_,step l x middle first,ih rest⟩

end Lowering

namespace Model
open Lowering TensorGraph.Graph

variable {m : Model}

-- Everything before the steps: the nodes of constants and inputs.
def opened (m : Model) (serial : Nat) : Outcome Lowering := do
  let l := Lowering.start serial (if m.name = "" then defaultName else m.name)
  let l ← m.constants.foldlM Lowering.addConstant l
  m.inputs.foldlM Lowering.addInput l

-- Names of the constants and inputs, in the order of their nodes.
def entries (m : Model) : List String := m.constants.map (·.name) ++ m.inputs.map (·.name)

theorem opened_entries {serial : Nat} {start : Lowering} (distinct : m.entries.Nodup)
    (ran : m.opened serial = .ok start) : Opened m.entries start := by
  obtain ⟨middle,constants,inputs⟩ := bind_ok.mp ran
  have first := constants_opened (start_opened serial _) constants
  exact inputs_opened first distinct inputs

theorem opened_reserial {serial : Nat} {start : Lowering} (k : Nat) (ran : m.opened serial = .ok start) :
    m.opened k = .ok (start.reserial k) := by
  obtain ⟨middle,constants,inputs⟩ := bind_ok.mp ran
  have first := foldlM_reserial (f := addConstant) (fun _ _ _ => addConstant_reserial k) constants
  have second := foldlM_reserial (f := addInput) (fun _ _ _ => addInput_reserial k) inputs
  rw [start_reserial] at first
  unfold opened
  dsimp only
  rw [first]
  exact second

theorem toGraph_eq (m : Model) (r : Registry) (serial : Nat) : m.toGraph r serial =
    m.opened serial >>= fun start => m.steps.zipIdx.foldlM (fun l p => l.addStep r p.1 p.2) start >>= fun l =>
      l.pending.foldlM connect l >>= fun l => m.outputs.foldlM addOutput l >>= fun l =>
        l.graph.validate >>= fun _ => .ok l.graph := by
  unfold toGraph opened
  dsimp only
  rw [bind_assoc]
  rfl

end Model
end TensorGraph
