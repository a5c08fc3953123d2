import Mathlib.Data.List.Nodup
import TensorGraph.Proofs.Graph.Loops

namespace TensorGraph.Graph
open Outcome
open Relation (TransGen)

variable {g g' : Graph}

-- What callers may ask of a graph that is being built.
inductive Call where
  | addNode (op : Operator) (inputs : List Outlet) (name : Option String)
  | addEdge (source : Outlet) (target : Inlet)
  | designateInput (id : Int) (fact : Option Fact)
  | designateOutput (o : Outlet)

def apply (g : Graph) : Call → Outcome Graph
  | .addNode op inputs name => (g.addNode op inputs name).map (·.1)
  | .addEdge source target => g.addEdge source target
  | .designateInput id fact => (g.designateInput id fact).map (·.1)
  | .designateOutput o => g.designateOutput o

-- A call that fails is over, and the next one finds the graph it found.
def attempt (g : Graph) (c : Call) : Graph :=
  match g.apply c with
  | .ok g' => g'
  | .error _ => g

def after (g : Graph) (calls : List Call) : Graph := calls.foldl attempt g

-- Names tell the nodes of a graph apart.
def Named (g : Graph) : Prop := (g.nodes.map (·.name)).Nodup

-- Designated outputs exist, each once.
structure Yields (g : Graph) : Prop where
  nodup : g.outputs.Nodup
  exist : ∀ o ∈ g.outputs, g.HasOutlet o

structure Invariant (g : Graph) : Prop extends Wired g where
  acyclic : g.Acyclic
  named : g.Named
  found : ∀ s n, g.nodeNamed s = .ok n ↔ n ∈ g.nodes ∧ n.name = s
  entered : g.Entered
  yields : g.Yields

theorem Named.of_nodes (named : g.Named) (nodes : g'.nodes = g.nodes) : g'.Named := by
  unfold Named
  rw [nodes]
  exact named

theorem addNode_named (named : g.Named) (added : g.addNode op sources label = .ok (g',number)) :
    g'.Named := by
  obtain ⟨-,-,name,fresh,rfl⟩ := addNode_parts added
  have other : name ∉ g.nodes.map (·.name) := by
    intro taken
    obtain ⟨n,member,equal⟩ := List.mem_map.mp taken
    have differs := List.find?_eq_none.mp fresh n member
    simp [equal] at differs
  unfold Named
  rw [List.map_append,List.map_singleton,← List.concat_eq_append]
  exact List.Nodup.concat other named

theorem setInput_names (source : Outlet) (id position : Nat) :
    (g.setInput source id position).nodes.map (·.name) = g.nodes.map (·.name) := by
  rw [setInput,List.map_map]
  refine List.map_congr_left fun n _ => ?_
  dsimp only [Function.comp_apply]
  split <;> rfl

theorem addEdge_named (named : g.Named) (added : g.addEdge source target = .ok g') : g'.Named := by
  obtain ⟨-,t,-,-,-,rfl⟩ := addEdge_parts added
  unfold Named
  rw [setInput_names]
  exact named

theorem built_named (built : Built g) : g.Named := by
  induction built with
  | empty => exact List.nodup_nil
  | addNode _ added named => exact addNode_named named added
  | addEdge _ added named => exact addEdge_named named added
  | designateInput _ designated named =>
    obtain ⟨-,-,-,nodes,-⟩ := designateInput_parts designated
    exact named.of_nodes nodes
  | designateOutput _ designated named => exact named.of_nodes (designateOutput_parts designated).1

-- A node is found by its name, and under no other.
theorem nodeNamed_ok (named : g.Named) {s : String} {n : Node} :
    g.nodeNamed s = .ok n ↔ n ∈ g.nodes ∧ n.name = s := by
  unfold nodeNamed
  constructor
  · intro found
    split at found
    · rename_i m at_
      cases found
      exact ⟨List.mem_of_find?_eq_some at_,by simpa using List.find?_some at_⟩
    · cases found
  · rintro ⟨member,rfl⟩
    obtain ⟨m,at_⟩ : ∃ m, g.find? n.name = some m := by
      refine Option.isSome_iff_exists.mp (List.find?_isSome.mpr ⟨n,member,by simp⟩)
    have same : m.name = n.name := by simpa using List.find?_some at_
    have equal := List.inj_on_of_nodup_map named (List.mem_of_find?_eq_some at_) member same
    rw [at_,equal]

theorem Yields.kept (yields : g.Yields) (outputs : g'.outputs = g.outputs) (kept : Kept g g') : g'.Yields := by
  refine ⟨outputs ▸ yields.nodup,fun o member => ?_⟩
  rw [outputs] at member
  exact (yields.exist o member).mono kept

theorem kept_of_nodes (nodes : g'.nodes = g.nodes) : Kept g g' := fun _ n at_ => ⟨n,nodes ▸ at_,rfl⟩

theorem designateOutput_yields (yields : g.Yields) (designated : g.designateOutput o = .ok g') :
    g'.Yields := by
  unfold designateOutput at designated
  obtain ⟨⟨⟩,checked,equal⟩ := bind_ok.mp designated
  have has := checkOutlet_ok.mp checked
  cases equal
  split
  · exact yields
  · rename_i fresh
    refine ⟨?_,fun p member => ?_⟩
    · rw [← List.concat_eq_append]
      exact List.Nodup.concat (by simpa using fresh) yields.nodup
    · rcases List.mem_append.mp member with old | new
      · exact yields.exist p old
      · rw [List.mem_singleton.mp new]
        exact has

theorem built_yields (built : Built g) : g.Yields := by
  induction built with
  | empty => exact ⟨List.nodup_nil,nofun⟩
  | addNode _ added yields =>
    obtain ⟨-,-,name,-,rfl⟩ := addNode_parts added
    exact yields.kept rfl fun i n at_ => ⟨n,addNode_kept i n at_,rfl⟩
  | addEdge _ added yields =>
    obtain ⟨-,t,-,-,-,rfl⟩ := addEdge_parts added
    exact yields.kept rfl (setInput_kept _ _ _)
  | designateInput _ designated yields =>
    obtain ⟨-,-,-,nodes,-⟩ := designateInput_parts designated
    exact yields.kept (designateInput_outputs designated) (kept_of_nodes nodes)
  | designateOutput _ designated yields => exact designateOutput_yields yields designated

theorem built_invariant (built : Built g) : g.Invariant :=
  ⟨built_wired built,built_acyclic built,built_named built,fun _ _ => nodeNamed_ok (built_named built),
    built_entered built,built_yields built⟩

theorem attempt_built (built : Built g) (c : Call) : Built (g.attempt c) := by
  unfold attempt
  split
  · rename_i applied
    cases c with
    | addNode =>
      obtain ⟨⟨_,number⟩,added,rfl⟩ := map_ok.mp applied
      exact .addNode built added
    | addEdge => exact .addEdge built applied
    | designateInput =>
      obtain ⟨⟨_,fact⟩,designated,rfl⟩ := map_ok.mp applied
      exact .designateInput built designated
    | designateOutput => exact .designateOutput built applied
  · exact built

theorem after_built (built : Built g) (calls : List Call) : Built (g.after calls) := by
  induction calls generalizing g with
  | nil => exact built
  | cons c calls ih => exact ih (attempt_built built c)

theorem attempt_failed {c : Call} {e : Fault} (failed : g.apply c = .error e) : g.attempt c = g := by
  unfold attempt
  rw [failed]

-- A call that fails might as well not have been made.
theorem after_failed {before rest : List Call} {c : Call} {e : Fault}
    (failed : (g.after before).apply c = .error e) :
    g.after (before ++ c :: rest) = g.after (before ++ rest) := by
  unfold after at failed ⊢
  rw [List.foldl_append,List.foldl_cons,List.foldl_append,attempt_failed failed]

theorem checkOutlets_of {os : List Outlet} {check : Outlet × Nat → Outcome Unit}
    (each : ∀ o k, g.HasOutlet o → check (o,k) = .ok ()) (exist : ∀ o ∈ os, g.HasOutlet o) :
    os.zipIdx.forM check = .ok () :=
  forM_ok.mpr fun (o,k) edge =>
    each o k (exist o (List.mem_of_getElem? (List.mem_zipIdx_iff_getElem?.mp edge)))

theorem checkNode_eq (wired : g.Wired) {n : Node} (member : n ∈ g.nodes) : g.checkNode n =
    if g.isInput n.id || n.operator.acceptsArity n.inputs.length then .ok ()
    else n.fail (.wrongInputCount n.opType n.operator.arity n.inputs.length) := by
  unfold checkNode
  rw [checkOutlets_of ?_ (wired.sources n member),ok_bind]
  · rfl
  · exact fun _ _ => checkOutlet_ok.mpr

-- Of all that is checked only the numbers of inputs can be wrong.
theorem validate_eq (inv : g.Invariant) : g.validate = g.nodes.forM g.checkNode := by
  have entered : (g.inputs.forM fun id => do
      unless (← g.referred id).inputs.isEmpty do
        .error ((Cause.inputHasProducers : Fault).at? id none)) = (.ok () : Outcome Unit) := by
    refine forM_ok.mpr fun id member => ?_
    obtain ⟨n,found,none⟩ := inv.entered id member
    rw [referred_known found,ok_bind,none]
    rfl
  have outputs : g.outputs.forM (g.checkOutlet "graph output") = .ok () :=
    forM_ok.mpr fun o member => checkOutlet_ok.mpr (inv.yields.exist o member)
  unfold validate
  rw [entered,outputs,checkAcyclic_ok inv.toWired.rooted inv.acyclic]
  cases g.nodes.forM g.checkNode <;> rfl

theorem validate_fault (inv : g.Invariant) {e : Fault} (failed : g.validate = .error e) :
    ∃ n ∈ g.nodes, g.isInput n.id = false ∧ n.operator.acceptsArity n.inputs.length = false ∧
      n.fail (.wrongInputCount n.opType n.operator.arity n.inputs.length) = (.error e : Outcome Unit) := by
  rw [validate_eq inv] at failed
  obtain ⟨n,member,failed⟩ := forM_error failed
  rw [checkNode_eq inv.toWired member] at failed
  split at failed
  · cases failed
  · rename_i wrong
    simp only [Bool.or_eq_true,not_or,Bool.not_eq_true] at wrong
    exact ⟨n,member,wrong.1,wrong.2,failed⟩

theorem validate_ok_iff (inv : g.Invariant) : g.validate = .ok () ↔
    ∀ n ∈ g.nodes, g.isInput n.id = true ∨ n.operator.acceptsArity n.inputs.length = true := by
  rw [validate_eq inv,forM_ok]
  refine forall₂_congr fun n member => ?_
  rw [checkNode_eq inv.toWired member]
  split
  · rename_i right
    simpa using right
  · rename_i wrong
    simpa using wrong

theorem topologicalOrder_cases (inv : g.Invariant) (targets : Option (List Outlet)) (stop : List Int) :
    (∃ order, g.topologicalOrder targets stop = .ok order) ∨ ∃ ts, targets = some ts ∧ ∃ o ∈ ts,
      g.get? o.node = none ∧ g.topologicalOrder targets stop = TensorGraph.fail (.nodeMissing o.node) := by
  obtain ⟨line,ordered,all⟩ := checkAcyclic_order inv.toWired.rooted (checkAcyclic_ok inv.toWired.rooted inv.acyclic)
  cases targets with
  | none => exact .inl (topologicalOrder_all stop ordered all)
  | some ts =>
    by_cases known : ∀ o ∈ ts, g.Known o.node
    · exact .inl (topologicalOrder_ok stop inv.toWired.rooted ordered all known)
    · exact .inr ⟨ts,rfl,topologicalOrder_unknown stop known⟩

-- Whatever is asked of a graph while it is built, it keeps its invariant, and a call that fails leaves
-- nothing behind. Such a graph is rejected for numbers of inputs alone, and it can always be put in order.
theorem calls_keep_invariant (serial : Nat) (name : String) (calls : List Call) :
    let g := (empty serial name).after calls
    g.Invariant ∧
    (∀ c e, g.apply c = .error e → g.attempt c = g ∧
      ∀ rest, (empty serial name).after (calls ++ c :: rest) = (empty serial name).after (calls ++ rest)) ∧
    (∀ op sources label g' number, g.addNode op sources label = .ok (g',number) →
      number = g.size ∧ ∃ n, g'.nodes = g.nodes ++ [n] ∧ n.id = number) ∧
    (g.validate = .ok () ↔
      ∀ n ∈ g.nodes, g.isInput n.id = true ∨ n.operator.acceptsArity n.inputs.length = true) ∧
    (∀ e, g.validate = .error e → ∃ n ∈ g.nodes, g.isInput n.id = false ∧
      n.operator.acceptsArity n.inputs.length = false ∧
      n.fail (.wrongInputCount n.opType n.operator.arity n.inputs.length) = (.error e : Outcome Unit)) ∧
    (∃ order, g.topologicalOrder none [] = .ok order) ∧
    ∀ targets stop e, g.topologicalOrder targets stop = .error e → e.kind ≠ .cycle := by
  intro g
  have inv : g.Invariant := built_invariant (after_built (.empty serial name) calls)
  refine ⟨inv,?_,?_,validate_ok_iff inv,fun e => validate_fault inv,?_,?_⟩
  · intro c e failed
    exact ⟨attempt_failed failed,fun rest => after_failed failed⟩
  · intro op sources label g' number added
    obtain ⟨-,rfl,name,-,rfl⟩ := addNode_parts added
    exact ⟨rfl,_,rfl,rfl⟩
  · exact (topologicalOrder_cases inv none []).resolve_right fun ⟨_,given,_⟩ => nomatch given
  · intro targets stop e failed
    rcases topologicalOrder_cases inv targets stop with ⟨order,ran⟩ | ⟨_,_,o,_,_,ran⟩
    · cases failed.symm.trans ran
    · cases failed.symm.trans ran
      exact fun kind => nomatch kind

end TensorGraph.Graph
