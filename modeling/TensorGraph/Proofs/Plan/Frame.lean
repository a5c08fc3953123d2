import TensorGraph.Proofs.Graph.Growth
import TensorGraph.Proofs.Graph.Validation
import TensorGraph.Proofs.Plan.Failures
import TensorGraph.Proofs.Plan.Live

namespace TensorGraph.Graph
open Outcome

variable {ids : List Int} {g g' g'' : Graph}

-- Calls that change neither the sources of the given nodes nor what the graph is fed.
def Call.Outside (ids : List Int) : Call → Prop
  | .addEdge _ target => target.node ∉ ids
  | .designateInput _ _ => False
  | .addNode _ _ _ => True
  | .designateOutput _ => True

-- A graph that has been added to: there may be more nodes, and nodes other than the given ones may
-- take from elsewhere.
structure Grown (ids : List Int) (g g' : Graph) : Prop where
  name : g'.name = g.name
  inputFacts : g'.inputFacts = g.inputFacts
  nodes : ∃ edit more, g'.nodes = g.nodes.map edit ++ more ∧ ∀ n : Node,
    (edit n).id = n.id ∧ (edit n).name = n.name ∧ ((n.id : Int) ∈ ids → edit n = n)

theorem Grown.refl (ids : List Int) (g : Graph) : Grown ids g g :=
  ⟨rfl,rfl,id,[],by simp,fun _ => ⟨rfl,rfl,fun _ => rfl⟩⟩

theorem Grown.trans (first : Grown ids g g') (second : Grown ids g' g'') : Grown ids g g'' := by
  obtain ⟨edit,more,nodes,kept⟩ := first.nodes
  obtain ⟨edit',more',nodes',kept'⟩ := second.nodes
  refine ⟨second.name.trans first.name,second.inputFacts.trans first.inputFacts,edit' ∘ edit,
    more.map edit' ++ more',by simp [nodes,nodes'],fun n => ?_⟩
  obtain ⟨id,name,same⟩ := kept n
  obtain ⟨id',name',same'⟩ := kept' (edit n)
  refine ⟨id'.trans id,name'.trans name,fun member => ?_⟩
  rw [Function.comp_apply,same' (by rwa [id]),same member]

theorem addNode_grown (added : g.addNode op sources label = .ok (g',number)) : Grown ids g g' := by
  obtain ⟨-,-,name,-,rfl⟩ := addNode_parts added
  exact ⟨rfl,rfl,id,[⟨g.size,name,op,sources⟩],by simp,fun _ => ⟨rfl,rfl,fun _ => rfl⟩⟩

theorem addEdge_grown (numbered : g.Numbered) (apart : target.node ∉ ids)
    (added : g.addEdge source target = .ok g') : Grown ids g g' := by
  obtain ⟨-,t,found,-,-,rfl⟩ := addEdge_parts added
  refine ⟨rfl,rfl,_,[],(List.append_nil _).symm,fun n => ?_⟩
  split
  · rename_i here
    refine ⟨rfl,rfl,fun member => ?_⟩
    rw [here,numbered.id_eq found] at member
    exact absurd member apart
  · exact ⟨rfl,rfl,fun _ => rfl⟩

theorem designateOutput_grown (designated : g.designateOutput o = .ok g') : Grown ids g g' := by
  obtain ⟨-,rfl⟩ := designateOutput_ok.mp designated
  split
  · exact .refl ids g
  · exact ⟨rfl,rfl,id,[],by simp,fun _ => ⟨rfl,rfl,fun _ => rfl⟩⟩

theorem attempt_grown (numbered : g.Numbered) {c : Call} (outside : c.Outside ids) : Grown ids g (g.attempt c) := by
  unfold attempt
  split
  · rename_i applied
    cases c with
    | addNode =>
      obtain ⟨⟨_,number⟩,added,rfl⟩ := map_ok.mp applied
      exact addNode_grown added
    | addEdge => exact addEdge_grown numbered outside applied
    | designateInput => exact outside.elim
    | designateOutput => exact designateOutput_grown applied
  · exact .refl ids g

theorem after_grown (built : Built g) {calls : List Call} (outside : ∀ c ∈ calls, c.Outside ids) :
    Grown ids g (g.after calls) := by
  induction calls generalizing g with
  | nil => exact .refl ids g
  | cons c calls ih =>
    obtain ⟨first,rest⟩ := List.forall_mem_cons.mp outside
    exact (attempt_grown (built_wired built).numbered first).trans (ih (attempt_built built c) rest)

-- Nodes stay, whatever is asked of the graph.
theorem attempt_kept (c : Call) : Kept g (g.attempt c) := by
  unfold attempt
  split
  · rename_i applied
    cases c with
    | addNode =>
      obtain ⟨⟨_,number⟩,added,rfl⟩ := map_ok.mp applied
      obtain ⟨-,-,name,-,rfl⟩ := addNode_parts added
      exact fun i n at_ => ⟨n,addNode_kept i n at_,rfl⟩
    | addEdge =>
      obtain ⟨-,t,-,-,-,rfl⟩ := addEdge_parts applied
      exact setInput_kept _ _ _
    | designateInput =>
      obtain ⟨⟨_,fact⟩,designated,rfl⟩ := map_ok.mp applied
      obtain ⟨-,-,-,nodes,-⟩ := designateInput_parts designated
      exact kept_of_nodes nodes
    | designateOutput => exact kept_of_nodes (designateOutput_parts applied).1
  · exact kept_of_nodes rfl

theorem after_kept (g : Graph) (calls : List Call) : Kept g (g.after calls) := by
  induction calls generalizing g with
  | nil => exact kept_of_nodes rfl
  | cons c calls ih =>
    intro i n at_
    obtain ⟨m,at',same⟩ := attempt_kept c i n at_
    obtain ⟨m',at'',same'⟩ := ih (g.attempt c) i m at'
    exact ⟨m',at'',same'.trans same⟩

theorem after_known {id : Int} (known : g.Known id) (calls : List Call) : (g.after calls).Known id :=
  known.kept (after_kept g calls)

section
variable {n m : Node} {ref : NodeRef} {id : Int} {e : Fault}

theorem Grown.getElem? (grown : Grown ids g g') {i : Nat} (at_ : g.nodes[i]? = some n) :
    ∃ m, g'.nodes[i]? = some m ∧ m.id = n.id ∧ m.name = n.name ∧ ((n.id : Int) ∈ ids → m = n) := by
  obtain ⟨edit,more,nodes,kept⟩ := grown.nodes
  refine ⟨edit n,?_,kept n⟩
  rw [nodes,List.getElem?_append_left (by simpa using (List.getElem?_eq_some_iff.mp at_).1),
    List.getElem?_map,at_,Option.map_some]

theorem Grown.get? (grown : Grown ids g g') (found : g.get? id = some n) :
    ∃ m, g'.get? id = some m ∧ m.id = n.id ∧ m.name = n.name ∧ ((n.id : Int) ∈ ids → m = n) := by
  obtain ⟨i,rfl,at_⟩ := get?_some.mp found
  obtain ⟨m,at',kept⟩ := grown.getElem? at_
  exact ⟨m,get?_some.mpr ⟨i,rfl,at'⟩,kept⟩

theorem Grown.isInput (grown : Grown ids g g') (id : Int) : g'.isInput id = g.isInput id := by
  unfold Graph.isInput Graph.inputs
  rw [grown.inputFacts]

-- A reference keeps its meaning.
theorem Grown.resolve (grown : Grown ids g g') (resolved : g.resolve ref = .ok n) :
    ∃ m, g'.resolve ref = .ok m ∧ m.id = n.id ∧ m.name = n.name := by
  cases ref with
  | id i =>
    obtain ⟨m,found,same,name,-⟩ := grown.get? (node_ok.mp resolved)
    exact ⟨m,node_ok.mpr found,same,name⟩
  | name s =>
    obtain ⟨edit,more,nodes,kept⟩ := grown.nodes
    have found : g.find? s = some n := by
      change g.nodeNamed s = .ok n at resolved
      unfold nodeNamed at resolved
      split at resolved <;> cases resolved
      assumption
    have mapped : (g.nodes.map edit).find? (·.name == s) = some (edit n) := by
      rw [List.find?_map]
      have same : (fun n : Node => n.name == s) ∘ edit = fun n => n.name == s := by
        funext n
        rw [Function.comp_apply,(kept n).2.1]
      rw [same]
      exact congrArg (Option.map edit) found
    refine ⟨edit n,?_,(kept n).1,(kept n).2.1⟩
    change g'.nodeNamed s = .ok (edit n)
    unfold nodeNamed find?
    rw [nodes,List.find?_append,mapped,Option.some_or]

-- A reference that had no meaning before does not come to mean an input.
theorem Grown.fresh (grown : Grown ids g g') (entered : g.Entered) (numbered : g'.Numbered)
    (failed : g.resolve ref = .error e) (resolved : g'.resolve ref = .ok m) : g'.isInput m.id = false := by
  by_contra designated
  rw [grown.isInput] at designated
  obtain ⟨n,found,-⟩ := entered m.id (by simpa [Graph.isInput] using designated)
  obtain ⟨m',found',-,name,-⟩ := grown.get? found
  obtain rfl : m = m' := Option.some.inj ((Plan.resolve_known numbered resolved).symm.trans found')
  cases ref with
  | id i =>
    have number : (m.id : Int) = i := numbered.id_eq (node_ok.mp resolved)
    rw [number] at found
    cases failed.symm.trans (node_ok.mpr found)
  | name s =>
    have named : m.name = s := by
      change g'.nodeNamed s = .ok m at resolved
      unfold nodeNamed at resolved
      split at resolved <;> cases resolved
      rename_i at_
      simpa using List.find?_some at_
    change g.nodeNamed s = .error e at failed
    unfold nodeNamed at failed
    split at failed
    · cases failed
    · rename_i missing
      exact find?_none.mp missing n (get?_mem found) (name.symm.trans named)

end

end TensorGraph.Graph

namespace TensorGraph.Plan
open Outcome TensorGraph.Graph Analysis

variable {p : Plan} {ids : List Int} {g g' : Graph} {n m : Node}

theorem inputFact_grown (grown : Grown ids g g') (id : Int) : g'.inputFact id = g.inputFact id := by
  unfold Graph.inputFact
  rw [grown.inputFacts]

theorem fact_grown (grown : Grown ids g g') (a : Analysis) (o : Outlet) : a.fact g' o = a.fact g o := by
  unfold Analysis.fact
  rw [grown.name]

-- Of the node that is fed only number and name are read.
theorem receive_grown (grown : Grown ids g g') (same : m.id = n.id) (name : m.name = n.name) (value : Attribute) :
    p.receive g' m value = p.receive g n value := by
  have turned : rejected m = rejected n := by
    funext f
    unfold rejected
    rw [same,name]
  have converted (dtype : Option DType) : convert m dtype value = convert n dtype value := by
    cases value <;> simp only [convert,Node.fail,same,name]
  unfold receive inputFacts
  simp only [inputFact_grown grown,fact_grown grown,same,turned,converted]

theorem bindOne_grown (grown : Grown ids g g') (entered : g.Entered) (numbered : g'.Numbered) (bound : Bindings)
    (feed : NodeRef × Attribute) : Concur (p.bindOne g bound feed) (p.bindOne g' bound feed) := by
  unfold bindOne
  cases resolved : g.resolve feed.1 with
  | ok n =>
    obtain ⟨m,resolved',same,name⟩ := grown.resolve resolved
    rw [resolved',ok_bind,ok_bind]
    dsimp only
    rw [same,grown.isInput,receive_grown grown same name]
    split
    · split
      · exact (rfl : Kind.invalidInput = .invalidInput)
      · exact .refl _
    · exact (rfl : Kind.invalidInput = .invalidInput)
  | error e =>
    rw [error_bind]
    cases resolved' : g'.resolve feed.1 with
    | error f => exact (resolve_error resolved).trans (resolve_error resolved').symm
    | ok m =>
      rw [ok_bind]
      dsimp only
      rw [Int.ofNat_eq_natCast,grown.fresh entered numbered resolved resolved']
      exact resolve_error resolved

variable {feeds : Feeds}

theorem bind_grown (grown : Grown ids g g') (entered : g.Entered) (numbered : g'.Numbered)
    (same : ∀ id ∈ p.required, g'.node id = g.node id) : Concur (p.bind g feeds) (p.bind g' feeds) := by
  unfold bind
  refine (concur_foldlM (fun bound feed _ => bindOne_grown grown entered numbered bound feed) []).bind fun bound _ => ?_
  dsimp only
  split
  · exact .refl _
  · refine Concur.bind (concur_mapM fun id member => ?_) fun _ _ => .refl _
    rw [same id (List.mem_filter.mp member).1]
    exact .refl _

-- What is scheduled is found as it was.
theorem node_grown (grown : Grown p.schedule g g') (numbered : g.Numbered) (known : ∀ id ∈ p.schedule, g.Known id) :
    ∀ id ∈ p.schedule, g'.node id = g.node id := by
  intro id member
  obtain ⟨n,found⟩ := known id member
  obtain ⟨m,found',-,-,same⟩ := grown.get? found
  obtain rfl := same (by rwa [numbered.id_eq found])
  rw [node_ok.mpr found,node_ok.mpr found']

theorem execute_grown (grown : Grown p.schedule g g') (entered : g.Entered) (numbered : g.Numbered)
    (numbered' : g'.Numbered) (known : ∀ id ∈ p.schedule, g.Known id) (required : ∀ id ∈ p.required, id ∈ p.schedule) :
    Concur (p.execute g feeds) (p.execute g' feeds) := by
  have same := node_grown grown numbered known
  unfold execute
  refine (bind_grown grown entered numbered' fun id member => same id (required id member)).bind fun bound _ => ?_
  refine Concur.bind (concur_foldlM (fun s id member => ?_) _) fun _ _ => .refl _
  unfold step
  rw [same id member]
  exact .refl _

-- Runs of a plan end as they did before the graph was added to, as long as nothing the plan schedules takes from
-- elsewhere than before. Of a run that fails it is the kind of the fault that stays: a key of the feeds that
-- named no node may name a new one, which is no input.
theorem execute_undisturbed (built : g.Built) (made : make config g refs known = .ok p) (earlier later : List Call)
    (outside : ∀ c ∈ later, c.Outside p.schedule) (feeds : Feeds) :
    (∀ r, p.execute (g.after earlier) feeds = .ok r ↔ p.execute ((g.after earlier).after later) feeds = .ok r) ∧
    ∀ e, p.execute (g.after earlier) feeds = .error e →
      ∃ f, p.execute ((g.after earlier).after later) feeds = .error f ∧ e.kind = f.kind := by
  have now := after_built built earlier
  have grown := after_built now later
  obtain ⟨laid,-,-⟩ := make_laid (built_wired built) made
  have known : ∀ id ∈ p.schedule, (g.after earlier).Known id :=
    fun id member => after_known (laid.schedule.known id member) earlier
  refine concur_iff.mp (execute_grown (after_grown now outside) (built_entered now) (built_wired now).numbered
    (built_wired grown).numbered known fun id member => ?_)
  rw [laid.required] at member
  exact List.mem_of_mem_filter member

-- A node is added, fed from elsewhere, and made an output.
def spareCalls : List Call :=
  [.addNode Op.identity.operator [⟨0,0⟩] (some "spare"),.addEdge ⟨1,0⟩ ⟨4,0⟩,.designateOutput ⟨4,0⟩]

theorem execute_undisturbed_relayed : relayed.Built ∧
    make ⟨true,true⟩ relayed none (some relayedAnalysis) = .ok relayedPlan ∧
    (∀ c ∈ spareCalls, c.Outside relayedPlan.schedule) ∧
    ((relayed.after spareCalls).node 4).map (·.inputs) = .ok [⟨1,0⟩] ∧
    (relayed.after spareCalls).outputs = [⟨3,0⟩,⟨4,0⟩] ∧
    relayedPlan.execute (relayed.after spareCalls) [(.name "x",.tensor pair)] = .ok relayedResult ∧
    ∃ f, relayedPlan.execute (relayed.after spareCalls) [(.name "spare",.tensor pair)] = .error f ∧
      f.kind = .invalidInput := by
  have outside : ∀ c ∈ spareCalls, c.Outside relayedPlan.schedule := by
    simp [spareCalls,Call.Outside,relayedPlan]
  have undisturbed := execute_undisturbed relayed_built relayed_make [] spareCalls outside
  obtain ⟨f,failed,kind⟩ := (undisturbed [(.name "spare",.tensor pair)]).2 _ rfl
  exact ⟨relayed_built,relayed_make,outside,rfl,rfl,((undisturbed [(.name "x",.tensor pair)]).1 _).mp rfl,
    f,failed,kind.symm⟩

end TensorGraph.Plan
