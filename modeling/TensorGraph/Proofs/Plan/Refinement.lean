import TensorGraph.Proofs.Analysis.Soundness
import TensorGraph.Proofs.Plan.Accounts

namespace TensorGraph.Plan
open Outcome TensorGraph.Graph Analysis

variable {p : Plan} {g : Graph} {bound : Bindings}

-- A step can fail in one way only.
theorem step_fails (ready : Ready p g refs bound) {before after : List Int} {id : Int} {s : Progress}
    {f : Fault} (split : p.schedule = before ++ id :: after)
    (ran : before.foldlM (p.step g bound) p.start = .ok s) (failed : p.step g bound s id = .error f) :
    Fails p g bound id f := by
  obtain ⟨accounts,meaning,-⟩ := prefix_accounts ready split ran
  rcases step_cases ready split accounts meaning with ⟨s',_,-,stepped,-⟩ | ⟨f',fails,failed'⟩
  · rw [failed] at stepped
    cases stepped
  · rw [failed] at failed'
    cases failed'
    exact fails

theorem scheduled_fed (ready : Ready p g refs bound) {id : Int} (scheduled : id ∈ p.schedule) :
    (bound.lookup id).isSome = g.isInput id := by
  cases designated : g.isInput id with
  | true =>
    refine ready.required id ?_
    rw [ready.laid.required]
    exact List.mem_filter.mpr ⟨scheduled,designated⟩
  | false =>
    refine Bool.eq_false_iff.mpr fun fed => ?_
    rw [ready.designated id fed] at designated
    cases designated

theorem evaluates_scheduled (ready : Ready p g refs bound) :
    p.schedule.filter (p.evaluates bound) =
      p.schedule.filter fun id => !p.folded.contains id && !g.isInput id := by
  apply List.filter_congr
  intro id scheduled
  unfold evaluates
  rw [←scheduled_fed ready scheduled,Bool.and_comm]
  cases bound.lookup id <;> rfl

theorem requested_value (ready : Ready p g refs bound) (meaning : ∀ id ∈ p.schedule, ∃ ts, Means p g bound id ts)
    {o : Outlet} (requested : o ∈ p.outputs) : ∃ t, Value p g bound o t := by
  obtain ⟨ts,means⟩ := meaning o.node (ready.laid.schedule.targets o requested)
  exact value_of_means ready (.inl requested) means

theorem execute_returns (ready : Ready p g refs bound) (accepted : p.bind g feeds = .ok bound)
    (meaning : ∀ id ∈ p.schedule, ∃ ts, Means p g bound id ts) : ∃ r, p.execute g feeds = .ok r ∧
      List.Forall₂ (Value p g bound) p.outputs r.outputs ∧
      r.stats.evaluated = p.schedule.filter fun id => !p.folded.contains id && !g.isInput id := by
  cases ran : p.schedule.foldlM (p.step g bound) p.start with
  | error f =>
    obtain ⟨before,id,after,s,split,reached,failed⟩ := foldlM_error ran
    obtain ⟨ts,means⟩ := meaning id (by rw [split]; simp)
    exact absurd means (fails_undefined (step_fails ready split reached failed) ts)
  | ok s =>
    obtain ⟨accounts,-,evaluated⟩ := prefix_accounts ready (List.append_nil _).symm ran
    have each : ∀ o ∈ p.outputs, ∃ t, Value p g bound o t ∧ s.cache.get o = .ok t := by
      intro o requested
      obtain ⟨t,value⟩ := requested_value ready meaning requested
      exact ⟨t,value,Table.get_ok.mpr ((accounts.cache o t).mpr
        ⟨ready.laid.schedule.targets o requested,value,.inr requested⟩)⟩
    obtain ⟨ts,related⟩ := exists_forall₂ each
    refine ⟨⟨ts,s.stats⟩,?_,related.imp fun _ _ both => both.1,?_⟩
    · unfold execute
      rw [accepted,ok_bind]
      change (p.schedule.foldlM (p.step g bound) p.start >>= _) = _
      rw [ran,ok_bind,mapM_ok.mpr (related.imp fun _ _ both => both.2)]
      rfl
    · rw [evaluated,evaluates_scheduled ready]

theorem execute_fails (ready : Ready p g refs bound) (accepted : p.bind g feeds = .ok bound)
    (undefined : ¬ ∀ id ∈ p.schedule, ∃ ts, Means p g bound id ts) :
    ∃ before id after f, p.schedule = before ++ id :: after ∧
      (∀ m ∈ before, ∃ ts, Means p g bound m ts) ∧ Fails p g bound id f ∧
      p.execute g feeds = .error f := by
  cases ran : p.schedule.foldlM (p.step g bound) p.start with
  | ok s =>
    obtain ⟨-,meaning,-⟩ := prefix_accounts ready (List.append_nil _).symm ran
    exact absurd meaning undefined
  | error f =>
    obtain ⟨before,id,after,s,split,reached,failed⟩ := foldlM_error ran
    refine ⟨before,id,after,f,split,(prefix_accounts ready split reached).2.1,
      step_fails ready split reached failed,?_⟩
    unfold execute
    rw [accepted,ok_bind]
    change (p.schedule.foldlM (p.step g bound) p.start >>= _) = _
    rw [ran]
    rfl

-- The same tensors at the required inputs give the same run.
theorem execute_agree (ready : Ready p g refs bound) {bound' : Bindings} (ready' : Ready p g refs bound')
    (accepted : p.bind g feeds = .ok bound) (accepted' : p.bind g feeds' = .ok bound')
    (agree : ∀ id ∈ p.required, bound.lookup id = bound'.lookup id) :
    p.execute g feeds = p.execute g feeds' := by
  unfold execute
  rw [accepted,accepted',ok_bind,ok_bind]
  have same : p.schedule.foldlM (p.step g bound) p.start = p.schedule.foldlM (p.step g bound') p.start := by
    refine foldlM_congr fun s id scheduled => ?_
    obtain ⟨n,found⟩ := ready.laid.schedule.known id scheduled
    have number := ready.wired.numbered.id_eq found
    have lookup : bound.lookup id = bound'.lookup id := by
      cases designated : g.isInput id with
      | true =>
        refine agree id ?_
        rw [ready.laid.required]
        exact List.mem_filter.mpr ⟨scheduled,designated⟩
      | false =>
        have left := scheduled_fed ready scheduled
        have right := scheduled_fed ready' scheduled
        rw [designated] at left right
        rw [Option.isSome_eq_false_iff,Option.isNone_iff_eq_none] at left right
        rw [left,right]
    unfold step compute
    rw [Graph.node_ok.mpr found,ok_bind,ok_bind]
    simp only [Int.ofNat_eq_natCast]
    rw [number,lookup]
  exact congrArg (· >>= _) same

-- The graph with other operators at the nodes outside a schedule.
def outside (schedule : List Int) (change : Node → Operator) (n : Node) : Node :=
  if schedule.contains (n.id : Int) then n else { n with operator := change n }

def replaced (g : Graph) (schedule : List Int) (change : Node → Operator) : Graph :=
  { g with nodes := g.nodes.map (outside schedule change) }

theorem outside_name {schedule : List Int} {change : Node → Operator} (n : Node) :
    (outside schedule change n).name = n.name := by
  unfold outside
  split <;> rfl

section Replaced

variable {schedule : List Int} {change : Node → Operator}

theorem replaced_node (id : Int) :
    (replaced g schedule change).node id = (g.node id).map (outside schedule change) := by
  unfold Graph.node Graph.get? replaced
  split
  · rename_i n found
    split at found
    · cases found
    · rename_i positive
      rw [List.getElem?_map,Option.map_eq_some_iff] at found
      obtain ⟨m,at_,rfl⟩ := found
      rw [if_neg positive,at_]
      rfl
  · rename_i missing
    split at missing
    · rename_i negative
      rw [if_pos negative]
      rfl
    · rename_i positive
      rw [List.getElem?_map,Option.map_eq_none_iff] at missing
      rw [if_neg positive,missing]
      rfl

theorem replaced_resolve (ref : NodeRef) :
    (replaced g schedule change).resolve ref = (g.resolve ref).map (outside schedule change) := by
  cases ref with
  | id i => exact replaced_node i
  | name s =>
    change (replaced g schedule change).nodeNamed s = (g.nodeNamed s).map _
    have names : ((fun n : Node => n.name == s) ∘ outside schedule change) = fun n => n.name == s :=
      funext fun n => congrArg (· == s) (outside_name n)
    unfold Graph.nodeNamed Graph.find? replaced
    dsimp only
    rw [List.find?_map,names]
    cases g.nodes.find? fun n => n.name == s <;> rfl

theorem replaced_bindOne (feed : NodeRef × Attribute) :
    p.bindOne (replaced g schedule change) bound feed = p.bindOne g bound feed := by
  unfold bindOne
  rw [replaced_resolve,map_bind]
  refine congrArg (g.resolve feed.1 >>= ·) (funext fun n => ?_)
  unfold outside
  split <;> rfl

theorem replaced_bind (feeds : Feeds) : p.bind (replaced g schedule change) feeds = p.bind g feeds := by
  have ones : p.bindOne (replaced g schedule change) = p.bindOne g := by
    funext bound feed
    exact replaced_bindOne feed
  unfold bind
  rw [ones]
  simp only [replaced_node,map_bind,outside_name]

-- Operators that are not scheduled have no part in a run.
theorem replaced_execute (ready : Ready p g refs bound) (change : Node → Operator) (feeds : Feeds) :
    p.execute (replaced g p.schedule change) feeds = p.execute g feeds := by
  have same : ∀ bound, p.schedule.foldlM (p.step (replaced g p.schedule change) bound)
      ⟨.empty,p.uses,⟨[],0,[]⟩⟩ = p.schedule.foldlM (p.step g bound) ⟨.empty,p.uses,⟨[],0,[]⟩⟩ := by
    intro bound
    refine foldlM_congr fun s id scheduled => ?_
    obtain ⟨n,found⟩ := ready.laid.schedule.known id scheduled
    have number := ready.wired.numbered.id_eq found
    have unchanged : outside p.schedule change n = n := by
      unfold outside
      rw [if_pos (by simpa [number] using scheduled)]
    unfold step
    rw [replaced_node,Graph.node_ok.mpr found,map_bind]
    rw [ok_bind,ok_bind,unchanged]
  unfold execute
  rw [replaced_bind]
  simp only [same]

end Replaced

-- A run and the meaning of what it was asked for. A look-up that misses would be a failure of
-- another kind than those of `Fails`, wherever in a step or at the end it is made.
structure Refines (p : Plan) (g : Graph) (refs : List OutletRef) (feeds : Feeds) (bound : Bindings) :
    Prop where
  returns : (∀ id ∈ p.schedule, ∃ ts, Means p g bound id ts) → ∃ r, p.execute g feeds = .ok r ∧
    List.Forall₂ (fun ref t => ∃ o, request g ref = .ok o ∧ ∀ u, Value p g bound o u ↔ u = t)
      refs r.outputs ∧
    r.stats.evaluated = p.schedule.filter fun id => !p.folded.contains id && !g.isInput id
  fails : (¬ ∀ id ∈ p.schedule, ∃ ts, Means p g bound id ts) → ∃ before id after f,
    p.schedule = before ++ id :: after ∧ (∀ m ∈ before, ∃ ts, Means p g bound m ts) ∧
    Fails p g bound id f ∧ f.kind.isA .evaluation = true ∧ f.node = some id ∧
    p.execute g feeds = .error f
  hits : ∀ before id after s, p.schedule = before ++ id :: after →
    before.foldlM (p.step g bound) p.start = .ok s →
    (id ∉ p.folded → ∀ n, g.get? id = some n → ∀ o ∈ n.inputs, ∃ t, s.cache.get o = .ok t) ∧
    ∀ f, p.step g bound s id = .error f → Fails p g bound id f
  unscheduled : ∀ change, p.execute (replaced g p.schedule change) feeds = p.execute g feeds
  agrees : ∀ feeds' bound', p.bind g feeds' = .ok bound' →
    (∀ id ∈ p.required, ∀ value, Gives g feeds id value ↔ Gives g feeds' id value) →
    p.execute g feeds = p.execute g feeds'

theorem ready_of_fed (wired : g.Wired) (made : make config g refs known = .ok p)
    (accepted : p.bind g feeds = .ok bound) (fed : ¬ p.Starved g) :
    Ready p g (refs.getD (g.outputs.map .outlet)) bound := by
  refine ⟨wired,(make_laid wired made).1,fed,?_,bind_required accepted⟩
  intro id found
  obtain ⟨t,found⟩ := Option.isSome_iff_exists.mp found
  exact ((bind_lookup wired accepted id t).mp found).1

-- Nodes with one output each lack nothing when they are fed.
theorem ready_of_bind (wired : g.Wired)
    (single : ∀ id ∈ g.inputs, ∀ n, g.get? id = some n → n.operator.outputCount = 1)
    (made : make config g refs known = .ok p) (accepted : p.bind g feeds = .ok bound) :
    Ready p g (refs.getD (g.outputs.map .outlet)) bound := by
  refine ready_of_fed wired made accepted ?_
  rintro ⟨o,designated,other,used⟩
  obtain ⟨n,found,low,high⟩ := used_outlet wired (make_laid wired made).1 used
  have count := single o.node (mem_inputs.mp designated) n found
  omega

-- Running a plan computes what the requested outlets mean, though tensors are dropped as soon as
-- nothing needs them.
theorem execute_refines (built : g.Built)
    (single : ∀ id ∈ g.inputs, ∀ n, g.get? id = some n → n.operator.outputCount = 1)
    (made : make config g refs known = .ok p) (accepted : p.bind g feeds = .ok bound) :
    Refines p g (refs.getD (g.outputs.map .outlet)) feeds bound := by
  have wired := built_wired built
  have ready := ready_of_bind wired single made accepted
  refine ⟨?_,?_,?_,?_,?_⟩
  · intro meaning
    obtain ⟨r,ran,values,evaluated⟩ := execute_returns ready accepted meaning
    refine ⟨r,ran,?_,evaluated⟩
    refine List.forall₂_iff_get.mpr ⟨?_,?_⟩
    · exact ready.laid.outputs.length_eq.trans values.length_eq
    · intro i asked given
      have middle : i < p.outputs.length := ready.laid.outputs.length_eq ▸ asked
      have value := values.get middle given
      exact ⟨_,ready.laid.outputs.get asked middle,fun u =>
        ⟨fun other => other.unique value,fun equal => equal ▸ value⟩⟩
  · intro undefined
    obtain ⟨before,id,after,f,split,meaning,fails,failed⟩ := execute_fails ready accepted undefined
    obtain ⟨n,args,found,-,evaluated⟩ := fails.evaluates
    obtain ⟨kind,node⟩ := evaluate_error evaluated
    rw [ready.wired.numbered.id_eq found] at node
    exact ⟨before,id,after,f,split,meaning,fails,kind,node,failed⟩
  · intro before id after s split ran
    refine ⟨?_,fun f failed => step_fails ready split ran failed⟩
    intro computed n found o source
    obtain ⟨accounts,meaning,-⟩ := prefix_accounts ready split ran
    obtain ⟨known,waits,t,value⟩ := sources_ready ready split meaning found computed o source
    exact ⟨t,Table.get_ok.mpr ((accounts.cache o t).mpr ⟨known,value,.inl waits⟩)⟩
  · exact fun change => replaced_execute ready change feeds
  · intro feeds' bound' accepted' agree
    exact execute_agree ready (ready_of_bind wired single made accepted') accepted accepted'
      (bind_agree ready.wired accepted accepted' agree)

-- The sample of the analysis, built step by step, and planned with what its analysis found.
def relayedPart (count : Nat) : Graph := ⟨0,"relayed",relayed.nodes.take count,[],[]⟩

theorem relayed_built : relayed.Built := by
  have x : (relayedPart 1).Built := .addNode (.empty 0 "relayed")
    (show (Graph.empty 0 "relayed").addNode (Op.placeholder stream).operator [] (some "x") =
      .ok (relayedPart 1,0) from rfl)
  have c : (relayedPart 2).Built := .addNode x
    (show (relayedPart 1).addNode (Op.const one).operator [] (some "c") =
      .ok (relayedPart 2,1) from rfl)
  have twice : (relayedPart 3).Built := .addNode c
    (show (relayedPart 2).addNode relay [⟨1,0⟩,⟨1,0⟩] (some "twice") = .ok (relayedPart 3,2) from rfl)
  have both : (relayedPart 4).Built := .addNode twice
    (show (relayedPart 3).addNode relay [⟨0,0⟩,⟨2,0⟩] (some "both") = .ok (relayedPart 4,3) from rfl)
  have fed : ({ relayedPart 4 with inputFacts := [(0,stream)] } : Graph).Built := .designateInput both
    (show (relayedPart 4).designateInput 0 none = .ok (_,stream) from rfl)
  exact .designateOutput fed
    (show Graph.designateOutput { relayedPart 4 with inputFacts := [(0,stream)] } ⟨3,0⟩ =
      .ok relayed from rfl)

theorem relayed_single : ∀ id ∈ relayed.inputs, ∀ n, relayed.get? id = some n →
    n.operator.outputCount = 1 := by
  intro id member n found
  obtain rfl := List.mem_singleton.mp member
  cases found
  rfl

def relayedPlan : Plan where
  graph := 0
  settings := ⟨true,true⟩
  analysis := some relayedAnalysis
  outputs := [⟨3,0⟩]
  schedule := [0,2,3]
  folded := [2]
  constants := ⟨[(⟨2,0⟩,one)]⟩
  uses := ⟨[(⟨0,0⟩,1),(⟨2,0⟩,1)]⟩
  required := [0]

theorem relayed_order : relayed.topologicalOrder (some [⟨3,0⟩]) [1,2] = .ok [0,2,3] :=
  topologicalOrder_walked [0,2,3] rfl (by decide) rfl rfl rfl

theorem relayed_make : make ⟨true,true⟩ relayed none (some relayedAnalysis) = .ok relayedPlan :=
  make_ok.mpr ⟨by rintro a ⟨⟩; rfl,[⟨3,0⟩],[1,2],[0,2,3],_,_,rfl,nofun,rfl,relayed_order,rfl,rfl,rfl⟩

theorem execute_refines_relayed : relayed.Built ∧
    make ⟨true,true⟩ relayed none (some relayedAnalysis) = .ok relayedPlan ∧
    relayedPlan.bind relayed [(.name "x",.tensor pair)] = .ok [(0,pair)] ∧
    Refines relayedPlan relayed [.outlet ⟨3,0⟩] [(.name "x",.tensor pair)] [(0,pair)] :=
  ⟨relayed_built,relayed_make,rfl,execute_refines relayed_built relayed_single relayed_make rfl⟩

end TensorGraph.Plan
