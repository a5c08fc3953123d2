import Mathlib.Data.List.Induction
import TensorGraph.Proofs.Graph.Acyclic
import TensorGraph.Proofs.Plan.Refinement

namespace TensorGraph.Plan
open Outcome TensorGraph.Graph Analysis

variable {g : Graph} {v : Outlet → Tensor} {a : Analysis} {p : Plan} {feeds : Feeds}

-- Feeds that give every designated input its tensor of an execution, each input once.
structure Supplies (g : Graph) (v : Outlet → Tensor) (feeds : Feeds) : Prop where
  each : ∀ feed ∈ Feeds.collapse feeds, ∃ n, g.resolve feed.1 = .ok n ∧ g.isInput n.id = true ∧
    feed.2 = .tensor (v ⟨n.id,0⟩)
  once : (Feeds.collapse feeds).Pairwise fun x y => ∀ n m, g.resolve x.1 = .ok n →
    g.resolve y.1 = .ok m → n.id ≠ m.id
  all : ∀ id ∈ g.inputs, ∃ feed ∈ Feeds.collapse feeds, ∃ n, g.resolve feed.1 = .ok n ∧ (n.id : Int) = id

-- Every outlet has a fact, and it holds of the execution.
def Describes (a : Analysis) (g : Graph) (v : Outlet → Tensor) : Prop :=
  ∀ n ∈ g.nodes, ∀ o ∈ n.outlets, ∃ f, a.facts.get? o = some f ∧ f.accepts (v o) = true

theorem run_describes (rules : g.SoundRules) (exec : g.Execution v)
    (ran : run limits g order = .ok a) : Describes a g v := by
  intro n member o outlet
  obtain ⟨f,found⟩ := Option.isSome_iff_exists.mp (run_covers ran n member o outlet)
  exact ⟨f,found,(run_holds rules exec ran o f found).2⟩

-- Validation never rejects what an execution feeds.
theorem receive_ok (rules : g.SoundRules) (exec : g.Execution v) (describes : Describes a g v)
    (analysed : p.analysis = some a) {n : Node} (member : n ∈ g.nodes) (designated : g.isInput n.id = true) :
    p.receive g n (.tensor (v ⟨n.id,0⟩)) = .ok (v ⟨n.id,0⟩) := by
  obtain ⟨declared,operator,entry⟩ := rules.inputs n member designated
  have outlet : (⟨n.id,0⟩ : Outlet) ∈ n.outlets := by
    rw [outlets_placeholder operator]
    exact List.mem_singleton_self _
  obtain ⟨f,fact,accept⟩ := describes n member _ outlet
  have checked : [declared,f].forM (fun f => (f.check (v ⟨n.id,0⟩)).mapError (rejected n)) = .ok () := by
    refine forM_ok.mpr fun h facts => mapError_ok.mpr (Fact.accepts_check.mp ?_)
    rcases List.mem_cons.mp facts with rfl | facts
    · exact exec.fed n member designated h entry
    · obtain rfl := List.mem_singleton.mp facts
      exact accept
  have both : p.inputFacts g n = .ok [declared,f] := by
    unfold inputFacts
    rw [entry,ok_bind,analysed]
    change (a.fact g ⟨n.id,0⟩ >>= _) = _
    rw [fact_ok.mpr fact]
    rfl
  unfold receive
  rw [entry,ok_bind]
  dsimp only [convert]
  rw [ok_bind,both,ok_bind]
  split
  · rw [checked]
    rfl
  · rfl

theorem bind_supplies (numbered : g.Numbered) (rules : g.SoundRules) (exec : g.Execution v)
    (describes : Describes a g v) (supplies : Supplies g v feeds) (analysed : p.analysis = some a)
    (required : ∀ id ∈ p.required, g.isInput id = true) : ∃ bound, p.bind g feeds = .ok bound ∧
      ∀ id, g.isInput id = true → bound.lookup id = some (v ⟨id,0⟩) := by
  have received : ∀ feed ∈ Feeds.collapse feeds, ∃ n t, g.resolve feed.1 = .ok n ∧
      g.isInput n.id = true ∧ p.receive g n feed.2 = .ok t ∧ t = v ⟨n.id,0⟩ := by
    intro feed member
    obtain ⟨n,resolved,designated,value⟩ := supplies.each feed member
    have node := Graph.get?_mem (resolve_known numbered resolved)
    exact ⟨n,_,resolved,designated,
      value ▸ receive_ok rules exec describes analysed node designated,rfl⟩
  obtain ⟨bound,ran⟩ := foldlM_bindOne_total [] (fun feed member =>
    (received feed member).imp fun n ⟨t,resolved,designated,got,_⟩ => ⟨t,resolved,designated,got⟩)
    supplies.once (fun _ _ _ _ => rfl)
  have lookup : ∀ id, g.isInput id = true → bound.lookup id = some (v ⟨id,0⟩) := by
    intro id designated
    obtain ⟨feed,member,n,resolved,rfl⟩ := supplies.all id (mem_inputs.mp designated)
    obtain ⟨m,t,resolved',_,got,rfl⟩ := received feed member
    rw [resolved] at resolved'
    cases resolved'
    exact (foldlM_bindOne ran _ _).mpr (.inr ⟨feed,member,n,resolved,rfl,designated,got⟩)
  refine ⟨bound,bind_ok_iff.mpr ⟨ran,fun id member => ?_⟩,lookup⟩
  rw [lookup id (required id member)]
  rfl

theorem allConstant_total {os : List Outlet} (known : ∀ o ∈ os, ∃ f, a.facts.get? o = some f) :
    ∃ b, allConstant a g os = .ok b := by
  induction os with
  | nil => exact ⟨true,rfl⟩
  | cons o os ih =>
    obtain ⟨⟨f,fact⟩,others⟩ := List.forall_mem_cons.mp known
    obtain ⟨b,rest⟩ := ih others
    unfold allConstant
    rw [fact_ok.mpr fact,ok_bind]
    split
    · exact ⟨b,rest⟩
    · exact ⟨false,rfl⟩

theorem filterAuxM_total {f : α → Outcome Bool} {xs : List α} (kept : List α) (each : ∀ x ∈ xs, ∃ b, f x = .ok b) :
    ∃ ys, xs.filterAuxM f kept = .ok ys := by
  induction xs generalizing kept with
  | nil => exact ⟨kept,rfl⟩
  | cons x xs ih =>
    obtain ⟨⟨b,checked⟩,others⟩ := List.forall_mem_cons.mp each
    unfold List.filterAuxM
    rw [checked,ok_bind]
    exact ih _ others

theorem constantNodes_total (describes : Describes a g v) : ∃ stop, constantNodes a g = .ok stop := by
  have each : ∀ n ∈ g.nodes.filter (fun n => !g.isInput n.id), ∃ b, allConstant a g n.outlets = .ok b := by
    intro n member
    refine allConstant_total fun o outlet => ?_
    obtain ⟨f,fact,-⟩ := describes n (List.mem_filter.mp member).1 o outlet
    exact ⟨f,fact⟩
  obtain ⟨ns,filtered⟩ := filterAuxM_total [] each
  refine ⟨ns.reverse.map fun n => Int.ofNat n.id,?_⟩
  unfold constantNodes List.filterM
  dsimp only
  rw [filtered]
  rfl

theorem constantTable_total (ids : List Int) (describes : Describes a g v) (known : ∀ id ∈ ids, g.Known id) :
    ∃ table, constantTable a g ids = .ok table := by
  refine foldlM_total (fun table id member => ?_) _
  obtain ⟨n,found⟩ := known id member
  rw [Graph.node_ok.mpr found,ok_bind]
  refine foldlM_total (fun table o outlet => ?_) _
  obtain ⟨f,fact,-⟩ := describes n (Graph.get?_mem found) o outlet
  rw [fact_ok.mpr fact,ok_bind]
  split <;> exact ⟨_,rfl⟩

theorem countUses_total (ids : List Int) (known : ∀ id ∈ ids, g.Known id) :
    ∃ uses, countUses g ids = .ok uses := by
  refine foldlM_total (fun table id member => ?_) _
  obtain ⟨n,found⟩ := known id member
  rw [Graph.node_ok.mpr found]
  exact ⟨_,rfl⟩

-- Every plan of existing outlets can be built, as long as what it takes from an analysis is there.
theorem make_total_of (wired : g.Wired) (acyclic : g.checkAcyclic = .ok ()) (same : ∀ a, known = some a → a.graph = g.serial)
    (requested : (refs.getD (g.outputs.map .outlet)).mapM (request g) = .ok asked) (nonempty : asked ≠ [])
    (bounded : ∃ stop, boundary config g known = .ok stop)
    (entered : ∀ ids, (∀ id ∈ ids, g.Known id) → ∃ table, foldedTable g ids known = .ok table) :
    ∃ p, make config g refs known = .ok p ∧ p.outputs = asked := by
  have exist : ∀ o ∈ asked, g.Known o.node := by
    intro o member
    obtain ⟨r,-,named⟩ := forall₂_right (mapM_ok.mp requested) o member
    obtain ⟨n,found,-⟩ := requested_outlet wired named
    exact ⟨n,found⟩
  obtain ⟨stop,bounded⟩ := bounded
  obtain ⟨line,ordered,all⟩ := checkAcyclic_order wired.rooted acyclic
  obtain ⟨order,placed⟩ := topologicalOrder_ok stop wired.rooted ordered all exist
  have schedule := topologicalOrder_schedule wired.rooted placed
  obtain ⟨constants,entered⟩ := entered (order.filter stop.contains)
    fun id member => schedule.known id (List.mem_filter.mp member).1
  obtain ⟨uses,counted⟩ := countUses_total
    (order.filter fun id => !(order.filter stop.contains).contains id)
    fun id member => schedule.known id (List.mem_filter.mp member).1
  exact ⟨_,make_ok.mpr ⟨same,asked,stop,order,constants,uses,requested,nonempty,bounded,placed,entered,counted,rfl⟩,rfl⟩

-- They can with an analysis of the graph, whatever of it they use.
theorem make_total (wired : g.Wired) (acyclic : g.checkAcyclic = .ok ()) (describes : Describes a g v)
    (same : a.graph = g.serial) (requested : (refs.getD (g.outputs.map .outlet)).mapM (request g) = .ok asked)
    (nonempty : asked ≠ []) (config : PlanSettings) : ∃ p, make config g refs (some a) = .ok p ∧ p.outputs = asked := by
  refine make_total_of wired acyclic (by rintro b ⟨⟩; exact same) requested nonempty ?_
    fun ids exist => constantTable_total ids describes exist
  unfold boundary
  dsimp only
  split
  · exact constantNodes_total describes
  · exact ⟨[],rfl⟩

-- A constant that describes a tensor compares equal to it, so it is the tensor.
theorem described_value (exec : g.Execution v) (describes : Describes a g v) {n : Node} (node : n ∈ g.nodes) {o : Outlet}
    (outlet : o ∈ n.outlets) {f : Fact} (fact : a.facts.get? o = some f) {t : Tensor} (value : f.value = some t) :
    t = v o := by
  obtain ⟨f',fact',accept⟩ := describes n node o outlet
  cases fact.symm.trans fact'
  obtain ⟨-,-,same⟩ := Fact.accepts_parts.mp accept
  exact Tensor.eq_of_same (exec.typed n node o outlet) (same t value)

theorem value_execution (wired : g.Wired) {o : Outlet} (has : g.HasOutlet o)
    (means : ∀ n, g.get? o.node = some n → Means p g bound o.node (n.outlets.map v)) :
    Value p g bound o (v o) := by
  obtain ⟨n,found,low,high⟩ := has
  have outlet : o ∈ n.outlets := Node.mem_outlets.mpr ⟨(wired.numbered.id_eq found).symm,low,high⟩
  refine ⟨low,_,means n found,?_⟩
  rw [List.getElem?_map,getElem?_outlets outlet]
  rfl

-- Along the schedule every node means what the execution holds at its outlets.
theorem means_execution (rules : g.SoundRules) (exec : g.Execution v) (describes : Describes a g v)
    (ready : Ready p g refs bound) (analysed : p.analysis = some a)
    (lookup : ∀ id, g.isInput id = true → bound.lookup id = some (v ⟨id,0⟩)) (before after : List Int)
    (split : p.schedule = before ++ after) :
    ∀ id ∈ before, ∀ n, g.get? id = some n → Means p g bound id (n.outlets.map v) := by
  induction before using List.reverseRecOn generalizing after with
  | nil => exact nofun
  | append_singleton before id ih =>
    have earlier := ih (id :: after) (by simpa using split)
    intro m member n found
    rcases List.mem_append.mp member with old | new
    · exact earlier m old n found
    obtain rfl := List.mem_singleton.mp new
    have node := Graph.get?_mem found
    have number := ready.wired.numbered.id_eq found
    cases designated : g.isInput m with
    | true =>
      obtain ⟨declared,operator,-⟩ := rules.inputs n node (number ▸ designated)
      have fed := lookup m designated
      rw [outlets_placeholder operator,number]
      exact .fed fed
    | false =>
      have unbound : bound.lookup m = none := by
        cases fed : bound.lookup m with
        | none => rfl
        | some t =>
          rw [ready.designated m (by simp [fed])] at designated
          cases designated
      by_cases folded : m ∈ p.folded
      · refine .folded unbound folded found analysed ?_
        rw [List.forall₂_map_right_iff,List.forall₂_same]
        intro o outlet
        obtain ⟨f,t,fact,value,-⟩ := ready.laid.constants m folded a analysed n found o outlet
        exact ⟨f,fact,by rw [value,described_value exec describes node outlet fact value]⟩
      · refine (means_evaluated unbound folded found).mpr ⟨n.inputs.map v,?_,?_⟩
        · rw [List.forall₂_map_right_iff,List.forall₂_same]
          intro o source
          have known := ready.laid.schedule.after before _ after n (by simpa using split) folded found o source
          exact value_execution ready.wired (ready.wired.sources n node o source) (earlier o.node known)
        · refine evaluate_ok.mpr ⟨exec.computed n node (number ▸ designated),?_⟩
          rw [List.length_map,Node.outlets_length]

-- A plan of an analysed graph runs on what an execution feeds, and computes what the execution
-- holds at the requested outlets, however much of the analysis it uses.
theorem execute_execution (numbered : g.Numbered) (rules : g.SoundRules)
    (ran : run limits g order = .ok a) (exec : g.Execution v) (supplies : Supplies g v feeds)
    (requested : (refs.getD (g.outputs.map .outlet)).mapM (request g) = .ok asked) (nonempty : asked ≠ [])
    (config : PlanSettings) : ∃ p r, make config g refs (some a) = .ok p ∧ p.execute g feeds = .ok r ∧
      r.outputs = asked.map v := by
  obtain ⟨valid,same,-⟩ := run_parts ran
  obtain ⟨wired,acyclic⟩ := validate_parts numbered valid
  have describes := run_describes rules exec ran
  obtain ⟨p,made,outputs⟩ := make_total wired acyclic describes same requested nonempty config
  obtain ⟨laid,-,analysed⟩ := make_laid wired made
  have required : ∀ id ∈ p.required, g.isInput id = true := by
    intro id member
    rw [laid.required] at member
    exact (List.mem_filter.mp member).2
  obtain ⟨bound,accepted,lookup⟩ := bind_supplies numbered rules exec describes supplies analysed required
  have single : ∀ id ∈ g.inputs, ∀ n, g.get? id = some n → n.operator.outputCount = 1 := by
    intro id member n found
    have designated : g.isInput n.id = true := by
      rw [numbered.id_eq found]
      exact mem_inputs.mpr member
    obtain ⟨_,operator,-⟩ := rules.inputs n (Graph.get?_mem found) designated
    rw [operator]
    rfl
  have ready : Ready p g (refs.getD (g.outputs.map .outlet)) bound := ready_of_bind wired single made accepted
  have means := means_execution rules exec describes ready analysed lookup p.schedule []
    (List.append_nil _).symm
  obtain ⟨r,executed,values,-⟩ := execute_returns ready accepted (by
    intro id scheduled
    obtain ⟨n,found⟩ := laid.schedule.known id scheduled
    exact ⟨_,means id scheduled n found⟩)
  refine ⟨p,r,made,executed,?_⟩
  rw [outputs] at values
  refine functional_map values fun o member t value => ?_
  obtain ⟨ref,-,named⟩ := forall₂_right (mapM_ok.mp requested) o member
  have scheduled := laid.schedule.targets o (outputs ▸ member)
  exact value.unique (value_execution wired (requested_outlet wired named) (means o.node scheduled))

-- Folded constants change what is scheduled, not what is computed: with and without them a plan that
-- validates its inputs runs and gives the same tensors, which are those of the execution.
theorem folding_keeps_outputs (numbered : g.Numbered) (rules : g.SoundRules)
    (ran : run limits g order = .ok a) (exec : g.Execution v) (supplies : Supplies g v feeds)
    (requested : (refs.getD (g.outputs.map .outlet)).mapM (request g) = .ok asked) (nonempty : asked ≠ []) :
    ∃ folding plain r s, make ⟨true,true⟩ g refs (some a) = .ok folding ∧
      make ⟨false,true⟩ g refs (some a) = .ok plain ∧ folding.execute g feeds = .ok r ∧
      plain.execute g feeds = .ok s ∧ r.outputs = s.outputs ∧ r.outputs = asked.map v := by
  obtain ⟨folding,r,made,executed,outputs⟩ :=
    execute_execution numbered rules ran exec supplies requested nonempty ⟨true,true⟩
  obtain ⟨plain,s,made',executed',outputs'⟩ :=
    execute_execution numbered rules ran exec supplies requested nonempty ⟨false,true⟩
  exact ⟨folding,plain,r,s,made,made',executed,executed',outputs.trans outputs'.symm,outputs⟩

theorem relayed_supplies : Supplies relayed relayedTensors [(.name "x",.tensor pair)] := by
  refine ⟨?_,List.pairwise_singleton _ _,?_⟩
  · intro feed member
    obtain rfl := List.mem_singleton.mp member
    exact ⟨_,rfl,rfl,rfl⟩
  · intro id member
    obtain rfl := List.mem_singleton.mp member
    exact ⟨_,List.mem_singleton_self _,_,rfl,rfl⟩

theorem folding_keeps_relayed : run .standard relayed [3,0] = .ok relayedAnalysis ∧
    ∃ folding plain r s, make ⟨true,true⟩ relayed none (some relayedAnalysis) = .ok folding ∧
      make ⟨false,true⟩ relayed none (some relayedAnalysis) = .ok plain ∧
      folding.execute relayed [(.name "x",.tensor pair)] = .ok r ∧
      plain.execute relayed [(.name "x",.tensor pair)] = .ok s ∧ r.outputs = s.outputs ∧ r.outputs = [pair] :=
  have requested : ((none : Option (List OutletRef)).getD (relayed.outputs.map .outlet)).mapM (request relayed) =
    .ok [⟨3,0⟩] := rfl
  ⟨relayed_run,folding_keeps_outputs (built_wired relayed_built).numbered relayed_rules relayed_run
    relayed_execution relayed_supplies requested (List.cons_ne_nil _ _)⟩

end TensorGraph.Plan
