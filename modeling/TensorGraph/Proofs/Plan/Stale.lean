import TensorGraph.Proofs.Analysis.Applied
import TensorGraph.Proofs.Graph.Scheduling
import TensorGraph.Proofs.Plan.Folding
import TensorGraph.Proofs.Plan.Frame
import TensorGraph.Proofs.Plan.Safety

namespace TensorGraph
open Outcome
open Relation (ReflTransGen)

namespace Plan
open TensorGraph.Graph Analysis

variable {p q : Plan} {g : Graph} {a : Analysis} {known : Option Analysis} {bound : Bindings} {config : PlanSettings}
  {limits : AnalysisSettings} {order : List Int} {refs : Option (List OutletRef)} {feeds : Feeds} {v : Outlet → Tensor}
  {n : Node} {t : Tensor}

section Faults

theorem node_raises (id : Int) : Raises (· = .invalidInput) (g.node id) :=
  fun f (failed : g.resolve (.id id) = .error f) => resolve_error failed

theorem fact_raises (o : Outlet) : Raises (· = .invalidInput) (a.fact g o) := by
  unfold Analysis.fact
  split
  · exact raises_ok _
  · exact (raises_fail _).mpr rfl

theorem request_raises (ref : OutletRef) : Raises (· = .invalidInput) (request g ref) := by
  have checked (n : Node) (slot : Int) : Raises (· = .invalidInput)
      (if 0 ≤ slot && slot < n.operator.outputCount then .ok ⟨Int.ofNat n.id,slot⟩
        else n.fail (.requestedSlotMissing slot n.opType n.operator.outputCount) : Outcome Outlet) := by
    split
    · exact raises_ok _
    · exact (raises_error _).mpr rfl
  unfold request
  cases ref with
  | node r => exact Raises.bind (fun _ => resolve_error) fun n _ => checked n 0
  | outlet o => exact (node_raises o.node).bind fun n _ => checked n o.slot

theorem allConstant_raises (os : List Outlet) : Raises (· = .invalidInput) (allConstant a g os) := by
  induction os with
  | nil => exact raises_ok _
  | cons o os ih =>
    refine (fact_raises o).bind fun f _ => ?_
    split
    · exact ih
    · exact raises_ok _

theorem raises_filterAuxM {K : Kind → Prop} {f : α → Outcome Bool} {xs : List α} (each : ∀ x ∈ xs, Raises K (f x))
    (kept : List α) : Raises K (xs.filterAuxM f kept) := by
  induction xs generalizing kept with
  | nil => exact raises_ok _
  | cons x xs ih =>
    obtain ⟨first,rest⟩ := List.forall_mem_cons.mp each
    exact first.bind fun _ _ => ih rest _

theorem boundary_raises : Raises (· = .invalidInput) (boundary config g known) := by
  cases known with
  | none => exact raises_ok _
  | some a =>
    unfold boundary
    dsimp only
    split
    · refine Raises.bind ?_ fun _ _ => raises_ok _
      exact (raises_filterAuxM (fun n _ => allConstant_raises n.outlets) []).bind fun _ _ => raises_ok _
    · exact raises_ok _

theorem foldedTable_raises (ids : List Int) : Raises (· = .invalidInput) (foldedTable g ids known) := by
  cases known with
  | none => exact raises_ok _
  | some a =>
    refine raises_foldlM (fun table id _ => (node_raises id).bind fun n _ => ?_) _
    refine raises_foldlM (fun table o _ => (fact_raises o).bind fun f _ => ?_) _
    split <;> exact raises_ok _

theorem countUses_raises (ids : List Int) : Raises (· = .invalidInput) (countUses g ids) :=
  raises_foldlM (fun _ id _ => (node_raises id).bind fun _ _ => raises_ok _) _

-- All that keeps a plan of a graph from being made is what it is asked for or what it is given.
theorem make_raises (inv : g.Invariant) : Raises (· = .invalidInput) (make config g refs known) := by
  by_cases same : ∀ a, known = some a → a.graph = g.serial
  · rw [make_eq same]
    refine (raises_mapM fun ref _ => request_raises ref).bind fun outputs _ => ?_
    dsimp only
    split
    · exact (raises_fail _).mpr rfl
    refine boundary_raises.bind fun stop _ => Raises.bind ?_ fun order _ => ?_
    · rcases topologicalOrder_cases inv (some outputs) stop with ⟨order,ran⟩ | ⟨_,_,o,_,_,ran⟩
      · exact ran ▸ raises_ok _
      · exact ran ▸ (raises_fail _).mpr rfl
    · exact (foldedTable_raises _).bind fun _ _ => (countUses_raises _).bind fun _ _ => raises_ok _
  · obtain ⟨a,rfl,other⟩ : ∃ a, known = some a ∧ a.graph ≠ g.serial := by simpa using same
    have foreign : make config g refs (some a) = TensorGraph.fail .foreignAnalysis := by simp [make,other]
    exact foreign ▸ (raises_fail _).mpr rfl

end Faults

-- Without an analysis less is asked of what is fed.
theorem receive_unanalysed (plain : q.analysis = none) (same : q.settings = p.settings) {value : Attribute}
    (received : p.receive g n value = .ok t) : q.receive g n value = .ok t := by
  obtain ⟨declared,entry,received⟩ := bind_ok.mp received
  obtain ⟨u,converted,received⟩ := bind_ok.mp received
  refine bind_ok.mpr ⟨declared,entry,bind_ok.mpr ⟨u,converted,?_⟩⟩
  dsimp only at received ⊢
  rw [same]
  split at received
  · rename_i validates
    obtain ⟨facts,found,received⟩ := bind_ok.mp received
    obtain ⟨⟨⟩,checked,equal⟩ := bind_ok.mp received
    cases equal
    obtain ⟨declared',again,found⟩ := bind_ok.mp found
    cases entry.symm.trans again
    have listed : declared ∈ facts := by
      split at found
      · obtain ⟨f,-,equal⟩ := bind_ok.mp found
        cases equal
        exact List.mem_cons_self
      · cases found
        exact List.mem_cons_self
    have facts : q.inputFacts g n = .ok [declared] := by
      unfold inputFacts
      rw [entry,ok_bind,plain]
      rfl
    rw [if_pos validates,facts,ok_bind]
    refine bind_ok.mpr ⟨(),forM_ok.mpr fun f member => ?_,rfl⟩
    obtain rfl := List.mem_singleton.mp member
    exact forM_ok.mp checked f listed
  · rename_i trusts
    rw [if_neg trusts]
    exact received

theorem bindOnes_unanalysed (plain : q.analysis = none) (same : q.settings = p.settings) {given : Feeds}
    (ran : given.foldlM (p.bindOne g) [] = .ok bound) : given.foldlM (q.bindOne g) [] = .ok bound := by
  have beside : Within Eq (given.foldlM (q.bindOne g) []) (given.foldlM (p.bindOne g) []) := by
    refine within_foldlM (P := Eq) ?_ (List.forall₂_same.mpr fun _ _ => rfl) rfl
    rintro before _ feed _ rfl rfl after step
    obtain ⟨n,t,resolved,designated,free,received,rfl⟩ := bindOne_ok.mp step
    exact ⟨_,bindOne_ok.mpr ⟨n,t,resolved,designated,free,receive_unanalysed plain same received,rfl⟩,rfl⟩
  obtain ⟨_,again,rfl⟩ := beside bound ran
  exact again

-- An input that is required and not bound is missed.
theorem bind_missing (known : ∀ id ∈ p.required, g.Known id)
    (ran : (Feeds.collapse feeds).foldlM (p.bindOne g) [] = .ok bound)
    (missing : ¬ ∀ id ∈ p.required, (bound.lookup id).isSome = true) :
    ∃ e, p.bind g feeds = .error e ∧ e.kind = .missingInput := by
  have each : ∀ id ∈ p.required.filter fun id => (bound.lookup id).isNone, ∃ text, (do
      let n ← g.node id
      return s!"#{id} {n.name}" : Outcome String) = .ok text := by
    intro id member
    obtain ⟨n,found⟩ := known id (List.mem_filter.mp member).1
    exact ⟨_,by rw [node_ok.mpr found]; rfl⟩
  obtain ⟨names,named⟩ := exists_forall₂ each
  unfold bind
  rw [ran,ok_bind]
  dsimp only
  rw [if_neg ?_,mapM_ok.mpr named]
  · exact ⟨_,rfl,rfl⟩
  · intro supplied
    refine missing fun id member => ?_
    rw [List.isEmpty_iff,List.filter_eq_nil_iff] at supplied
    simpa using supplied id member

-- Tensors that the graph computes from what is bound, at the folded nodes and at all that they are computed from, and
-- that are what the plan takes for the folded ones.
structure Backed (p : Plan) (g : Graph) (bound : Bindings) (v : Outlet → Tensor) (behind : Int → Prop) : Prop where
  folded : ∀ id ∈ p.folded, behind id
  closed : ∀ id m, behind id → g.Needs id m → behind m
  fed : ∀ id n t, behind id → g.get? id = some n → bound.lookup id = some t → n.outlets.map v = [t]
  computed : ∀ id n, behind id → g.get? id = some n → g.isInput id = false →
    n.operator.eval (n.inputs.map v) = .ok (n.outlets.map v)
  constants : ∀ id ∈ p.folded, ∀ n, g.get? id = some n → ∀ o ∈ n.outlets, ∀ a f t, p.analysis = some a →
    a.facts.get? o = some f → f.value = some t → t = v o

variable {behind : Int → Prop} {listed : List OutletRef}

-- Along the schedule of a plan that folds nothing, what stands behind the folded nodes is computed anew, and every other
-- node means what it means to the plan that folds.
theorem means_unfolded (ready : Ready q g listed bound) (unfolded : q.folded = []) (backed : Backed p g bound v behind)
    (before after : List Int) (split : q.schedule = before ++ after) : ∀ id ∈ before,
      (behind id → ∀ n, g.get? id = some n → Means q g bound id (n.outlets.map v)) ∧
        ∀ ts, Means p g bound id ts → Means q g bound id ts := by
  induction before using List.reverseRecOn generalizing after with
  | nil => exact nofun
  | append_singleton before id ih =>
    have earlier := ih (id :: after) (by simpa using split)
    intro m member
    rcases List.mem_append.mp member with old | new
    · exact earlier m old
    obtain rfl := List.mem_singleton.mp new
    have evaluates : m ∉ q.folded := by
      rw [unfolded]
      exact List.not_mem_nil
    have sources {n : Node} (found : g.get? m = some n) : ∀ o ∈ n.inputs, o.node ∈ before :=
      ready.laid.schedule.after before m after n (by simpa using split) evaluates found
    have backs : behind m → ∀ n, g.get? m = some n → Means q g bound m (n.outlets.map v) := by
      intro stands n found
      cases fed : bound.lookup m with
      | some t =>
        rw [backed.fed m n t stands found fed]
        exact .fed fed
      | none =>
        have scheduled : m ∈ q.schedule := by rw [split]; simp
        have computed : g.isInput m = false := by
          rw [← scheduled_fed ready scheduled,fed]
          rfl
        refine (means_evaluated fed evaluates found).mpr ⟨n.inputs.map v,?_,?_⟩
        · rw [List.forall₂_map_right_iff,List.forall₂_same]
          intro o source
          have needs : g.Needs m o.node := needs_iff.mpr ⟨n,found,List.mem_map.mpr ⟨o,source,rfl⟩⟩
          exact value_execution ready.wired (ready.wired.sources n (get?_mem found) o source)
            ((earlier o.node (sources found o source)).1 (backed.closed m o.node stands needs))
        · refine evaluate_ok.mpr ⟨backed.computed m n stands found computed,?_⟩
          rw [List.length_map,Node.outlets_length]
    refine ⟨backs,fun ts means => ?_⟩
    cases means with
    | fed fed => exact .fed fed
    | folded unbound folded found analysed values =>
      rw [functional_map values fun o outlet t ⟨f,fact,value⟩ =>
        backed.constants m folded _ found o outlet _ f t analysed fact value]
      exact backs (backed.folded m folded) _ found
    | evaluated unbound computed found inputs args evaluated count =>
      exact .evaluated unbound evaluates found
        (fun o source => (earlier o.node (sources found o source)).2 _ (inputs o source)) args evaluated count

-- What a plan that folds nothing schedules, the plan that folds schedules too or stands behind what it folds.
theorem scheduled_unfolded (rooted : g.Rooted) (made : make config g refs none = .ok q) (ready : Ready p g listed bound)
    (same : p.outputs = q.outputs) (backed : Backed p g bound v behind) {id : Int} (scheduled : id ∈ q.schedule) :
    id ∈ p.schedule ∨ behind id := by
  obtain ⟨-,outputs,stop,order,_,_,-,-,-,ordered,-,-,rfl⟩ := make_ok.mp made
  obtain ⟨o,target,path⟩ := ((topologicalOrder_arranged rooted ordered).members id).mp scheduled
  clear scheduled
  induction path with
  | refl => exact .inl (ready.laid.schedule.targets o (same ▸ target))
  | @tail a b _ step ih =>
    obtain ⟨n,found,producer⟩ := needs_iff.mp step.2
    rcases ih with member | stands
    · by_cases folded : a ∈ p.folded
      · exact .inr (backed.closed a b (backed.folded a folded) step.2)
      · obtain ⟨before,after,split⟩ := List.append_of_mem member
        obtain ⟨o',source,rfl⟩ := List.mem_map.mp producer
        have earlier := ready.laid.schedule.after before a after n split folded found o' source
        exact .inl (by rw [split]; exact List.mem_append_left _ earlier)
    · exact .inr (backed.closed a b stands step.2)

-- With the tensors of its folded nodes computed anew, a plan returns what it returned with them.
theorem execute_unfolded (made : make config g refs none = .ok q) (ready : Ready p g listed bound)
    (fresh : Ready q g listed bound) (unfolded : q.folded = []) (same : p.outputs = q.outputs)
    (backed : Backed p g bound v behind) (accepted : p.bind g feeds = .ok bound) (accepted' : q.bind g feeds = .ok bound)
    (ran : p.execute g feeds = .ok r) : ∃ s, q.execute g feeds = .ok s ∧ s.outputs = r.outputs := by
  have meaning : ∀ id ∈ p.schedule, ∃ ts, Means p g bound id ts := by
    by_contra undefined
    obtain ⟨_,_,_,_,-,-,-,failed⟩ := execute_fails ready accepted undefined
    cases ran.symm.trans failed
  obtain ⟨_,again,values,-⟩ := execute_returns ready accepted meaning
  cases ran.symm.trans again
  have means := means_unfolded fresh unfolded backed q.schedule [] (List.append_nil _).symm
  obtain ⟨s,executed,values',-⟩ := execute_returns fresh accepted' fun id scheduled => by
    rcases scheduled_unfolded ready.wired.rooted made ready same backed scheduled with member | stands
    · obtain ⟨ts,held⟩ := meaning id member
      exact ⟨ts,(means id scheduled).2 ts held⟩
    · obtain ⟨n,found⟩ := fresh.laid.schedule.known id scheduled
      exact ⟨_,(means id scheduled).1 stands n found⟩
  refine ⟨s,executed,functional_forall₂ values' (same ▸ values) fun o target t u left right => ?_⟩
  obtain ⟨low,ts,held,at_⟩ := right
  exact left.unique ⟨low,ts,(means o.node (fresh.laid.schedule.targets o target)).2 ts held,at_⟩

theorem filterAuxM_asks {f : α → Outcome Bool} {xs kept ys : List α} (ran : xs.filterAuxM f kept = .ok ys) :
    ∀ x ∈ xs, ∃ b, f x = .ok b := by
  induction xs generalizing kept with
  | nil => exact nofun
  | cons x xs ih =>
    obtain ⟨b,asked,ran⟩ := bind_ok.mp ran
    exact List.forall_mem_cons.mpr ⟨⟨b,asked⟩,ih ran⟩

-- A plan that folds looks up every node, and finds out where the analysis does not know one.
theorem make_unknown (made : make config g refs (some a) = .ok p) (folds : config.useFoldedConstants = true)
    (member : n ∈ g.nodes) (computed : g.isInput n.id = false) (yields : 0 < n.operator.outputCount) :
    ∃ o ∈ n.outlets, ∃ f, a.facts.get? o = some f := by
  obtain ⟨-,_,_,_,_,_,-,-,bounded,-⟩ := make_ok.mp made
  unfold boundary at bounded
  dsimp only at bounded
  rw [if_pos folds] at bounded
  obtain ⟨ns,filtered,-⟩ := bind_ok.mp bounded
  obtain ⟨_,collected,-⟩ := bind_ok.mp filtered
  obtain ⟨b,asked⟩ := filterAuxM_asks collected n (List.mem_filter.mpr ⟨member,by simpa using computed⟩)
  obtain ⟨o,os,outlets⟩ := List.exists_cons_of_length_pos (n.outlets_length ▸ yields)
  rw [outlets] at asked
  obtain ⟨f,fact,-⟩ := bind_ok.mp asked
  exact ⟨o,outlets ▸ List.mem_cons_self,f,fact_ok.mp fact⟩

-- What a plan relies on that folds although the graph was added to since it was analysed: everything that the folded
-- nodes were computed from is as it was, and what is fed is fed in an execution that the analysis speaks of.
structure Current (p : Plan) (g g' : Graph) (a : Analysis) (bound : Bindings) : Prop where
  kept : ∀ id ∈ p.folded, ∀ m, ReflTransGen g.Needs id m → g'.get? m = g.get? m
  applies : ∃ v, a.Applies g v ∧ ∀ id t, bound.lookup id = some t → t = v ⟨id,0⟩

theorem Current.backed {g' : Graph} (current : Current p g g' a bound) (numbered : g.Numbered) (builtIn : g.BuiltIn)
    (ran : run limits g order = .ok a) (inputs : ∀ id, g'.isInput id = g.isInput id) (analysed : p.analysis = some a) :
    ∃ v, Backed p g' bound v fun m => ∃ id ∈ p.folded, ReflTransGen g.Needs id m := by
  obtain ⟨v,applies,fed⟩ := current.applies
  have holds := applies.holds numbered builtIn ran
  have describes : Describes a g v := by
    intro n member o outlet
    obtain ⟨f,found⟩ := Option.isSome_iff_exists.mp (run_covers ran n member o outlet)
    exact ⟨f,found,(holds o f found).2⟩
  have here {m : Int} {n : Node} : (∃ id ∈ p.folded, ReflTransGen g.Needs id m) → g'.get? m = some n →
      g.get? m = some n := fun ⟨id,folded,path⟩ found => current.kept id folded m path ▸ found
  refine ⟨v,fun id folded => ⟨id,folded,.refl⟩,?_,?_,?_,?_⟩
  · rintro m m' stands needs
    obtain ⟨n,found,producer⟩ := needs_iff.mp needs
    have needed : g.Needs m m' := needs_iff.mpr ⟨n,here stands found,producer⟩
    obtain ⟨id,folded,path⟩ := stands
    exact ⟨id,folded,path.tail needed⟩
  · intro m n t stands found entry
    have found := here stands found
    obtain ⟨o,operator⟩ := builtIn n (get?_mem found)
    rw [outlets_operator operator,numbered.id_eq found,fed m t entry]
    rfl
  · intro m n stands found computed
    have found := here stands found
    rw [inputs,← numbered.id_eq found] at computed
    exact applies.computed n (get?_mem found) computed
  · intro id folded n found o outlet b f t analysed' fact value
    cases analysed.symm.trans analysed'
    have found := here ⟨id,folded,.refl⟩ found
    exact described_value applies.toExecution describes (get?_mem found) outlet fact value

theorem make_unfolded (wired : g.Wired) (made : make config g refs none = .ok q) : q.folded = [] := by
  obtain ⟨laid,-,plain⟩ := make_laid wired made
  refine List.eq_nil_iff_forall_not_mem.mpr fun id folded => ?_
  obtain ⟨_,analysed,-⟩ := laid.folded id folded
  cases plain.symm.trans analysed

section Grown

variable {calls : List Call}

-- What is added is no input, and each input still has the one outlet it is fed at.
theorem after_single (built : g.Built) (builtIn : g.BuiltIn) (adds : ∀ c ∈ calls, c.Outside []) :
    ∀ id ∈ (g.after calls).inputs, ∀ n, (g.after calls).get? id = some n → n.operator.outputCount = 1 := by
  intro id designated n found
  have input : g.isInput id = true := (after_grown built adds).isInput id ▸ mem_inputs.mpr designated
  obtain ⟨m,there,-⟩ := built_entered built id (mem_inputs.mp input)
  obtain ⟨i,rfl,at_⟩ := get?_some.mp there
  obtain ⟨n',at',operator⟩ := after_kept g calls i m at_
  cases found.symm.trans (get?_some.mpr ⟨i,rfl,at'⟩)
  obtain ⟨o,builtIn⟩ := builtIn m (get?_mem there)
  rw [operator,builtIn]
  rfl

-- A node that was added after the analysis keeps a plan that folds from being made.
theorem make_notices (built : g.Built) (builtIn : g.BuiltIn) (ran : run limits g order = .ok a)
    (adds : ∀ c ∈ calls, c.Outside []) (folds : config.useFoldedConstants = true) (member : n ∈ (g.after calls).nodes)
    (added : g.get? n.id = none) (yields : 0 < n.operator.outputCount) :
    ∃ e, make config (g.after calls) refs (some a) = .error e := by
  cases made : make config (g.after calls) refs (some a) with
  | error e => exact ⟨e,rfl⟩
  | ok p =>
    have computed : (g.after calls).isInput n.id = false := by
      refine Bool.eq_false_iff.mpr fun designated => ?_
      rw [(after_grown built adds).isInput] at designated
      obtain ⟨_,there,-⟩ := built_entered built n.id (mem_inputs.mp designated)
      cases added.symm.trans there
    obtain ⟨o,outlet,f,fact⟩ := make_unknown made folds member computed yields
    obtain ⟨m,there,outlet'⟩ := run_inside builtIn ran o (Table.mem_keys.mpr ⟨f,fact⟩)
    have same : (n.id : Int) = m.id := (Node.mem_outlets.mp outlet).1.symm.trans (Node.mem_outlets.mp outlet').1
    rw [same,(built_wired built).numbered.get?_id there] at added
    cases added

end Grown

-- An analysis is not compared with the graph as it is now. Where a plan can be made with it after the graph was added
-- to, the plan returns what a plan without the analysis returns, unless something behind a folded node was changed or
-- what is fed is fed in no execution that the analysis speaks of. As nothing behind folded nodes is computed, the plan
-- may do with fewer inputs. A node that was added is noticed where the plan folds.
theorem stale_agrees (built : g.Built) (builtIn : g.BuiltIn) (ran : run limits g order = .ok a) {calls : List Call}
    (adds : ∀ c ∈ calls, c.Outside []) (config : PlanSettings) (refs : Option (List OutletRef)) :
    (∀ e, make config (g.after calls) refs (some a) = .error e → e.kind = .invalidInput) ∧
    (config.useFoldedConstants = true → ∀ n ∈ (g.after calls).nodes, g.get? n.id = none → 0 < n.operator.outputCount →
      ∃ e, make config (g.after calls) refs (some a) = .error e) ∧
    ∀ p, make config (g.after calls) refs (some a) = .ok p → ∃ q, make config (g.after calls) refs none = .ok q ∧
      ∀ feeds bound r, p.bind (g.after calls) feeds = .ok bound → p.execute (g.after calls) feeds = .ok r →
        (p.folded ≠ [] → Current p g (g.after calls) a bound) →
        ((∀ id ∈ q.required, (bound.lookup id).isSome = true) →
          ∃ s, q.execute (g.after calls) feeds = .ok s ∧ s.outputs = r.outputs) ∧
        ((¬ ∀ id ∈ q.required, (bound.lookup id).isSome = true) →
          ∃ e, q.execute (g.after calls) feeds = .error e ∧ e.kind = .missingInput) := by
  have inv : (g.after calls).Invariant := built_invariant (after_built built calls)
  have wired := inv.toWired
  have grown := after_grown built adds
  have numbered := (built_wired built).numbered
  refine ⟨make_raises inv,fun folds n member added => make_notices built builtIn ran adds folds member added,?_⟩
  intro p made
  obtain ⟨laid,settled,analysed⟩ := make_laid wired made
  obtain ⟨-,asked,_,_,_,_,requested,nonempty,-,-,-,-,equal⟩ := make_ok.mp made
  have outputs : p.outputs = asked := by rw [equal]
  have planned : ∃ q, make config (g.after calls) refs none = .ok q ∧ q.outputs = asked :=
    make_total_of wired (checkAcyclic_ok wired.rooted inv.acyclic) nofun requested nonempty ⟨[],rfl⟩
      fun _ _ => ⟨.empty,rfl⟩
  obtain ⟨q,made',outputs'⟩ := planned
  obtain ⟨laid',settled',plain⟩ := make_laid wired made'
  have single := after_single built builtIn adds
  refine ⟨q,made',fun feeds bound r accepted executed current => ?_⟩
  obtain ⟨bindings,-⟩ := bind_ok_iff.mp accepted
  have again := bindOnes_unanalysed plain (settled'.trans settled.symm) bindings
  have known : ∀ id ∈ q.required, (g.after calls).Known id := by
    intro id required
    rw [laid'.required] at required
    exact laid'.schedule.known id (List.mem_filter.mp required).1
  refine ⟨fun supplied => ?_,fun missing => ?_⟩
  · have accepted' := bind_ok_iff.mpr ⟨again,supplied⟩
    have ready := ready_of_bind wired single made accepted
    have fresh := ready_of_bind wired single made' accepted'
    obtain ⟨v,behind,backed⟩ : ∃ v behind, Backed p (g.after calls) bound v behind := by
      by_cases nothing : p.folded = []
      · exact ⟨fun _ => one,fun _ => False,by simp [nothing],fun _ _ => False.elim,fun _ _ _ => False.elim,
          fun _ _ => False.elim,by simp [nothing]⟩
      · obtain ⟨v,backed⟩ := (current nothing).backed numbered builtIn ran grown.isInput analysed
        exact ⟨v,_,backed⟩
    exact execute_unfolded made' ready fresh (make_unfolded wired made') (outputs.trans outputs'.symm) backed accepted
      accepted' executed
  · obtain ⟨e,failed,kind⟩ := bind_missing known again missing
    exact ⟨e,by unfold execute; rw [failed]; rfl,kind⟩

-- A fed level stands in a row behind what is computed from constants.
def whole (i : Int) : Tensor := ⟨.i64,[1],[.int i]⟩
def level : Fact := .outline (some .i64) (some [.known 1])

def alignedPart (source : Outlet) (terms : List Outlet) (count : Nat) : Graph :=
  ⟨0,"aligned",[⟨0,"c",(Op.const (whole 1)).operator,[]⟩,⟨1,"d",(Op.const (whole 2)).operator,[]⟩,
    ⟨2,"y",(Op.unary .neg).operator,[source]⟩,⟨3,"x",(Op.placeholder level).operator,[]⟩,
    ⟨4,"z",(Op.concat 0).operator,terms⟩].take count,[],[]⟩

def aligned (source : Outlet) (terms : List Outlet) : Graph :=
  { alignedPart source terms 5 with inputFacts := [(3,level)], outputs := [⟨4,0⟩] }

theorem aligned_node {P : Node → Prop} {source : Outlet} {terms : List Outlet}
    (c : P ⟨0,"c",(Op.const (whole 1)).operator,[]⟩) (d : P ⟨1,"d",(Op.const (whole 2)).operator,[]⟩)
    (y : P ⟨2,"y",(Op.unary .neg).operator,[source]⟩) (x : P ⟨3,"x",(Op.placeholder level).operator,[]⟩)
    (z : P ⟨4,"z",(Op.concat 0).operator,terms⟩) : ∀ n ∈ (aligned source terms).nodes, P n := by
  intro n member
  simp only [aligned,alignedPart,List.take,List.mem_cons,List.not_mem_nil,or_false] at member
  rcases member with rfl | rfl | rfl | rfl | rfl
  exacts [c,d,y,x,z]

def negated : Graph := aligned ⟨0,0⟩ [⟨2,0⟩,⟨3,0⟩]

theorem negated_built : negated.Built := by
  have c : (alignedPart ⟨0,0⟩ [⟨2,0⟩,⟨3,0⟩] 1).Built := .addNode (.empty 0 "aligned")
    (show (Graph.empty 0 "aligned").addNode (Op.const (whole 1)).operator [] (some "c") = .ok (_,0) from rfl)
  have d : (alignedPart ⟨0,0⟩ [⟨2,0⟩,⟨3,0⟩] 2).Built := .addNode c
    (show (alignedPart ⟨0,0⟩ [⟨2,0⟩,⟨3,0⟩] 1).addNode (Op.const (whole 2)).operator [] (some "d") = .ok (_,1) from rfl)
  have y : (alignedPart ⟨0,0⟩ [⟨2,0⟩,⟨3,0⟩] 3).Built := .addNode d
    (show (alignedPart ⟨0,0⟩ [⟨2,0⟩,⟨3,0⟩] 2).addNode (Op.unary .neg).operator [⟨0,0⟩] (some "y") = .ok (_,2) from rfl)
  have x : (alignedPart ⟨0,0⟩ [⟨2,0⟩,⟨3,0⟩] 4).Built := .addNode y
    (show (alignedPart ⟨0,0⟩ [⟨2,0⟩,⟨3,0⟩] 3).addNode (Op.placeholder level).operator [] (some "x") = .ok (_,3) from rfl)
  have z : (alignedPart ⟨0,0⟩ [⟨2,0⟩,⟨3,0⟩] 5).Built := .addNode x
    (show (alignedPart ⟨0,0⟩ [⟨2,0⟩,⟨3,0⟩] 4).addNode (Op.concat 0).operator [⟨2,0⟩,⟨3,0⟩] (some "z") = .ok (_,4) from rfl)
  have fed : ({ alignedPart ⟨0,0⟩ [⟨2,0⟩,⟨3,0⟩] 5 with inputFacts := [(3,level)] } : Graph).Built := .designateInput z
    (show (alignedPart ⟨0,0⟩ [⟨2,0⟩,⟨3,0⟩] 5).designateInput 3 none = .ok (_,level) from rfl)
  exact .designateOutput fed (show Graph.designateOutput
    { alignedPart ⟨0,0⟩ [⟨2,0⟩,⟨3,0⟩] 5 with inputFacts := [(3,level)] } ⟨4,0⟩ = .ok negated from rfl)

theorem aligned_builtIn (source : Outlet) (terms : List Outlet) : (aligned source terms).BuiltIn :=
  aligned_node ⟨_,rfl⟩ ⟨_,rfl⟩ ⟨_,rfl⟩ ⟨_,rfl⟩ ⟨_,rfl⟩

def negatedAnalysis : Analysis :=
  ⟨0,⟨[(⟨0,0⟩,.constant (whole 1)),(⟨1,0⟩,.constant (whole 2)),(⟨2,0⟩,.constant (whole (-1))),(⟨3,0⟩,level),
    (⟨4,0⟩,.outline (some .i64) (some [.known 2]))]⟩,7⟩

theorem negated_run : run .standard negated [] = .ok negatedAnalysis := by rfl

-- The plan that takes -1 for the negated constant, when the level stands behind it so many times.
def folding (levels : Int) : Plan where
  graph := 0
  settings := ⟨true,true⟩
  analysis := some negatedAnalysis
  outputs := [⟨4,0⟩]
  schedule := [2,3,4]
  folded := [2]
  constants := ⟨[(⟨2,0⟩,whole (-1))]⟩
  uses := ⟨[(⟨2,0⟩,1),(⟨3,0⟩,levels)]⟩
  required := [3]

-- The negated constant is another one now.
def renegated : Graph := aligned ⟨1,0⟩ [⟨2,0⟩,⟨3,0⟩]

theorem renegated_order : renegated.topologicalOrder (some [⟨4,0⟩]) [0,1,2] = .ok [2,3,4] ∧
    renegated.topologicalOrder (some [⟨4,0⟩]) [] = .ok [1,2,3,4] :=
  ⟨topologicalOrder_walked [2,3,4] rfl (by decide) rfl rfl rfl,
    topologicalOrder_walked [1,2,3,4] rfl (by decide) rfl rfl rfl⟩

def plainPlan : Plan where
  graph := 0
  settings := ⟨true,true⟩
  analysis := none
  outputs := [⟨4,0⟩]
  schedule := [1,2,3,4]
  folded := []
  constants := .empty
  uses := ⟨[(⟨1,0⟩,1),(⟨2,0⟩,1),(⟨3,0⟩,1)]⟩
  required := [3]

theorem renegated_makes : make ⟨true,true⟩ renegated none (some negatedAnalysis) = .ok (folding 1) ∧
    make ⟨true,true⟩ renegated none none = .ok plainPlan :=
  ⟨make_ok.mpr ⟨by rintro a ⟨⟩; rfl,[⟨4,0⟩],[0,1,2],[2,3,4],_,_,rfl,nofun,rfl,renegated_order.1,rfl,rfl,rfl⟩,
    make_ok.mpr ⟨nofun,[⟨4,0⟩],[],[1,2,3,4],_,_,rfl,nofun,rfl,renegated_order.2,rfl,rfl,rfl⟩⟩

-- The shape of the row that is laid out. The analysis knows it from the grid beside the row.
def gauged : Graph := { loose with nodes := loose.nodes ++ [⟨5,"s",Op.shape.operator,[⟨3,0⟩]⟩] }

theorem gauged_built : gauged.Built := .addNode loose_built
  (show loose.addNode Op.shape.operator [⟨3,0⟩] (some "s") = .ok (gauged,5) from rfl)

theorem gauged_builtIn : gauged.BuiltIn := by
  intro n member
  rcases List.mem_append.mp member with old | new
  · exact packed_builtIn _ _ n old
  · exact List.mem_singleton.mp new ▸ ⟨_,rfl⟩

def gaugedAnalysis : Analysis :=
  ⟨0,⟨(packedAnalysis couple).facts.entries ++ [(⟨5,0⟩,.constant layout)]⟩,9⟩

theorem gauged_run : run .standard gauged [] = .ok gaugedAnalysis := by rfl

def gaugedPlan (known : Option Analysis) (schedule folded required : List Int) (constants : Table Tensor)
    (uses : Table Int) : Plan :=
  ⟨0,⟨true,true⟩,known,[⟨5,0⟩],schedule,folded,constants,uses,required⟩

theorem gauged_order : gauged.topologicalOrder (some [⟨5,0⟩]) [5] = .ok [5] ∧
    gauged.topologicalOrder (some [⟨5,0⟩]) [] = .ok [1,2,3,5] :=
  ⟨topologicalOrder_walked [5] rfl (by decide) rfl rfl rfl,
    topologicalOrder_walked [1,2,3,5] rfl (by decide) rfl rfl rfl⟩

theorem gauged_makes :
    make ⟨true,true⟩ gauged (some [.node (.name "s")]) (some gaugedAnalysis) =
      .ok (gaugedPlan (some gaugedAnalysis) [5] [5] [] ⟨[(⟨5,0⟩,layout)]⟩ .empty) ∧
    make ⟨true,true⟩ gauged (some [.node (.name "s")]) none =
      .ok (gaugedPlan none [1,2,3,5] [] [1,2] .empty ⟨[(⟨1,0⟩,1),(⟨2,0⟩,1),(⟨3,0⟩,1)]⟩) :=
  ⟨make_ok.mpr ⟨by rintro a ⟨⟩; rfl,[⟨5,0⟩],[5],[5],_,_,rfl,nofun,rfl,gauged_order.1,rfl,rfl,rfl⟩,
    make_ok.mpr ⟨nofun,[⟨5,0⟩],[],[1,2,3,5],_,_,rfl,nofun,rfl,gauged_order.2,rfl,rfl,rfl⟩⟩

-- Nothing tells that the negated constant is another one: the plan is made, and returns what it was before. Where
-- nothing was changed, a plan still returns something else when it is fed what the graph as a whole cannot be fed.
theorem stale_disagrees : (¬ ∀ (g g' : Graph) (source : Outlet) (target : Inlet) (limits : AnalysisSettings)
    (order : List Int) (a : Analysis) (config : PlanSettings) (refs : Option (List OutletRef)), g.Built → g.BuiltIn →
    run limits g order = .ok a → g.addEdge source target = .ok g' →
    (∃ e, make config g' refs (some a) = .error e ∧ e.kind = .invalidInput) ∨
      ∃ p, make config g' refs (some a) = .ok p ∧ ∀ feeds r, p.execute g' feeds = .ok r →
        ∃ q s, make config g' refs none = .ok q ∧ q.execute g' feeds = .ok s ∧ s.outputs = r.outputs) ∧
    ¬ ∀ (g : Graph) (limits : AnalysisSettings) (order : List Int) (a : Analysis) (config : PlanSettings)
      (refs : Option (List OutletRef)) (p q : Plan) (feeds : Feeds) (r s : RunResult), g.Built → g.BuiltIn →
      run limits g order = .ok a → make config g refs (some a) = .ok p → make config g refs none = .ok q →
      p.execute g feeds = .ok r → q.execute g feeds = .ok s → s.outputs = r.outputs := by
  refine ⟨fun claim => ?_,fun claim => ?_⟩
  · have added : negated.addEdge ⟨1,0⟩ ⟨2,0⟩ = .ok renegated := rfl
    obtain ⟨made,plain⟩ := renegated_makes
    rcases claim _ _ _ _ _ _ _ ⟨true,true⟩ none negated_built (aligned_builtIn _ _) negated_run added with
      ⟨e,failed,-⟩ | ⟨p,again,agrees⟩
    · cases made.symm.trans failed
    · cases made.symm.trans again
      obtain ⟨q,s,again,executed,same⟩ := agrees [(.name "x",.tensor (whole 5))] ⟨[⟨.i64,[2],[.int (-1),.int 5]⟩],
        ⟨[4],3,[[⟨2,0⟩],[⟨2,0⟩,⟨3,0⟩],[⟨4,0⟩]]⟩⟩ rfl
      cases plain.symm.trans again
      cases executed
      cases same
  · obtain ⟨made,plain⟩ := gauged_makes
    let feeds : Feeds := [(.name "k",.tensor block),(.name "x",.tensor row),(.name "t",.tensor ⟨.i64,[2],[.int 3,.int 2]⟩)]
    obtain ⟨r,executed,known⟩ : ∃ r, (gaugedPlan (some gaugedAnalysis) [5] [5] [] ⟨[(⟨5,0⟩,layout)]⟩ .empty).execute gauged
        feeds = .ok r ∧ r.outputs = [layout] := ⟨_,rfl,rfl⟩
    obtain ⟨s,executed',found⟩ : ∃ s, (gaugedPlan none [1,2,3,5] [] [1,2] .empty
        ⟨[(⟨1,0⟩,1),(⟨2,0⟩,1),(⟨3,0⟩,1)]⟩).execute gauged feeds = .ok s ∧
        s.outputs = [⟨.i64,[2],[.int 3,.int 2]⟩] := ⟨_,rfl,rfl⟩
    have same := claim _ _ _ _ _ _ _ _ feeds r s gauged_built gauged_builtIn gauged_run made plain executed executed'
    rw [known,found] at same
    cases same

-- The level stands behind the constant twice.
def doubled : Graph := aligned ⟨0,0⟩ [⟨2,0⟩,⟨3,0⟩,⟨3,0⟩]

def negatedTensors (o : Outlet) : Tensor :=
  match o.node with
  | 0 => whole 1
  | 1 => whole 2
  | 2 => whole (-1)
  | 3 => whole 5
  | _ => ⟨.i64,[2],[.int (-1),.int 5]⟩

theorem negatedTensors_typed (o : Outlet) : (negatedTensors o).Typed := by
  unfold negatedTensors
  split <;> simp [whole,Tensor.Typed]

theorem negated_applies : negatedAnalysis.Applies negated negatedTensors := by
  refine ⟨⟨?_,?_,fun _ _ o _ => negatedTensors_typed o⟩,?_,?_⟩
  · refine aligned_node nofun nofun nofun (fun _ f declared => ?_) nofun
    cases declared
    rfl
  · exact aligned_node (fun _ => rfl) (fun _ => rfl) (fun _ => rfl) nofun fun _ => rfl
  · refine aligned_node nofun nofun nofun (fun _ f found => ?_) nofun
    cases found
    rfl
  · exact aligned_node (fun _ => ⟨_,rfl,trivial⟩) (fun _ => ⟨_,rfl,trivial⟩) (fun _ => ⟨_,rfl,trivial⟩) nofun
      fun _ => ⟨_,rfl,trivial⟩

theorem doubled_order : doubled.topologicalOrder (some [⟨4,0⟩]) [0,1,2] = .ok [2,3,4] :=
  topologicalOrder_walked [2,3,4] rfl (by decide) rfl rfl rfl

theorem doubled_make : make ⟨true,true⟩ doubled none (some negatedAnalysis) = .ok (folding 2) :=
  make_ok.mpr ⟨by rintro a ⟨⟩; rfl,[⟨4,0⟩],[0,1,2],[2,3,4],_,_,rfl,nofun,rfl,doubled_order,rfl,rfl,rfl⟩

theorem doubled_current : Current (folding 2) negated doubled negatedAnalysis [(3,whole 5)] := by
  have behind {m : Int} (path : ReflTransGen negated.Needs 2 m) : m = 2 ∨ m = 0 := by
    induction path with
    | refl => exact .inl rfl
    | tail _ needs ih =>
      obtain ⟨n,found,producer⟩ := needs_iff.mp needs
      rcases ih with rfl | rfl
      · cases found
        exact .inr (List.mem_singleton.mp producer)
      · cases found
        cases producer
  refine ⟨fun id folded m path => ?_,negatedTensors,negated_applies,fun id t fed => ?_⟩
  · obtain rfl := List.mem_singleton.mp folded
    rcases behind path with rfl | rfl <;> rfl
  · obtain ⟨rfl,rfl⟩ : id = 3 ∧ t = whole 5 := by
      rw [List.lookup_cons] at fed
      split at fed
      · rename_i here
        cases fed
        exact ⟨by simpa using here,rfl⟩
      · cases fed
    rfl

theorem stale_agrees_doubled : negated.Built ∧ negated.BuiltIn ∧ run .standard negated [] = .ok negatedAnalysis ∧
    negated.after [.addEdge ⟨3,0⟩ ⟨4,2⟩] = doubled ∧
    make ⟨true,true⟩ doubled none (some negatedAnalysis) = .ok (folding 2) ∧
    Current (folding 2) negated doubled negatedAnalysis [(3,whole 5)] ∧
    ∃ q s, make ⟨true,true⟩ doubled none none = .ok q ∧ q.execute doubled [(.name "x",.tensor (whole 5))] = .ok s ∧
      s.outputs = [⟨.i64,[3],[.int (-1),.int 5,.int 5]⟩] := by
  have adds : ∀ c ∈ [Call.addEdge ⟨3,0⟩ ⟨4,2⟩], c.Outside [] := by simp [Call.Outside]
  have added : negated.after [.addEdge ⟨3,0⟩ ⟨4,2⟩] = doubled := rfl
  obtain ⟨-,-,agrees⟩ := stale_agrees negated_built (aligned_builtIn _ _) negated_run adds ⟨true,true⟩ none
  rw [added] at agrees
  obtain ⟨q,made,returns⟩ := agrees _ doubled_make
  refine ⟨negated_built,aligned_builtIn _ _,negated_run,added,doubled_make,doubled_current,q,?_⟩
  obtain ⟨same,-⟩ := returns [(.name "x",.tensor (whole 5))] [(3,whole 5)] ⟨[⟨.i64,[3],[.int (-1),.int 5,.int 5]⟩],
    ⟨[4],3,[[⟨2,0⟩],[⟨2,0⟩,⟨3,0⟩],[⟨4,0⟩]]⟩⟩ rfl rfl fun _ => doubled_current
  obtain ⟨s,executed,outputs⟩ := same fun id required => by
    have wired : doubled.Wired := (built_invariant (added ▸ after_built negated_built _)).toWired
    rw [(make_laid wired made).1.required] at required
    obtain rfl := List.mem_singleton.mp (mem_inputs.mp (List.mem_filter.mp required).2)
    rfl
  exact ⟨s,made,executed,outputs⟩

end Plan
end TensorGraph
