import TensorGraph.Proofs.Analysis.Orders
import TensorGraph.Proofs.Analysis.History
import TensorGraph.Proofs.Op.Unfed

namespace TensorGraph
open Outcome

-- One node with another operator. Edges, names and what is declared stay.
def Node.exchange (id : Nat) (op : Operator) (n : Node) : Node := if n.id = id then { n with operator := op } else n

def Graph.exchange (g : Graph) (id : Nat) (op : Operator) : Graph := { g with nodes := g.nodes.map (Node.exchange id op) }

namespace Node

variable {id : Nat} {op : Operator} {n : Node}

@[simp] theorem exchange_id : (n.exchange id op).id = n.id := by unfold exchange; split <;> rfl
@[simp] theorem exchange_name : (n.exchange id op).name = n.name := by unfold exchange; split <;> rfl
@[simp] theorem exchange_inputs : (n.exchange id op).inputs = n.inputs := by unfold exchange; split <;> rfl

theorem exchange_other (other : n.id ≠ id) : n.exchange id op = n := if_neg other

theorem exchange_outlets (count : n.id = id → op.outputCount = n.operator.outputCount) :
    (n.exchange id op).outlets = n.outlets := by
  unfold exchange
  split
  · rename_i here
    unfold outlets
    dsimp only
    rw [count here]
  · rfl

end Node

namespace Graph

variable {g : Graph} {id : Nat} {op : Operator}

@[simp] theorem exchange_size : (g.exchange id op).size = g.size := List.length_map _

@[simp] theorem exchange_isInput (i : Int) : (g.exchange id op).isInput i = g.isInput i := rfl

@[simp] theorem exchange_inputFact (i : Int) : (g.exchange id op).inputFact i = g.inputFact i := rfl

@[simp] theorem exchange_ids : (g.exchange id op).ids = g.ids := by
  unfold ids
  rw [exchange_size]

theorem exchange_get? (i : Int) : (g.exchange id op).get? i = (g.get? i).map (Node.exchange id op) := by
  unfold get? exchange
  split
  · rfl
  · exact List.getElem?_map

theorem exchange_referred (i : Int) : (g.exchange id op).referred i = (g.referred i).map (Node.exchange id op) := by
  unfold referred
  rw [exchange_size,exchange_get?]
  cases g.get? (if i < 0 then i + g.size else i) <;> rfl

theorem exchange_node (i : Int) : (g.exchange id op).node i = (g.node i).map (Node.exchange id op) := by
  unfold node
  rw [exchange_get?]
  cases g.get? i <;> rfl

theorem exchange_consumers (o : Outlet) : (g.exchange id op).consumers o = g.consumers o := by
  have edges : (g.exchange id op).edges = g.edges := by
    unfold edges exchange edgesInto
    simp [List.flatMap_map]
  unfold consumers
  rw [edges]

theorem exchange_depthFirst (fuel : Nat) (done : List Int) (path : List (Node × List Int)) :
    (g.exchange id op).depthFirst fuel done (path.map fun p => (p.1.exchange id op,p.2)) = g.depthFirst fuel done path := by
  induction fuel generalizing done path with
  | zero => cases path <;> rfl
  | succ fuel ih =>
    match path with
    | [] => rfl
    | (n,[]) :: path =>
      simp only [List.map_cons,depthFirst,Node.exchange_id]
      exact ih _ path
    | (n,m :: ms) :: path =>
      have entered : ((path.map fun p => (p.1.exchange id op,p.2)).any fun p => decide (m = p.1.id)) =
          path.any fun p => decide (m = p.1.id) := by
        rw [List.any_map]
        simp [Function.comp_def]
      simp only [List.map_cons,depthFirst,Node.exchange_id,entered,exchange_referred]
      split
      · unfold Node.fail
        simp
      split
      · exact ih _ ((n,ms) :: path)
      · cases g.referred m with
        | error e => rfl
        | ok p =>
          have producers : producers (p.exchange id op) = producers p := by
            unfold Graph.producers
            rw [Node.exchange_inputs]
          simp only [Except.map,producers]
          exact ih _ ((p,_) :: (n,ms) :: path)

theorem exchange_checkAcyclic : (g.exchange id op).checkAcyclic = g.checkAcyclic := by
  have edges : (g.exchange id op).edgeCount = g.edgeCount := by
    unfold edgeCount exchange
    simp [Function.comp_def]
  unfold checkAcyclic
  rw [edges,exchange_size]
  refine congrArg (· >>= _) ?_
  show (g.nodes.map (Node.exchange id op)).foldlM _ _ = _
  rw [List.foldlM_map]
  refine foldlM_congr fun done n _ => ?_
  rw [Node.exchange_id]
  have searched : (g.exchange id op).depthFirst (g.edgeCount + g.size) done [(n.exchange id op,producers n)] =
      g.depthFirst (g.edgeCount + g.size) done [(n,producers n)] := exchange_depthFirst _ _ [(n,producers n)]
  have producers : producers (n.exchange id op) = producers n := by
    unfold Graph.producers
    rw [Node.exchange_inputs]
  rw [producers,← searched]

-- A designated input may have any operator with as many outputs: the graph stays valid.
theorem exchange_validate (fed : g.isInput id = true) (count : ∀ n ∈ g.nodes, n.id = id → op.outputCount = n.operator.outputCount)
    (valid : g.validate = .ok ()) : (g.exchange id op).validate = .ok () := by
  have outlet : ∀ what o, g.checkOutlet what o = .ok () → (g.exchange id op).checkOutlet what o = .ok () := by
    intro what o checked
    obtain ⟨n,found,low,high⟩ := checkOutlet_ok.mp checked
    refine checkOutlet_ok.mpr ⟨n.exchange id op,by rw [exchange_get?,found]; rfl,low,?_⟩
    unfold Node.exchange
    split
    · rename_i here
      rw [count n (get?_mem found) here]
      exact high
    · exact high
  unfold validate at valid ⊢
  obtain ⟨⟨⟩,nodes,valid⟩ := bind_ok.mp valid
  obtain ⟨⟨⟩,inputs,valid⟩ := bind_ok.mp valid
  obtain ⟨⟨⟩,outputs,acyclic⟩ := bind_ok.mp valid
  refine bind_ok.mpr ⟨(),forM_ok.mpr fun m member => ?_,bind_ok.mpr ⟨(),forM_ok.mpr fun i member => ?_,
    bind_ok.mpr ⟨(),forM_ok.mpr fun o member => outlet _ o (forM_ok.mp outputs o member),exchange_checkAcyclic.trans acyclic⟩⟩⟩
  · obtain ⟨n,there,rfl⟩ := List.mem_map.mp member
    have checked := forM_ok.mp nodes n there
    unfold checkNode at checked ⊢
    obtain ⟨⟨⟩,sources,arity⟩ := bind_ok.mp checked
    rw [Node.exchange_inputs,Node.exchange_id,exchange_isInput]
    refine bind_ok.mpr ⟨(),forM_ok.mpr fun (o,k) edge => outlet _ o (forM_ok.mp sources (o,k) edge),?_⟩
    by_cases here : n.id = id
    · rw [here,fed]
      rfl
    · rw [Node.exchange_other here]
      exact arity
  · have free := forM_ok.mp inputs i member
    rw [exchange_referred]
    cases found : g.referred i with
    | error e => simp [found] at free
    | ok n =>
      simp only [found,ok_bind,Except.map,Node.exchange_inputs] at free ⊢
      exact free

end Graph

namespace Analysis

variable {g : Graph} {settings : AnalysisSettings} {table table' start : FactTable} {n : Node} {o : Op}
  {f declared : Fact} {op : Operator} {id : Nat}

theorem exchange_seed (fed : g.isInput id = true) (count : ∀ n ∈ g.nodes, n.id = id → op.outputCount = n.operator.outputCount) :
    seed (g.exchange id op) = seed g := by
  unfold seed
  show (g.nodes.map (Node.exchange id op)).foldlM _ _ = _
  rw [List.foldlM_map]
  refine foldlM_congr fun table n member => ?_
  unfold seedNode
  rw [Node.exchange_outlets (count n member),Node.exchange_id,Graph.exchange_isInput,Graph.exchange_inputFact]
  by_cases here : n.id = id
  · simp only [here,fed]
    rfl
  · rw [Node.exchange_other here]

theorem exchange_visit (other : n.id ≠ id) :
    visit settings (g.exchange id op) table (n.exchange id op) = visit settings g table n := by
  rw [Node.exchange_other other]
  rfl

theorem canFold_fed (fed : g.isInput n.id = true) (ins outs : Facts) : canFold settings g n ins outs = false := by
  simp [canFold,fed]

-- A visit of a node without inputs in parts: the rule speaks of its output alone.
theorem visit_unfed (operator : n.operator = o.operator) (free : n.inputs = []) (fed : g.isInput n.id = true)
    (found : table.get? ⟨n.id,0⟩ = some f) {changed : List Outlet}
    (visited : visit settings g table n = .ok (table',changed)) :
    ∃ h f', o.infer [] [f] = .ok ([],[h]) ∧ f.unify h = .ok f' ∧ merge (table,[]) (⟨n.id,0⟩,f') = .ok (table',changed) := by
  obtain ⟨ins,outs,newIns,newOuts,readIns,readOuts,applied,merged⟩ := visit_parts visited
  rw [free] at readIns merged
  rw [outlets_operator operator] at readOuts merged
  cases readIns
  obtain ⟨_,read,rfl⟩ := mapM_one readOuts
  cases (Table.get_ok.mp read).symm.trans found
  obtain ⟨ruleIns,ruleOuts,mids,inferred,lengthIns,lengthOuts,-,unified,folded⟩ := applyRule_parts applied
  rw [canFold_fed fed] at folded
  obtain rfl := List.length_eq_zero_iff.mp lengthIns
  obtain ⟨h,rfl⟩ := List.length_eq_one_iff.mp lengthOuts
  obtain ⟨f',joined,rfl⟩ := mapM_one unified
  cases folded
  rw [operator] at inferred
  obtain ⟨⟨_,_⟩,entered,equal⟩ := bind_ok.mp merged
  cases equal
  exact ⟨h,f',inferred,joined,entered⟩

-- A visit compares what it found with what was known, so the value that is known equals itself.
theorem visit_proper (operator : n.operator = o.operator) (free : n.inputs = []) (fed : g.isInput n.id = true)
    (found : table.get? ⟨n.id,0⟩ = some f) {changed : List Outlet}
    (visited : visit settings g table n = .ok (table',changed)) : f.Proper := by
  obtain ⟨h,f',-,unified,merged⟩ := visit_unfed operator free fed found visited
  obtain ⟨new,again⟩ : ∃ new, f.unify f' = .ok new := by
    rcases merge_cases merged with ⟨⟨old,new,there,joined,-⟩,-⟩ | ⟨old,new,there,joined,-⟩ <;>
      (cases found.symm.trans there; exact ⟨new,joined⟩)
  intro t known
  obtain ⟨-,-,value,-⟩ := Fact.unify_ok.mp unified
  obtain ⟨-,-,-,agree⟩ := Fact.unify_ok.mp again
  exact agree t t known (by rw [value,known]; rfl)

-- Where the operator speaks of what is known of the input, a visit of the input changes nothing.
theorem idle_stable (operator : n.operator = o.operator) (free : n.inputs = []) (fed : g.isInput n.id = true)
    (found : table.get? ⟨n.id,0⟩ = some f) (proper : f.Proper) (idle : o.Idle f) : Stable settings g table n := by
  obtain ⟨h,inferred,refines⟩ := (Op.infer_idle proper).mpr idle
  have readIns : n.inputs.mapM table.get = .ok [] := by rw [free]; rfl
  have readOuts : n.outlets.mapM table.get = .ok [f] := by
    rw [outlets_operator operator,List.mapM_cons,Table.get_ok.mpr found]
    rfl
  have unified : unifyEach [f] [h] = .ok [f] := by
    show [(f,h)].mapM _ = _
    rw [List.mapM_cons]
    dsimp only
    rw [Fact.unify_absorbs refines]
    rfl
  have inferred : n.operator.infer [] [f] = .ok ([],[h]) := operator ▸ inferred
  have applied : applyRule settings g n [] [f] = .ok ([],[f]) :=
    applyRule_of_parts inferred rfl rfl rfl unified (by rw [canFold_fed fed]; rfl)
  refine visit_of_parts readIns readOuts applied (merges_quiet ?_)
  rw [free,outlets_operator operator]
  rintro p (member : p ∈ [(_,f)])
  obtain rfl := List.mem_singleton.mp member
  exact ⟨f,f,found,Fact.unify_absorbs (Fact.refines_self proper),proper.same⟩

theorem stable_unfed (operator : n.operator = o.operator) (free : n.inputs = []) (fed : g.isInput n.id = true)
    (found : table.get? ⟨n.id,0⟩ = some f) : Stable settings g table n ↔ f.Proper ∧ o.Idle f := by
  constructor
  · intro stable
    have proper := visit_proper operator free fed found stable
    refine ⟨proper,(Op.infer_idle proper).mp ?_⟩
    obtain ⟨h,f',inferred,unified,merged⟩ := visit_unfed operator free fed found stable
    rcases merge_cases merged with ⟨⟨old,new,there,again,same⟩,-⟩ | ⟨_,_,_,_,_,_,changed⟩
    · cases found.symm.trans there
      have like : new.Like f := Fact.like_iff.mpr (.inr same)
      exact ⟨h,inferred,Fact.refines_joined unified again (like.symm.refines proper)⟩
    · cases changed
  · rintro ⟨proper,idle⟩
    exact idle_stable operator free fed found proper idle

theorem propagate_grown {queue : List Int} {fuel steps count : Nat}
    (ran : propagate settings g fuel steps table queue = .ok (table',count)) : Grown table table' :=
  propagate_keeps (fun _ _ _ _ _ grown visited => grown.trans (visit_grown visited)) (grown_refl table) ran

theorem exchange_enqueueAround (queue : List Int) (changed : List Outlet) :
    enqueueAround (g.exchange id op) queue changed = enqueueAround g queue changed := by
  unfold enqueueAround
  simp only [Graph.exchange_consumers]

-- The placeholder in an input's stead.
abbrev placed (g : Graph) (n : Node) (declared : Fact) : Graph := g.exchange n.id (Op.placeholder declared).operator

section Placed
variable {queue order : List Int}

-- Two computations that end alike: with one result, or both with a fault.
def EndAlike {α : Type} (x y : Outcome α) : Prop := x = y ∨ (∃ e, x = .error e) ∧ ∃ e, y = .error e

theorem EndAlike.bind {α β : Type} {x y : Outcome α} (alike : EndAlike x y) (k : α → Outcome β) :
    EndAlike (x >>= k) (y >>= k) := by
  rcases alike with rfl | ⟨⟨e,rfl⟩,e',rfl⟩
  · exact .inl rfl
  · exact .inr ⟨⟨e,rfl⟩,e',rfl⟩

theorem EndAlike.agree {x y : Outcome Analysis} (alike : EndAlike x y) : Agree x y := by
  rcases alike with rfl | both
  · cases x with
    | error e => exact .inl ⟨⟨e,rfl⟩,e,rfl⟩
    | ok a => exact .inr ⟨a,a,rfl,rfl,fun _ => rfl⟩
  · exact .inl both

-- Visiting the input ends alike with its own operator, where that is idle, and with the placeholder.
theorem visit_placed (operator : n.operator = o.operator) (free : n.inputs = []) (fed : g.isInput n.id = true)
    (found : table.get? ⟨n.id,0⟩ = some f) (above : declared.Below f) :
    (f.Proper → o.Idle f → visit settings g table n = .ok (table,[])) ∧
    (f.Proper → visit settings (placed g n declared) table (n.exchange n.id (Op.placeholder declared).operator) = .ok (table,[])) ∧
    (¬ f.Proper → (∃ e, visit settings g table n = .error e) ∧
      ∃ e, visit settings (placed g n declared) table (n.exchange n.id (Op.placeholder declared).operator) = .error e) := by
  have placeholder : (n.exchange n.id (Op.placeholder declared).operator).operator =
      (Op.placeholder declared).operator := by simp [Node.exchange]
  have free' : (n.exchange n.id (Op.placeholder declared).operator).inputs = [] := by simpa using free
  have found' : table.get? ⟨(n.exchange n.id (Op.placeholder declared).operator).id,0⟩ = some f := by simpa using found
  have fed' : (placed g n declared).isInput (n.exchange n.id (Op.placeholder declared).operator).id = true := by
    simpa using fed
  refine ⟨fun proper idle => (stable_unfed operator free fed found).mpr ⟨proper,idle⟩,
    fun proper => (stable_unfed placeholder free' fed' found').mpr ⟨proper,above.refines proper⟩,
    fun improper => ⟨?_,?_⟩⟩
  · cases visited : visit settings g table n with
    | error e => exact ⟨e,rfl⟩
    | ok p => exact absurd (visit_proper operator free fed found visited) improper
  · cases visited : visit settings (placed g n declared) table (n.exchange n.id (Op.placeholder declared).operator) with
    | error e => exact ⟨e,rfl⟩
    | ok p => exact absurd (visit_proper placeholder free' fed' found' visited) improper

-- As long as the operator of an input is idle wherever the placeholder takes the input, the loop goes the same
-- way with either: a visit of the input changes nothing, and any other visit is the same.
theorem propagate_placed (numbered : g.Numbered) (member : n ∈ g.nodes) (operator : n.operator = o.operator)
    (free : n.inputs = []) (fed : g.isInput n.id = true) {fuel steps : Nat}
    (found : table.get? ⟨n.id,0⟩ = some f) (above : declared.Below f)
    (idle : ∀ f', f.Below f' → (∀ t k, propagate settings (placed g n declared) fuel steps table queue = .ok (t,k) →
      ∃ last, t.get? ⟨n.id,0⟩ = some last ∧ f'.Below last) → f'.Proper → o.Idle f') :
    EndAlike (propagate settings g fuel steps table queue)
      (propagate settings (placed g n declared) fuel steps table queue) := by
  induction fuel generalizing steps table queue f with
  | zero => cases queue <;> exact .inl rfl
  | succ fuel ih =>
    cases queue with
    | nil => exact .inl rfl
    | cons id queue =>
      unfold propagate at idle ⊢
      rw [Graph.exchange_node] at idle ⊢
      cases here : g.node id with
      | error e => exact .inl rfl
      | ok m =>
        simp only [here,Except.map,ok_bind] at idle ⊢
        by_cases same : m.id = n.id
        · have equal : m = n := by
            have alone := numbered.get?_id (Graph.get?_mem (Graph.node_ok.mp here))
            rw [same,numbered.get?_id member] at alone
            exact (Option.some.inj alone).symm
          subst equal
          obtain ⟨still,still',fails⟩ := visit_placed operator free fed found above
          by_cases proper : f.Proper
          · rw [still' proper,ok_bind] at idle ⊢
            have reached : ∀ t k, propagate settings (placed g m declared) fuel (steps + 1) table queue = .ok (t,k) →
                ∃ last, t.get? ⟨m.id,0⟩ = some last ∧ f.Below last := fun _ _ ran => propagate_grown ran _ _ found
            rw [still proper (idle f f.below_refl reached proper),ok_bind]
            exact ih found above idle
          · obtain ⟨⟨e,failed⟩,e',failed'⟩ := fails proper
            rw [failed,failed']
            exact .inr ⟨⟨e,rfl⟩,e',rfl⟩
        · rw [exchange_visit same] at idle ⊢
          cases visited : visit settings g table m with
          | error e => exact .inl rfl
          | ok p =>
            obtain ⟨table',changed⟩ := p
            simp only [visited,ok_bind,exchange_enqueueAround] at idle ⊢
            obtain ⟨f',later,grown⟩ := visit_grown visited _ _ found
            exact ih later (above.trans grown) fun f'' beyond => idle f'' (grown.trans beyond)

-- A valid graph asks its inputs for no producers.
theorem validate_free (numbered : g.Numbered) (valid : g.validate = .ok ()) (member : n ∈ g.nodes)
    (fed : g.isInput n.id = true) : n.inputs = [] := by
  unfold Graph.validate at valid
  obtain ⟨⟨⟩,-,valid⟩ := bind_ok.mp valid
  obtain ⟨⟨⟩,entered,-⟩ := bind_ok.mp valid
  have free := forM_ok.mp entered n.id (List.contains_iff_mem.mp fed)
  rw [Graph.referred_known (numbered.get?_id member),ok_bind] at free
  split at free
  · rename_i none
    exact List.isEmpty_iff.mp none
  · cases free

theorem run_valid (valid : g.validate = .ok ()) : run settings g order = do
    let start ← seed g
    order.forM fun id => do let _ ← g.node id
    let p ← propagate settings g settings.maxSteps 0 start (firstQueue g order)
    return ⟨g.serial,p.1,p.2⟩ := by
  unfold run
  rw [valid]
  rfl

-- An analysis that returns has left the input's fact where the operator is idle.
theorem run_idle (numbered : g.Numbered) (member : n ∈ g.nodes) (operator : n.operator = o.operator)
    (free : n.inputs = []) (fed : g.isInput n.id = true) (input : g.inputFact n.id = .ok declared)
    {a : Analysis} (ran : run settings g order = .ok a) :
    ∃ last, a.facts.get? ⟨n.id,0⟩ = some last ∧ declared.Below last ∧ last.Proper ∧ o.Idle last := by
  obtain ⟨-,-,start,seeded,propagated⟩ := run_parts ran
  obtain ⟨first,same,entry⟩ := seed_declared numbered seeded member fed
  cases input.symm.trans same
  obtain ⟨last,found,below⟩ := propagate_grown propagated _ _ entry
  exact ⟨last,found,below,(stable_unfed operator free fed found).mp (run_stable numbered ran n member)⟩

-- With the placeholder the analysis starts from the same facts and the same queue.
theorem exchange_run (fed : g.isInput id = true)
    (count : ∀ m ∈ g.nodes, m.id = id → op.outputCount = m.operator.outputCount) (valid : g.validate = .ok ()) :
    run settings (g.exchange id op) order = do
      let start ← seed g
      order.forM fun i => do let _ ← g.node i
      let p ← propagate settings (g.exchange id op) settings.maxSteps 0 start (firstQueue g order)
      return ⟨g.serial,p.1,p.2⟩ := by
  have nodes : (order.forM fun i => do let _ ← (g.exchange id op).node i) =
      (order.forM fun i => do let _ ← g.node i : Outcome Unit) := by
    refine congrArg order.forM (funext fun i => ?_)
    rw [Graph.exchange_node]
    cases g.node i <;> rfl
  have queue : firstQueue (g.exchange id op) order = firstQueue g order := by
    unfold firstQueue
    rw [Graph.exchange_ids]
  rw [run_valid (Graph.exchange_validate fed count valid),exchange_seed fed count,nodes,queue]
  rfl

-- Where the operator is idle from what is declared up to what the placeholder ends with, both analyses end alike.
theorem run_alike (numbered : g.Numbered) (valid : g.validate = .ok ()) (member : n ∈ g.nodes)
    (operator : n.operator = o.operator) (fed : g.isInput n.id = true) (input : g.inputFact n.id = .ok declared)
    (count : ∀ m ∈ g.nodes, m.id = n.id → (Op.placeholder declared).operator.outputCount = m.operator.outputCount)
    (idle : ∀ f, declared.Below f → (∀ a, run settings (placed g n declared) order = .ok a →
      ∃ last, a.facts.get? ⟨n.id,0⟩ = some last ∧ f.Below last) → f.Proper → o.Idle f) :
    EndAlike (run settings g order) (run settings (placed g n declared) order) := by
  have free := validate_free numbered valid member fed
  rw [exchange_run fed count valid] at idle ⊢
  rw [run_valid valid]
  cases seeded : seed g with
  | error e => exact .inl rfl
  | ok start =>
    obtain ⟨first,same,entry⟩ := seed_declared numbered seeded member fed
    cases input.symm.trans same
    simp only [seeded,ok_bind] at idle ⊢
    cases known : (order.forM fun id => do let _ ← g.node id : Outcome Unit) with
    | error e => exact .inl rfl
    | ok =>
      simp only [known,ok_bind] at idle ⊢
      refine (propagate_placed numbered member operator free fed entry (Fact.below_refl _) fun f beyond reached =>
        idle f beyond fun a ran => ?_).bind _
      obtain ⟨⟨t,k⟩,propagated,equal⟩ := bind_ok.mp ran
      cases equal
      exact reached t k propagated

-- Where the operator of a designated input is idle, from what is declared up to what the placeholder ends with,
-- the analysis is that of the placeholder. It is not where the operator is not idle at the end, and it never
-- returns where the operator takes inputs, as it has none to take.
theorem run_placed (numbered : g.Numbered) (valid : g.validate = .ok ()) (member : n ∈ g.nodes)
    (operator : n.operator = o.operator) (fed : g.isInput n.id = true) (input : g.inputFact n.id = .ok declared)
    (settings : AnalysisSettings) (order : List Int) :
    (placed g n declared).validate = .ok () ∧
    ((∀ f, declared.Below f → (∀ a, run settings (placed g n declared) order = .ok a →
        ∃ last, a.facts.get? ⟨n.id,0⟩ = some last ∧ f.Below last) → f.Proper → o.Idle f) →
      Agree (run settings g order) (run settings (placed g n declared) order)) ∧
    (∀ a, run settings g order = .ok a →
      ∃ last, a.facts.get? ⟨n.id,0⟩ = some last ∧ declared.Below last ∧ last.Proper ∧ o.Idle last) ∧
    (Agree (run settings g order) (run settings (placed g n declared) order) →
      ∀ a, run settings (placed g n declared) order = .ok a →
        ∃ last, a.facts.get? ⟨n.id,0⟩ = some last ∧ o.Idle last) ∧
    (o.isUnfed = false → ∃ e, run settings g order = .error e) := by
  have free := validate_free numbered valid member fed
  have count : ∀ m ∈ g.nodes, m.id = n.id → (Op.placeholder declared).operator.outputCount = m.operator.outputCount := by
    intro m there same
    have alone := numbered.get?_id there
    rw [same,numbered.get?_id member] at alone
    cases Option.some.inj alone
    rw [operator]
    rfl
  have ends : ∀ a, run settings g order = .ok a →
      ∃ last, a.facts.get? ⟨n.id,0⟩ = some last ∧ declared.Below last ∧ last.Proper ∧ o.Idle last :=
    fun _ => run_idle numbered member operator free fed input
  refine ⟨Graph.exchange_validate fed count valid,
    fun idle => (run_alike numbered valid member operator fed input count idle).agree,ends,
    fun agree a ran => ?_,fun takes => ?_⟩
  · rcases agree with ⟨-,e,failed⟩ | ⟨b,a',ran',again,same⟩
    · cases failed.symm.trans ran
    · cases again.symm.trans ran
      obtain ⟨last,found,-,-,idle⟩ := ends b ran'
      exact ⟨last,same _ ▸ found,idle⟩
  · cases ran : run settings g order with
    | error e => exact ⟨e,rfl⟩
    | ok a =>
      obtain ⟨last,-,-,-,idle⟩ := ends a ran
      cases o <;> first | exact idle.elim | cases takes

end Placed

-- A designated input alone: its operator, and what is declared of it.
def lone (o : Op) (declared : Fact) : Graph := ⟨0,"lone",[⟨0,"x",o.operator,[]⟩],[(0,declared)],[⟨0,0⟩]⟩

def scalar : Fact := .outline (some .f32) (some [])
def couple : Fact := .outline (some .f32) (some [.known 2])

theorem lone_numbered (o : Op) (declared : Fact) : (lone o declared).Numbered := by
  intro i n at_
  rcases i with _ | i
  · cases at_
    rfl
  · cases at_

-- A sum of nothing is a scalar, which is what is declared here.
theorem run_placed_sum : (lone .addN scalar).Numbered ∧ (lone .addN scalar).validate = .ok () ∧
    (∃ a, run .standard (lone .addN scalar) [0] = .ok a) ∧
    Agree (run .standard (lone .addN scalar) [0])
      (run .standard (placed (lone .addN scalar) ⟨0,"x",Op.addN.operator,[]⟩ scalar) [0]) := by
  have numbered := lone_numbered .addN scalar
  have valid : (lone .addN scalar).validate = .ok () := by rfl
  obtain ⟨-,agree,-⟩ := run_placed numbered valid List.mem_cons_self rfl rfl rfl .standard [0]
  refine ⟨numbered,valid,⟨_,rfl⟩,agree fun f above _ _ => ?_⟩
  obtain ⟨s,shape,below⟩ := above.shape [] rfl
  cases below
  exact shape

-- A unary operator of an input finds a fact for an input that it does not have, and the analysis fails.
theorem run_unplaced : ¬ ∀ (g : Graph) (n : Node) (o : Op) (declared : Fact), g.Numbered → g.validate = .ok () →
    n ∈ g.nodes → n.operator = o.operator → g.isInput n.id = true → g.inputFact n.id = .ok declared →
    ∀ (settings : AnalysisSettings) (order : List Int),
      Agree (run settings g order) (run settings (placed g n declared) order) := by
  intro claim
  have agree := claim (lone (.unary .relu) couple) ⟨0,"x",(Op.unary .relu).operator,[]⟩ (.unary .relu) couple
    (lone_numbered _ _) rfl List.mem_cons_self rfl rfl rfl .standard []
  rcases agree with ⟨-,e,failed⟩ | ⟨a,_,ran,-⟩
  · cases failed
  · cases ran

end Analysis
end TensorGraph
