import Mathlib.Data.List.Nodup
import Mathlib.Data.List.ProdSigma
import Mathlib.Data.List.Permutation
import TensorGraph.Proofs.Analysis.Convergence
import TensorGraph.Proofs.Graph.Order

namespace TensorGraph
open Outcome

namespace Graph

-- Nodes of a valid graph have as many inputs as their operators take, or none where they are fed.
theorem validate_accepted {g : Graph} (numbered : g.Numbered) (valid : g.validate = .ok ()) :
    g.Wired ∧ ∀ n ∈ g.nodes, n.inputs = [] ∨ n.operator.acceptsArity n.inputs.length = true := by
  unfold validate at valid
  obtain ⟨⟨⟩,nodes,valid⟩ := bind_ok.mp valid
  obtain ⟨⟨⟩,entered,-⟩ := bind_ok.mp valid
  have each : ∀ n ∈ g.nodes, (∀ o ∈ n.inputs, g.HasOutlet o) ∧
      (g.isInput n.id || n.operator.acceptsArity n.inputs.length) = true := by
    intro n member
    have checked := forM_ok.mp nodes n member
    unfold checkNode at checked
    obtain ⟨⟨⟩,sources,checked⟩ := bind_ok.mp checked
    refine ⟨checkOutlets_ok (fun _ _ => checkOutlet_ok.mp) sources,?_⟩
    split at checked
    · assumption
    · cases checked
  refine ⟨⟨numbered,fun n member => (each n member).1⟩,?_⟩
  intro n member
  rcases Bool.or_eq_true _ _ ▸ (each n member).2 with fed | arity
  · left
    have free := forM_ok.mp entered n.id (List.contains_iff_mem.mp fed)
    rw [referred_known (numbered.get?_id member),ok_bind] at free
    split at free
    · rename_i none
      exact List.isEmpty_iff.mp none
    · cases free
  · exact .inr arity

end Graph

namespace Analysis

section
variable {g : Graph} {settings : AnalysisSettings} {table table' top start : FactTable} {n : Node}
  {changed : List Outlet} {queue order : List Int}

-- Nothing was passed over at any node on the way from one table to another, and constants can be
-- compared.
structure Settled (settings : AnalysisSettings) (g : Graph) (start top : FactTable) : Prop where
  typed : Typed top
  nodes : ∀ n ∈ g.nodes, ∃ o : Op, n.operator = o.operator ∧ ∀ begun ins outs,
    n.inputs.mapM start.get = .ok begun → n.inputs.mapM top.get = .ok ins →
      n.outlets.mapM top.get = .ok outs → SettledAt settings g n o begun ins outs

-- The table that a settled run ends with: no rule adds to it.
structure Limit (settings : AnalysisSettings) (g : Graph) (start top : FactTable) : Prop where
  wired : g.Wired
  accepted : ∀ n ∈ g.nodes, n.inputs = [] ∨ n.operator.acceptsArity n.inputs.length = true
  covered : ∀ n ∈ g.nodes, Covers n start
  grown : Grown start top
  stable : ∀ n ∈ g.nodes, Stable settings g top n
  settled : Settled settings g start top

theorem read_grown {os : List Outlet} {fs : Facts} (grown : Grown table table')
    (entries : ∀ o ∈ os, (table.get? o).isSome = true) (read : os.mapM table'.get = .ok fs) :
    ∃ fs', os.mapM table.get = .ok fs' ∧ Facts.Below fs' fs := by
  refine mapM_meets (P := fun o f => o ∈ os ∧ table'.get o = .ok f) ?_ (forall₂_mem (mapM_ok.mp read))
  rintro o f ⟨member,read⟩
  obtain ⟨f',found⟩ := Option.isSome_iff_exists.mp (entries o member)
  obtain ⟨f'',above,below⟩ := grown o f' found
  cases (Table.get_ok.mp read).symm.trans above
  exact ⟨f',Table.get_ok.mpr found,below⟩

theorem entries_grown {o : Outlet} (grown : Grown table table') (entry : (table.get? o).isSome = true) :
    (table'.get? o).isSome = true := by
  obtain ⟨f,found⟩ := Option.isSome_iff_exists.mp entry
  obtain ⟨f',above,-⟩ := grown o f found
  rw [above]
  rfl

theorem zip_below {os : List Outlet} {fs news : Facts} (read : os.mapM top.get = .ok fs)
    (below : news.Below fs) : ∀ p ∈ os.zip news, ∃ f, top.get? p.1 = some f ∧ p.2.Below f := by
  rintro ⟨o,f'⟩ member
  rw [mapM_ok] at read
  induction read generalizing news with
  | nil => cases member
  | cons head _ ih =>
    cases below with
    | cons low rest =>
      rcases List.mem_cons.mp member with equal | later
      · cases equal
        exact ⟨_,Table.get_ok.mp head,low⟩
      · exact ih rest later

theorem around_outlets (wired : g.Wired) (member : n ∈ g.nodes) :
    ∀ o ∈ around n, ∃ m ∈ g.nodes, o ∈ m.outlets := by
  intro o near
  rcases List.mem_append.mp near with input | output
  · exact wired.numbered.hasOutlet_iff.mp (wired.sources n member o input)
  · exact ⟨n,member,output⟩

theorem Limit.around (limit : Limit settings g start top) (member : n ∈ g.nodes) :
    ∀ o ∈ around n, o ∈ g.nodes.flatMap (·.outlets) ∧ (start.get? o).isSome = true := by
  intro o near
  obtain ⟨m,there,outlet⟩ := around_outlets limit.wired member o near
  exact ⟨List.mem_flatMap.mpr ⟨m,there,outlet⟩,limit.covered m there o outlet⟩

-- A visit on the way to the limit succeeds and stays on the way.
theorem visit_below (limit : Limit settings g start top) (member : n ∈ g.nodes) (begun : Grown start table)
    (grown : Grown table top) : ∃ table' changed, visit settings g table n = .ok (table',changed) ∧
      Grown table' top ∧ potential g top table' + (changed.map (cost g)).sum ≤ potential g top table := by
  obtain ⟨o,operator,settles⟩ := limit.settled.nodes n member
  obtain ⟨ins,out,ruleIns,ruleOuts,readIns,readOuts,inferred,rests,folds⟩ :=
    stable_parts operator limit.settled.typed (limit.stable n member)
  have near := limit.around member
  have started : ∀ o ∈ n.inputs, (start.get? o).isSome = true := fun o input =>
    (near o (List.mem_append_left _ input)).2
  obtain ⟨ins',readIns',belowIns⟩ := read_grown grown (fun o input => entries_grown begun (started o input)) readIns
  obtain ⟨outs',readOuts',belowOuts⟩ := read_grown grown
    (fun o output => entries_grown begun (near o (List.mem_append_right _ output)).2) readOuts
  obtain ⟨early,readEarly,belowEarly⟩ := read_grown begun started readIns'
  have settled := settles early ins [out] readEarly readIns readOuts
  have underIns : Facts.Under ins' ins := belowIns.under (Facts.Under.refl (read_typed limit.settled.typed readIns))
  have underOuts : Facts.Under outs' [out] := belowOuts.under (Facts.Under.refl (read_typed limit.settled.typed readOuts))
  have accepted : ins = [] ∨ o.arity.accepts ins.length = true := by
    have length := (mapM_ok.mp readIns).length_eq
    rcases limit.accepted n member with none | arity
    · rw [none] at length
      exact .inl (List.length_eq_zero_iff.mp length.symm)
    · rw [operator,length] at arity
      exact .inr arity
  obtain ⟨p,found,lowIns,lowOuts⟩ := Op.infer_rests accepted settled.rule
    (belowEarly.under underIns.self) underIns underOuts inferred rests
  obtain ⟨newIns,newOuts,applied,newInsBelow,newOutsBelow⟩ := applyRule_below underIns underOuts
    (folds early settled) (by rw [operator]; exact found) (lowIns.below.trans rests.1)
    (lowOuts.below.trans rests.2)
  have known : ∀ p ∈ n.inputs.zip newIns ++ n.outlets.zip newOuts,
      p.1 ∈ g.nodes.flatMap (·.outlets) ∧ (table.get? p.1).isSome = true ∧
        ∃ f, top.get? p.1 = some f ∧ p.2.Below f := by
    intro p entered
    obtain ⟨inside,entry⟩ := near p.1 (named_around (List.mem_map.mpr ⟨p,entered,rfl⟩))
    refine ⟨inside,entries_grown begun entry,?_⟩
    rcases List.mem_append.mp entered with input | output
    · exact zip_below readIns newInsBelow.below p input
    · exact zip_below readOuts newOutsBelow.below p output
  obtain ⟨table',more,merged,grown',descent⟩ := merges_below (c := []) limit.settled.typed grown known
  exact ⟨table',more,visit_of_parts readIns' readOuts' applied merged,grown',descent⟩

theorem consumer_known {o : Outlet} {id : Int} (consumer : id ∈ (g.consumers o).map (·.node)) :
    ∃ m ∈ g.nodes, id = m.id := by
  obtain ⟨inlet,member,rfl⟩ := List.mem_map.mp consumer
  obtain ⟨⟨_,_⟩,edge,rfl⟩ := List.mem_map.mp member
  obtain ⟨m,there,into⟩ := List.mem_flatMap.mp (List.mem_filter.mp edge).1
  obtain ⟨⟨_,k⟩,-,equal⟩ := List.mem_map.mp into
  cases equal
  exact ⟨m,there,rfl⟩

theorem changed_outlets (wired : g.Wired) (member : n ∈ g.nodes)
    (visited : visit settings g table n = .ok (table',changed)) :
    ∀ o ∈ changed, ∃ m ∈ g.nodes, o ∈ m.outlets := by
  obtain ⟨_,_,_,_,-,-,-,merged⟩ := visit_parts visited
  obtain ⟨more,equal,entered⟩ := merges_entered merged
  rw [List.nil_append] at equal
  subst equal
  exact fun o change => around_outlets wired member o (named_around (entered.named o change))

theorem visited_known (wired : g.Wired) (member : n ∈ g.nodes)
    (visited : visit settings g table n = .ok (table',changed)) (known : ∀ id ∈ queue, g.Known id) :
    ∀ id ∈ enqueueAround g queue changed, g.Known id := by
  intro id waits
  rcases mem_enqueueAround.mp waits with before | ⟨o,change,rfl | consumer⟩
  · exact known id before
  · obtain ⟨m,there,outlet⟩ := changed_outlets wired member visited o change
    rw [(Node.mem_outlets.mp outlet).1]
    exact ⟨m,wired.numbered.get?_id there⟩
  · obtain ⟨m,there,rfl⟩ := consumer_known consumer
    exact ⟨m,wired.numbered.get?_id there⟩

-- What is still to be visited is paid for by what is still to be learned.
theorem propagate_below (limit : Limit settings g start top) {fuel : Nat} (steps : Nat) (begun : Grown start table)
    (grown : Grown table top) (known : ∀ id ∈ queue, g.Known id)
    (enough : queue.length + potential g top table ≤ fuel) :
    ∃ table' count, propagate settings g fuel steps table queue = .ok (table',count) ∧ Grown table' top := by
  induction fuel generalizing steps table queue with
  | zero =>
    cases queue with
    | nil => exact ⟨table,steps,rfl,grown⟩
    | cons id queue => simp at enough
  | succ fuel ih =>
    cases queue with
    | nil => exact ⟨table,steps,rfl,grown⟩
    | cons id queue =>
      obtain ⟨⟨n,found⟩,rest⟩ := List.forall_mem_cons.mp known
      have member := Graph.get?_mem found
      obtain ⟨next,changed,visited,grown',descent⟩ := visit_below limit member begun grown
      obtain ⟨_,_,_,_,-,-,-,merged⟩ := visit_parts visited
      obtain ⟨_,-,entered⟩ := merges_entered merged
      have paid := length_enqueueAround g queue changed
      rw [List.length_cons] at enough
      obtain ⟨table',count,ran,below⟩ := ih (steps + 1) (begun.trans entered.grown) grown'
        (visited_known limit.wired member visited rest) (by omega)
      refine ⟨table',count,?_,below⟩
      unfold propagate
      rw [Graph.node_ok.mpr found,ok_bind,visited]
      exact ran

end

section
variable {settings settings' : AnalysisSettings} {g : Graph} {start : FactTable} {order : List Int}

-- Of the settings only folding changes what a visit does.
theorem visit_settings (same : settings.foldConstants = settings'.foldConstants) (table : FactTable) (n : Node) :
    visit settings g table n = visit settings' g table n := by
  have rules : applyRule settings g n = applyRule settings' g n := by
    funext ins outs
    unfold applyRule canFold
    rw [same]
  unfold visit
  rw [rules]

theorem propagate_more (same : settings.foldConstants = settings'.foldConstants) {fuel more steps : Nat}
    (enough : fuel ≤ more) {table : FactTable} {queue : List Int} {r : FactTable × Nat}
    (ran : propagate settings g fuel steps table queue = .ok r) :
    propagate settings' g more steps table queue = .ok r := by
  induction fuel generalizing more steps table queue with
  | zero =>
    cases queue with
    | nil => cases more <;> exact ran
    | cons id queue => cases ran
  | succ fuel ih =>
    cases queue with
    | nil => cases more <;> exact ran
    | cons id queue =>
      obtain ⟨k,rfl⟩ : ∃ k, more = k + 1 := ⟨more - 1,by omega⟩
      unfold propagate at ran ⊢
      obtain ⟨n,found,ran⟩ := bind_ok.mp ran
      obtain ⟨⟨next,changed⟩,visited,ran⟩ := bind_ok.mp ran
      rw [visit_settings same] at visited
      rw [found,ok_bind,visited]
      exact ih (by omega) ran

theorem propagate_unique (same : settings.foldConstants = settings'.foldConstants) {fuel fuel' steps : Nat}
    {table : FactTable} {queue : List Int} {r r' : FactTable × Nat}
    (ran : propagate settings g fuel steps table queue = .ok r)
    (ran' : propagate settings' g fuel' steps table queue = .ok r') : r = r' := by
  have first := propagate_more same (Nat.le_max_left fuel fuel') ran
  have second : propagate settings' g (max fuel fuel') steps table queue = .ok r' :=
    propagate_more rfl (Nat.le_max_right fuel fuel') ran'
  exact Except.ok.inj (first.symm.trans second)

theorem nodup_enqueue {queue : List Int} {id : Int} (nodup : queue.Nodup) : (enqueue queue id).Nodup := by
  unfold enqueue
  split
  · exact nodup
  · rename_i fresh
    rw [← List.concat_eq_append]
    exact List.Nodup.concat (by simpa using fresh) nodup

theorem nodup_enqueues {queue ids : List Int} (nodup : queue.Nodup) : (ids.foldl enqueue queue).Nodup :=
  List.foldlRecOn (motive := List.Nodup) _ _ nodup fun _ kept _ _ => nodup_enqueue kept

theorem nodup_ids : g.ids.Nodup := List.nodup_range.map fun _ _ equal => Int.ofNat.inj equal

-- Every order starts with the same nodes waiting.
theorem firstQueue_perm (known : ∀ id ∈ order, g.Known id) : (firstQueue g order).Perm g.ids := by
  refine (List.perm_ext_iff_of_nodup (nodup_enqueues List.nodup_nil) nodup_ids).mpr fun id => ?_
  rw [mem_enqueues,List.mem_append]
  simp only [List.not_mem_nil,false_or]
  exact ⟨fun either => either.elim (fun given => Graph.mem_ids.mpr (known id given)) fun own => own,.inr⟩

theorem exists_bound {P : α → Nat → Prop} (mono : ∀ x b c, b ≤ c → P x b → P x c) {xs : List α}
    (each : ∀ x ∈ xs, ∃ b, P x b) : ∃ b, ∀ x ∈ xs, P x b := by
  induction xs with
  | nil => exact ⟨0,nofun⟩
  | cons x xs ih =>
    obtain ⟨⟨b,first⟩,rest⟩ := List.forall_mem_cons.mp each
    obtain ⟨c,others⟩ := ih rest
    refine ⟨max b c,List.forall_mem_cons.mpr ⟨mono x b _ (Nat.le_max_left b c) first,?_⟩⟩
    exact fun y member => mono y c _ (Nat.le_max_right b c) (others y member)

-- The visits that any order may take to the end of any other, with any settings.
theorem exists_visits (g : Graph) (start : FactTable) : ∃ bound, ∀ (settings : AnalysisSettings)
    (order : List Int) fuel top count, (∀ id ∈ order, g.Known id) →
    propagate settings g fuel 0 start (firstQueue g order) = .ok (top,count) →
      g.size + potential g top start ≤ bound := by
  -- only so many first queues exist, and each leads to one table with folding and one without
  have each : ∀ x ∈ [true,false] ×ˢ g.ids.permutations, ∃ b, ∀ (settings : AnalysisSettings) fuel top count,
      settings.foldConstants = x.1 → propagate settings g fuel 0 start x.2 = .ok (top,count) →
        g.size + potential g top start ≤ b := by
    intro x _
    by_cases some : ∃ (settings : AnalysisSettings) (fuel : Nat) (top : FactTable) (count : Nat),
        settings.foldConstants = x.1 ∧ propagate settings g fuel 0 start x.2 = .ok (top,count)
    · obtain ⟨settings,fuel,top,count,folds,ran⟩ := some
      refine ⟨g.size + potential g top start,fun settings' fuel' top' count' folds' ran' => ?_⟩
      cases propagate_unique (folds.trans folds'.symm) ran ran'
      exact Nat.le_refl _
    · exact ⟨0,fun settings fuel top count folds ran => absurd ⟨settings,fuel,top,count,folds,ran⟩ some⟩
  obtain ⟨bound,holds⟩ := exists_bound (fun _ _ _ more bounded settings fuel top count folds ran =>
    Nat.le_trans (bounded settings fuel top count folds ran) more) each
  refine ⟨bound,fun settings order fuel top count known ran => ?_⟩
  refine holds (settings.foldConstants,firstQueue g order) ?_ settings fuel top count rfl ran
  rw [List.mem_product]
  exact ⟨by cases settings.foldConstants <;> simp,List.mem_permutations.mpr (firstQueue_perm known)⟩

theorem run_eq (valid : g.validate = .ok ()) (seeded : seed g = .ok start) (known : ∀ id ∈ order, g.Known id) :
    run settings g order = propagate settings g settings.maxSteps 0 start (firstQueue g order) >>= fun p =>
      .ok ⟨g.serial,p.1,p.2⟩ := by
  have found : (order.forM fun id => do let _ ← g.node id) = (.ok () : Outcome Unit) := by
    refine forM_ok.mpr fun id member => ?_
    obtain ⟨n,found⟩ := known id member
    rw [Graph.node_ok.mpr found]
    rfl
  unfold run
  rw [valid,ok_bind,seeded,ok_bind,found,ok_bind]
  rfl

-- A run that settles: when it returns, nothing was passed over.
def Settles (settings : AnalysisSettings) (g : Graph) (order : List Int) : Prop :=
  ∀ start a, seed g = .ok start → run settings g order = .ok a → Settled settings g start a.facts

-- Two runs agree when both fail, or when both return the same fact for every outlet.
def Agree (x y : Outcome Analysis) : Prop :=
  (∃ e, x = .error e) ∧ (∃ e, y = .error e) ∨
    ∃ a b, x = .ok a ∧ y = .ok b ∧ ∀ o, a.facts.get? o = b.facts.get? o

theorem visit_grown {table table' : FactTable} {n : Node} {changed : List Outlet}
    (visited : visit settings g table n = .ok (table',changed)) : Grown table table' := by
  obtain ⟨_,_,_,_,-,-,-,merged⟩ := visit_parts visited
  obtain ⟨_,-,entered⟩ := merges_entered merged
  exact entered.grown

theorem grown_antisymm {table table' : FactTable} (there : Grown table table') (back : Grown table' table)
    (o : Outlet) : table.get? o = table'.get? o := by
  cases found : table.get? o with
  | some f =>
    obtain ⟨f',found',low⟩ := there o f found
    obtain ⟨f'',again,high⟩ := back o f' found'
    cases found.symm.trans again
    rw [found',low.antisymm high]
  | none =>
    cases found' : table'.get? o with
    | none => rfl
    | some f' =>
      obtain ⟨_,other,-⟩ := back o f' found'
      cases found.symm.trans other

theorem Settled.congr {top table : FactTable} (settled : Settled settings g start top)
    (same : ∀ o, table.get? o = top.get? o) : Settled settings g start table := by
  refine ⟨fun o f found => settled.typed o f (same o ▸ found),?_⟩
  intro n member
  obtain ⟨o,operator,settles⟩ := settled.nodes n member
  refine ⟨o,operator,fun begun ins outs readEarly readIns readOuts => ?_⟩
  apply settles begun ins outs readEarly
  · rw [← read_congr fun o _ => same o]
    exact readIns
  · rw [← read_congr fun o _ => same o]
    exact readOuts

theorem limit_of_run {a : Analysis} (numbered : g.Numbered)
    (ran : run settings g order = .ok a) (seeded : seed g = .ok start)
    (settled : Settled settings g start a.facts) : Limit settings g start a.facts := by
  obtain ⟨valid,-,start',seeded',propagated⟩ := run_parts ran
  cases seeded.symm.trans seeded'
  obtain ⟨wired,accepted⟩ := Graph.validate_accepted numbered valid
  refine ⟨wired,accepted,seed_covers seeded,?_,run_stable numbered ran,settled⟩
  exact propagate_keeps (P := Grown start) (fun _ _ _ _ _ grown visited => grown.trans (visit_grown visited))
    (grown_refl start) propagated

theorem known_of_run {a : Analysis} (ran : run settings g order = .ok a) : ∀ id ∈ order, g.Known id := by
  unfold run at ran
  obtain ⟨⟨⟩,-,ran⟩ := bind_ok.mp ran
  obtain ⟨_,-,ran⟩ := bind_ok.mp ran
  obtain ⟨⟨⟩,known,-⟩ := bind_ok.mp ran
  intro id member
  obtain ⟨n,found,-⟩ := bind_ok.mp (forM_ok.mp known id member)
  exact ⟨n,Graph.node_ok.mp found⟩

-- From any order a run comes to no more than a settled run does.
theorem run_below {a : Analysis} {other : List Int} (limit : Limit settings g start a.facts)
    (ran : run settings g order = .ok a) (seeded : seed g = .ok start) (known : ∀ id ∈ other, g.Known id)
    (enough : g.size + potential g a.facts start ≤ settings.maxSteps) :
    ∃ b, run settings g other = .ok b ∧ Grown b.facts a.facts := by
  have waiting := firstQueue_perm known
  have bounded : (firstQueue g other).length + potential g a.facts start ≤ settings.maxSteps := by
    rw [waiting.length_eq,Graph.ids,List.length_map,List.length_range]
    exact enough
  obtain ⟨table,count,propagated,below⟩ := propagate_below limit 0 (grown_refl start) limit.grown
    (fun id member => Graph.mem_ids.mp (waiting.mem_iff.mp member)) bounded
  refine ⟨⟨g.serial,table,count⟩,?_,below⟩
  rw [run_eq (run_parts ran).1 seeded known,propagated]
  rfl

-- Runs agree whatever the order, provided they settle; and one that settles agrees with no run that
-- does not. Rules that look back only while an input is open are what keeps a run from settling.
theorem orders_agree_iff_settle (numbered : g.Numbered) : ∃ bound,
    ∀ settings : AnalysisSettings, bound ≤ settings.maxSteps → ∀ first second : List Int,
      (∀ id ∈ first, g.Known id) → (∀ id ∈ second, g.Known id) → Settles settings g first →
        (Agree (run settings g first) (run settings g second) ↔ Settles settings g second) := by
  cases seeded : seed g with
  | error e =>
    have fails (settings : AnalysisSettings) (order : List Int) : ∃ e, run settings g order = .error e := by
      cases ran : run settings g order with
      | error e => exact ⟨e,rfl⟩
      | ok a =>
        obtain ⟨-,-,start,again,-⟩ := run_parts ran
        cases seeded.symm.trans again
    refine ⟨0,fun settings _ first second _ _ _ => ⟨fun _ start _ again => ?_,fun _ => ?_⟩⟩
    · cases seeded.symm.trans again
    · exact .inl ⟨fails settings first,fails settings second⟩
  | ok start =>
    obtain ⟨bound,visits⟩ := exists_visits g start
    refine ⟨bound,fun settings more first second knownFirst knownSecond settles => ?_⟩
    have reaches {order other : List Int} {a : Analysis} (known : ∀ id ∈ other, g.Known id)
        (ran : run settings g order = .ok a) (settled : Settled settings g start a.facts) :
        ∃ b, run settings g other = .ok b ∧ Grown b.facts a.facts := by
      obtain ⟨-,-,start',seeded',propagated⟩ := run_parts ran
      cases seeded.symm.trans seeded'
      exact run_below (limit_of_run numbered ran seeded settled) ran seeded known
        (Nat.le_trans (visits settings order _ _ _ (known_of_run ran) propagated) more)
    constructor
    · rintro (⟨-,e,failed⟩ | ⟨a,b,ran,ran',same⟩)
      · intro _ b _ ran
        cases failed.symm.trans ran
      · intro start' b' seeded' again
        cases again.symm.trans ran'
        exact (settles start' a seeded' ran).congr fun o => (same o).symm
    · intro settles'
      cases ran : run settings g first with
      | ok a =>
        obtain ⟨b,ran',below⟩ := reaches knownSecond ran (settles start a seeded ran)
        obtain ⟨a',again,above⟩ := reaches knownFirst ran' (settles' start b seeded ran')
        cases again.symm.trans ran
        exact .inr ⟨a,b,rfl,ran',grown_antisymm above below⟩
      | error e =>
        cases ran' : run settings g second with
        | ok b =>
          obtain ⟨a,again,-⟩ := reaches knownFirst ran' (settles' start b seeded ran')
          cases again.symm.trans ran
        | error e' => exact .inl ⟨⟨e,rfl⟩,⟨e',rfl⟩⟩

theorem run_more (same : settings.foldConstants = settings'.foldConstants)
    (more : settings.maxSteps ≤ settings'.maxSteps) {a : Analysis} (ran : run settings g order = .ok a) :
    run settings' g order = .ok a := by
  obtain ⟨valid,serial,start,seeded,propagated⟩ := run_parts ran
  rw [run_eq valid seeded (known_of_run ran),propagate_more same more propagated]
  cases a
  cases serial
  rfl

end

def openFact : Fact := .outline (some .f64) none
def grid : Fact := .outline (some .f64) (some [.known 3,.known 4])

-- The shape of `x` comes from the packed sum when the sum is visited before the slice, and its rank
-- comes from the slice otherwise; then the sum no longer looks back at it.
def stacked : Graph where
  serial := 0
  name := "stacked"
  nodes := [⟨0,"x",(Op.placeholder openFact).operator,[]⟩,⟨1,"one",(Op.const one).operator,[]⟩,
    ⟨2,"sum",(Op.binary .add).operator,[⟨0,0⟩,⟨1,0⟩]⟩,⟨3,"k",(Op.placeholder grid).operator,[]⟩,
    ⟨4,"pack",(Op.pack 0).operator,[⟨2,0⟩,⟨3,0⟩]⟩,
    ⟨5,"slice",(Op.slice [⟨0,none⟩,⟨0,none⟩]).operator,[⟨0,0⟩]⟩]
  inputFacts := [(0,openFact),(3,grid)]
  outputs := [⟨4,0⟩,⟨5,0⟩]

def shapeAt (x : Outcome Analysis) (o : Outlet) : Option ShapeFact :=
  (x.toOption.bind (·.facts.get? o)).bind Fact.shape

theorem shapeAt_some {x : Outcome Analysis} {o : Outlet} {s : ShapeFact} (found : shapeAt x o = some s) :
    ∃ a, x = .ok a ∧ (a.facts.get? o).bind Fact.shape = some s := by
  cases x with
  | error e => cases found
  | ok a => exact ⟨a,rfl,found⟩

theorem orders_disagree : ¬ ∃ bound, ∀ settings : AnalysisSettings, bound ≤ settings.maxSteps →
    ∀ first second : List Int, (∀ id ∈ first, stacked.Known id) → (∀ id ∈ second, stacked.Known id) →
      Agree (run settings stacked first) (run settings stacked second) := by
  rintro ⟨bound,agree⟩
  have packFirst : shapeAt (run .standard stacked [4,2]) ⟨0,0⟩ = some [.known 3,.known 4] := by decide +kernel
  have sliceFirst : shapeAt (run .standard stacked [5]) ⟨0,0⟩ = some [.unknown,.unknown] := by decide +kernel
  obtain ⟨a,ran,shape⟩ := shapeAt_some packFirst
  obtain ⟨b,ran',shape'⟩ := shapeAt_some sliceFirst
  let patient : AnalysisSettings :=
    ⟨max bound AnalysisSettings.standard.maxSteps,true,
      Nat.lt_of_lt_of_le AnalysisSettings.standard.maxSteps_pos (Nat.le_max_right ..)⟩
  have folds : AnalysisSettings.standard.foldConstants = patient.foldConstants := rfl
  have more : AnalysisSettings.standard.maxSteps ≤ patient.maxSteps := Nat.le_max_right ..
  have later := run_more folds more ran
  have later' := run_more folds more ran'
  rcases agree patient (Nat.le_max_left ..) [4,2] [5] (known_of_run ran) (known_of_run ran') with
    ⟨⟨e,failed⟩,-⟩ | ⟨a',b',again,again',same⟩
  · cases later.symm.trans failed
  · cases later.symm.trans again
    cases later'.symm.trans again'
    rw [same,shape'] at shape
    cases shape

def row : Fact := .outline (some .f64) (some [.known 1,.known 3])

-- Here the shape of `x` is found by looking back, whatever is visited first.
def packed : Graph where
  serial := 0
  name := "packed"
  nodes := [⟨0,"x",(Op.placeholder openFact).operator,[]⟩,⟨1,"row",(Op.placeholder row).operator,[]⟩,
    ⟨2,"first",(Op.pack 0).operator,[⟨0,0⟩]⟩,⟨3,"both",(Op.pack 0).operator,[⟨2,0⟩,⟨1,0⟩]⟩]
  inputFacts := [(0,openFact),(1,row)]
  outputs := [⟨3,0⟩]

def packedFacts : FactTable := ⟨[(⟨0,0⟩,.outline (some .f64) (some [.known 3])),(⟨1,0⟩,row),(⟨2,0⟩,row),
  (⟨3,0⟩,.outline (some .f64) (some [.known 2,.known 1,.known 3]))]⟩

theorem packed_run_both : run .standard packed [3,2] = .ok ⟨0,packedFacts,7⟩ := by rfl
theorem packed_run_numbers : run .standard packed [] = .ok ⟨0,packedFacts,8⟩ := by rfl

def packedStart : FactTable := ⟨[(⟨0,0⟩,openFact),(⟨1,0⟩,row),(⟨2,0⟩,.unknown),(⟨3,0⟩,.unknown)]⟩

theorem packed_seed : seed packed = .ok packedStart := by rfl

theorem packed_numbered : packed.Numbered := by
  intro i n at_
  have within : i < 4 := (List.getElem?_eq_some_iff.mp at_).1
  match i, within with
  | 0, _ | 1, _ | 2, _ | 3, _ => cases at_; rfl

theorem packed_typed : Typed packedFacts := by
  intro o f found
  have member : (o,f) ∈ packedFacts.entries := by
    obtain ⟨before,after,equal,-⟩ := List.lookup_eq_some_iff.mp found
    rw [equal]
    simp
  have outlined : ∀ e ∈ packedFacts.entries, e.2.value = none := by decide
  intro t value
  cases (outlined _ member).symm.trans value

theorem packed_settled (settings : AnalysisSettings) : Settled settings packed packedStart packedFacts := by
  refine ⟨packed_typed,fun n member => ?_⟩
  simp only [packed,List.mem_cons,List.not_mem_nil,or_false] at member
  rcases member with rfl | rfl | rfl | rfl
  · exact ⟨.placeholder openFact,rfl,fun _ _ _ _ _ _ => ⟨trivial,fun _ fixed => nomatch fixed⟩⟩
  · exact ⟨.placeholder row,rfl,fun _ _ _ _ _ _ => ⟨trivial,fun _ fixed => nomatch fixed⟩⟩
  · refine ⟨.pack 0,rfl,fun begun ins outs readEarly readIns readOuts => ?_⟩
    cases readEarly
    cases readIns
    cases readOuts
    refine ⟨fun _ o shape => ?_,fun _ _ _ constants => nomatch constants⟩
    cases shape
    refine ⟨0,rfl,fun f single => ?_⟩
    rw [List.mem_singleton.mp single]
    exact ShapeFact.below?_refl _
  · refine ⟨.pack 0,rfl,fun begun ins outs readEarly readIns readOuts => ?_⟩
    cases readEarly
    cases readIns
    cases readOuts
    exact ⟨fun open_ => (nomatch open_ row (by simp)),fun _ _ _ constants => nomatch constants⟩

theorem orders_agree_packed : packed.Numbered ∧ ∃ settings : AnalysisSettings,
    Settles settings packed [3,2] ∧ Settles settings packed [] ∧
      Agree (run settings packed [3,2]) (run settings packed []) := by
  obtain ⟨bound,agree⟩ := orders_agree_iff_settle packed_numbered
  let patient : AnalysisSettings :=
    ⟨max bound AnalysisSettings.standard.maxSteps,true,
      Nat.lt_of_lt_of_le AnalysisSettings.standard.maxSteps_pos (Nat.le_max_right ..)⟩
  have folds : AnalysisSettings.standard.foldConstants = patient.foldConstants := rfl
  have more : AnalysisSettings.standard.maxSteps ≤ patient.maxSteps := Nat.le_max_right ..
  have settles {order : List Int} {count : Nat}
      (ran : run .standard packed order = .ok ⟨0,packedFacts,count⟩) : Settles patient packed order := by
    intro start a seeded again
    cases packed_seed.symm.trans seeded
    cases (run_more folds more ran).symm.trans again
    exact packed_settled patient
  have both := settles packed_run_both
  have numbers := settles packed_run_numbers
  refine ⟨packed_numbered,patient,both,numbers,?_⟩
  exact (agree patient (Nat.le_max_left ..) [3,2] [] (known_of_run packed_run_both) nofun both).mpr numbers

end Analysis

end TensorGraph
