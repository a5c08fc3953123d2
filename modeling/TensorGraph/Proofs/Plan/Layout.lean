import TensorGraph.Proofs.Analysis.Soundness
import TensorGraph.Proofs.Plan.Meaning

namespace TensorGraph.Plan
open Outcome

variable {p : Plan} {g : Graph} {a : Analysis}

-- Outlets that the nodes of a schedule take when they are computed, as often as they take them.
def taken (p : Plan) (g : Graph) (ids : List Int) : List Outlet :=
  (ids.filter fun id => !p.folded.contains id).flatMap fun id => ((g.get? id).map (·.inputs)).getD []

theorem mem_taken {ids : List Int} {o : Outlet} : o ∈ taken p g ids ↔
    ∃ id ∈ ids, id ∉ p.folded ∧ ∃ n, g.get? id = some n ∧ o ∈ n.inputs := by
  unfold taken
  simp only [List.mem_flatMap,List.mem_filter,and_assoc]
  refine exists_congr fun id => and_congr_right fun _ => and_congr (by simp) ?_
  cases g.get? id <;> simp

theorem taken_folded {id : Int} {ids : List Int} (folded : id ∈ p.folded) :
    taken p g (id :: ids) = taken p g ids := by
  unfold taken
  rw [List.filter_cons_of_neg (by simpa using folded)]

theorem taken_computed {id : Int} {ids : List Int} {n : Node} (computed : id ∉ p.folded)
    (found : g.get? id = some n) : taken p g (id :: ids) = n.inputs ++ taken p g ids := by
  unfold taken
  rw [List.filter_cons_of_pos (by simpa using computed),List.flatMap_cons,found]
  rfl

theorem taken_append (before after : List Int) : taken p g (before ++ after) = taken p g before ++ taken p g after := by
  unfold taken
  rw [List.filter_append,List.flatMap_append]

-- Nodes, other than inputs, of which the analysis knows every output.
structure Constant (a : Analysis) (g : Graph) (id : Int) : Prop where
  computed : g.isInput id = false
  values : ∃ n, g.get? id = some n ∧ ∀ o ∈ n.outlets, ∃ f t, a.facts.get? o = some f ∧ f.value = some t

-- What a plan promises: the requested outlets in order, every node after those it takes from, and
-- as many uses of an outlet as there are inputs in the schedule that take it.
structure Laid (p : Plan) (g : Graph) (refs : List OutletRef) : Prop where
  outputs : List.Forall₂ (fun r o => request g r = .ok o) refs p.outputs
  schedule : g.Schedule p.outputs p.folded p.schedule
  folded : ∀ id ∈ p.folded, ∃ a, p.analysis = some a ∧ Constant a g id
  constants : ∀ id ∈ p.folded, ∀ a, p.analysis = some a → ∀ n, g.get? id = some n → ∀ o ∈ n.outlets,
    ∃ f t, a.facts.get? o = some f ∧ f.value = some t ∧ p.constants.get? o = some t
  uses : ∀ o, (p.uses.get? o).getD 0 = (taken p g p.schedule).count o
  required : p.required = p.schedule.filter g.isInput

theorem filterAuxM_ok {f : α → Outcome Bool} {xs kept ys : List α}
    (ran : xs.filterAuxM f kept = .ok ys) : ∀ y ∈ ys, y ∈ kept ∨ y ∈ xs ∧ f y = .ok true := by
  induction xs generalizing kept with
  | nil => cases ran; exact fun y member => .inl member
  | cons x xs ih =>
    unfold List.filterAuxM at ran
    obtain ⟨keep,checked,ran⟩ := bind_ok.mp ran
    intro y member
    rcases ih ran y member with old | ⟨new,holds⟩
    · cases keep with
      | false => exact .inl old
      | true =>
        rcases List.mem_cons.mp old with rfl | old
        · exact .inr ⟨List.mem_cons_self,checked⟩
        · exact .inl old
    · exact .inr ⟨List.mem_cons_of_mem _ new,holds⟩

theorem allConstant_ok {os : List Outlet} (constant : allConstant a g os = .ok true) :
    ∀ o ∈ os, ∃ f t, a.facts.get? o = some f ∧ f.value = some t := by
  induction os with
  | nil => exact nofun
  | cons o os ih =>
    unfold allConstant at constant
    obtain ⟨f,fact,constant⟩ := bind_ok.mp constant
    split at constant
    · rename_i value
      obtain ⟨t,value⟩ := Option.isSome_iff_exists.mp value
      exact List.forall_mem_cons.mpr ⟨⟨f,t,Analysis.fact_ok.mp fact,value⟩,ih constant⟩
    · cases constant

theorem constantNodes_ok (wired : g.Wired) {boundary : List Int}
    (found : constantNodes a g = .ok boundary) : ∀ id ∈ boundary, Constant a g id := by
  unfold constantNodes at found
  obtain ⟨ns,filtered,equal⟩ := bind_ok.mp found
  cases equal
  unfold List.filterM at filtered
  obtain ⟨reversed,collected,equal⟩ := bind_ok.mp filtered
  cases equal
  intro id member
  obtain ⟨n,kept,rfl⟩ := List.mem_map.mp member
  rcases filterAuxM_ok collected n (List.mem_reverse.mp kept) with none | ⟨candidate,constant⟩
  · cases none
  · obtain ⟨node,computed⟩ := List.mem_filter.mp candidate
    exact ⟨by simpa using computed,n,wired.numbered.get?_id node,allConstant_ok constant⟩

-- A table that holds nothing but what the analysis found.
def Copied (a : Analysis) (table : Table Tensor) : Prop :=
  ∀ o t, table.get? o = some t → ∃ f, a.facts.get? o = some f ∧ f.value = some t

theorem enter_constant {table table' : Table Tensor} {o : Outlet}
    (step : (do match (← a.fact g o).value with
      | some v => return table.set o v
      | none => return table) = (.ok table' : Outcome (Table Tensor))) :
    (Copied a table → Copied a table') ∧ (∀ q, (table.get? q).isSome = true → (table'.get? q).isSome = true) ∧
      ∀ f t, a.facts.get? o = some f → f.value = some t → (table'.get? o).isSome = true := by
  obtain ⟨f,fact,step⟩ := bind_ok.mp step
  have fact := Analysis.fact_ok.mp fact
  split at step
  · rename_i v value
    cases step
    refine ⟨?_,fun _ found => Table.isSome_set found,fun _ _ _ _ => by simp [Table.get?_set]⟩
    intro copied q t entry
    rw [Table.get?_set] at entry
    split at entry
    · rename_i here
      cases entry
      subst here
      exact ⟨f,fact,value⟩
    · exact copied q t entry
  · rename_i none
    cases step
    refine ⟨fun copied => copied,fun _ found => found,?_⟩
    intro _ t other value
    rw [fact] at other
    cases other
    rw [none] at value
    cases value

-- The constants of a plan are what the analysis found, and all of it.
theorem constantTable_ok {ids : List Int} {table : Table Tensor}
    (made : constantTable a g ids = .ok table) : Copied a table ∧
      ∀ id ∈ ids, ∀ n, g.get? id = some n → ∀ o ∈ n.outlets, ∀ f t, a.facts.get? o = some f →
        f.value = some t → (table.get? o).isSome = true := by
  unfold constantTable at made
  constructor
  · refine foldlM_keeps (P := Copied a) ?_ (by simp [Copied]) made
    intro table id table' _ before step
    obtain ⟨n,-,step⟩ := bind_ok.mp step
    exact foldlM_keeps (P := Copied a) (fun _ _ _ _ copied step => (enter_constant step).1 copied)
      before step
  · refine foldlM_establishes (Q := fun id (table : Table Tensor) => ∀ n, g.get? id = some n →
      ∀ o ∈ n.outlets, ∀ f t, a.facts.get? o = some f → f.value = some t →
        (table.get? o).isSome = true) ?_ ?_ made
    · intro s id s' step n found
      obtain ⟨m,found',step⟩ := bind_ok.mp step
      rw [Graph.node_ok,found] at found'
      cases found'
      refine foldlM_establishes (Q := fun o (table : Table Tensor) => ∀ f t, a.facts.get? o = some f →
        f.value = some t → (table.get? o).isSome = true) ?_ ?_ step
      · exact fun _ _ _ step => (enter_constant step).2.2
      · exact fun _ _ _ q step holds f t fact value => (enter_constant step).2.1 q (holds f t fact value)
    · intro s id s' other step holds n found o outlet f t fact value
      obtain ⟨m,-,step⟩ := bind_ok.mp step
      exact foldlM_keeps (P := fun table : Table Tensor => (table.get? o).isSome = true)
        (fun _ _ _ _ kept step => (enter_constant step).2.1 o kept)
        (holds n found o outlet f t fact value) step

theorem count_uses (os : List Outlet) (table : Table Int) (o : Outlet) :
    ((os.foldl (fun t o => t.set o ((t.get? o).getD 0 + 1)) table).get? o).getD 0 =
      (table.get? o).getD 0 + os.count o := by
  induction os generalizing table with
  | nil => simp
  | cons q os ih =>
    rw [List.foldl_cons,ih,Table.get?_set,List.count_cons]
    by_cases here : o = q
    · subst here; simp; omega
    · rw [if_neg here,if_neg (by simpa using fun equal => here equal.symm)]
      simp

theorem countUses_from {ids : List Int} {start table : Table Int}
    (counted : ids.foldlM (fun (t : Table Int) id => do
      return (← g.node id).inputs.foldl (fun t o => t.set o ((t.get? o).getD 0 + 1)) t) start =
        (.ok table : Outcome (Table Int))) (o : Outlet) :
    (table.get? o).getD 0 = (start.get? o).getD 0 +
      (ids.flatMap fun id => ((g.get? id).map (·.inputs)).getD []).count o := by
  induction ids generalizing start with
  | nil => cases counted; simp
  | cons id ids ih =>
    rw [List.foldlM_cons] at counted
    obtain ⟨next,step,rest⟩ := bind_ok.mp counted
    obtain ⟨n,found,equal⟩ := bind_ok.mp step
    cases equal
    rw [ih rest,count_uses,List.flatMap_cons,List.count_append,Graph.node_ok.mp found]
    simp only [Option.map_some,Option.getD_some]
    omega

-- Nodes behind which a plan does not look, and what it takes from the analysis instead.
def boundary (config : PlanSettings) (g : Graph) : Option Analysis → Outcome (List Int)
  | some a => if config.useFoldedConstants then constantNodes a g else .ok []
  | none => .ok []

def foldedTable (g : Graph) (folded : List Int) : Option Analysis → Outcome (Table Tensor)
  | some a => constantTable a g folded
  | none => .ok .empty

-- Planning with an analysis of the graph, or without any.
theorem make_eq (same : ∀ a, known = some a → a.graph = g.serial) : make config g refs known = (do
    let outputs ← (refs.getD (g.outputs.map .outlet)).mapM (request g)
    if outputs.isEmpty then fail .nothingRequested
    let stop ← boundary config g known
    let order ← g.topologicalOrder (some outputs) stop
    let folded := order.filter stop.contains
    let constants ← foldedTable g folded known
    let uses ← countUses g (order.filter fun id => !folded.contains id)
    return ⟨g.serial,config,known,outputs,order,folded,constants,uses,order.filter g.isInput⟩) := by
  cases known with
  | none => rfl
  | some a =>
    have equal := same a rfl
    unfold make boundary foldedTable
    dsimp only
    rw [if_neg (by simpa using equal)]
    cases folds : config.useFoldedConstants <;> rfl

theorem make_ok : make config g refs known = .ok p ↔
    (∀ a, known = some a → a.graph = g.serial) ∧
    ∃ outputs stop order constants uses,
      (refs.getD (g.outputs.map .outlet)).mapM (request g) = .ok outputs ∧ outputs ≠ [] ∧
      boundary config g known = .ok stop ∧ g.topologicalOrder (some outputs) stop = .ok order ∧
      foldedTable g (order.filter stop.contains) known = .ok constants ∧
      countUses g (order.filter fun id => !(order.filter stop.contains).contains id) = .ok uses ∧
      p = ⟨g.serial,config,known,outputs,order,order.filter stop.contains,constants,uses,
        order.filter g.isInput⟩ := by
  constructor
  · intro made
    have same : ∀ a, known = some a → a.graph = g.serial := by
      rintro a rfl
      by_contra other
      simp [make,other] at made
    rw [make_eq same] at made
    obtain ⟨outputs,requested,made⟩ := bind_ok.mp made
    dsimp only at made
    split at made
    · cases made
    · rename_i nonempty
      obtain ⟨stop,bounded,made⟩ := bind_ok.mp made
      obtain ⟨order,ordered,made⟩ := bind_ok.mp made
      obtain ⟨constants,entered,made⟩ := bind_ok.mp made
      obtain ⟨uses,counted,equal⟩ := bind_ok.mp made
      cases equal
      exact ⟨same,outputs,stop,order,constants,uses,requested,by simpa using nonempty,bounded,ordered,
        entered,counted,rfl⟩
  · rintro ⟨same,outputs,stop,order,constants,uses,requested,nonempty,bounded,ordered,entered,
      counted,rfl⟩
    rw [make_eq same,requested,ok_bind]
    dsimp only
    rw [if_neg (by simpa using nonempty),bounded,ok_bind,ordered,ok_bind,entered,ok_bind,counted,ok_bind]
    rfl

theorem make_laid (wired : g.Wired) (made : make config g refs known = .ok p) :
    p.Laid g (refs.getD (g.outputs.map .outlet)) ∧ p.settings = config ∧ p.analysis = known := by
  obtain ⟨-,outputs,stop,order,constants,uses,requested,-,bounded,ordered,entered,counted,rfl⟩ :=
    make_ok.mp made
  have placed := Graph.topologicalOrder_schedule wired.rooted ordered
  have constant : ∀ id ∈ stop, ∃ a, known = some a ∧ Constant a g id := by
    intro id member
    unfold boundary at bounded
    split at bounded
    · rename_i a
      split at bounded
      · exact ⟨a,rfl,constantNodes_ok wired bounded id member⟩
      · cases bounded; cases member
    · cases bounded; cases member
  have kept : ∀ id ∈ order.filter stop.contains, id ∈ stop := by
    intro id member
    simpa using (List.mem_filter.mp member).2
  refine ⟨⟨mapM_ok.mp requested,?_,?_,?_,?_,rfl⟩,rfl,rfl⟩
  · refine ⟨placed.nodup,placed.known,placed.targets,?_⟩
    intro before id rest n split open_ found
    refine placed.after before id rest n split (fun inside => open_ ?_) found
    dsimp only at split
    exact List.mem_filter.mpr ⟨by rw [split]; simp,by simpa using inside⟩
  · exact fun id member => constant id (kept id member)
  · intro id member a analysed n found o outlet
    dsimp only at analysed
    subst analysed
    obtain ⟨copied,complete⟩ := constantTable_ok entered
    obtain ⟨_,equal,computed,m,found',values⟩ := constant id (kept id member)
    cases equal
    rw [found] at found'
    cases found'
    obtain ⟨f,t,fact,value⟩ := values o outlet
    obtain ⟨u,entry⟩ := Option.isSome_iff_exists.mp (complete id member n found o outlet f t fact value)
    obtain ⟨f',fact',value'⟩ := copied o u entry
    rw [fact] at fact'
    cases fact'
    rw [value] at value'
    cases value'
    exact ⟨f,t,fact,value,entry⟩
  · intro o
    have count := countUses_from counted o
    simpa [taken] using count

end TensorGraph.Plan
