import TensorGraph.Proofs.Analysis.Soundness
import TensorGraph.Proofs.Fact.Order

namespace TensorGraph.Analysis
open Outcome

variable {g : Graph} {settings : AnalysisSettings} {table table' : FactTable} {n m : Node}
  {changed changed' : List Outlet} {news : List (Outlet × Fact)} {queue : List Int}

-- A visit in parts: facts are read, the rule is applied, and the answers are entered.
theorem visit_parts (visited : visit settings g table n = .ok (table',changed)) :
    ∃ ins outs newIns newOuts, n.inputs.mapM table.get = .ok ins ∧ n.outlets.mapM table.get = .ok outs ∧
      applyRule settings g n ins outs = .ok (newIns,newOuts) ∧
      (n.inputs.zip newIns ++ n.outlets.zip newOuts).foldlM merge (table,[]) = .ok (table',changed) := by
  unfold visit at visited
  obtain ⟨ins,readIns,visited⟩ := bind_ok.mp visited
  obtain ⟨outs,readOuts,visited⟩ := bind_ok.mp visited
  rw [mapError_ok] at visited
  obtain ⟨⟨newIns,newOuts⟩,applied,merged⟩ := bind_ok.mp visited
  exact ⟨ins,outs,newIns,newOuts,readIns,readOuts,applied,merged⟩

theorem visit_of_parts {ins outs newIns newOuts : Facts} (readIns : n.inputs.mapM table.get = .ok ins)
    (readOuts : n.outlets.mapM table.get = .ok outs)
    (applied : applyRule settings g n ins outs = .ok (newIns,newOuts))
    (merged : (n.inputs.zip newIns ++ n.outlets.zip newOuts).foldlM merge (table,[]) = .ok (table',changed)) :
    visit settings g table n = .ok (table',changed) := by
  unfold visit
  rw [readIns,ok_bind,readOuts,ok_bind]
  dsimp only
  rw [applied,ok_bind,merged]
  rfl

-- Nothing more becomes known of the outlet.
def Quiet (table : FactTable) (news : Outlet × Fact) : Prop :=
  ∃ old new, table.get? news.1 = some old ∧ old.unify news.2 = .ok new ∧ new.same old = true

theorem merge_cases {news : Outlet × Fact} (merged : merge (table,changed) news = .ok (table',changed')) :
    (Quiet table news ∧ table' = table ∧ changed' = changed) ∨
      ∃ old new, table.get? news.1 = some old ∧ old.unify news.2 = .ok new ∧ new.same old = false ∧
        table' = table.set news.1 new ∧ changed' = changed ++ [news.1] := by
  obtain ⟨old,found,merged⟩ := bind_ok.mp merged
  obtain ⟨new,unified,merged⟩ := bind_ok.mp merged
  rw [Table.get_ok] at found
  split at merged
  · rename_i same
    cases merged
    exact .inl ⟨⟨old,new,found,unified,same⟩,rfl,rfl⟩
  · rename_i other
    cases merged
    exact .inr ⟨old,new,found,unified,by simpa using other,rfl,rfl⟩

theorem merge_quiet {news : Outlet × Fact} (quiet : Quiet table news) :
    merge (table,changed) news = .ok (table,changed) := by
  obtain ⟨old,new,found,unified,same⟩ := quiet
  unfold merge
  dsimp only
  rw [Table.get_ok.mpr found,ok_bind,unified,ok_bind,if_pos same]
  rfl

theorem merges_quiet (quiet : ∀ p ∈ news, Quiet table p) :
    news.foldlM merge (table,changed) = .ok (table,changed) := by
  induction news with
  | nil => rfl
  | cons p news ih =>
    obtain ⟨first,rest⟩ := List.forall_mem_cons.mp quiet
    rw [List.foldlM_cons,merge_quiet first]
    exact ih rest

-- What entering does to a table: facts grow, at the outlets that are named and nowhere else.
structure Entered (news : List (Outlet × Fact)) (table table' : FactTable) (more : List Outlet) : Prop where
  named : ∀ o ∈ more, o ∈ news.map (·.1)
  kept : ∀ o, o ∉ more → table'.get? o = table.get? o
  grown : ∀ o f, table.get? o = some f → ∃ f', table'.get? o = some f' ∧ f.Below f'
  quiet : more = [] → table' = table ∧ ∀ p ∈ news, Quiet table p

theorem merges_entered (ran : news.foldlM merge (table,changed) = .ok (table',changed')) :
    ∃ more, changed' = changed ++ more ∧ Entered news table table' more := by
  induction news generalizing table changed with
  | nil =>
    cases ran
    exact ⟨[],by simp,nofun,fun _ _ => rfl,fun o f found => ⟨f,found,f.below_refl⟩,fun _ => ⟨rfl,nofun⟩⟩
  | cons p news ih =>
    rw [List.foldlM_cons,bind_ok] at ran
    obtain ⟨⟨middle,changed''⟩,merged,ran⟩ := ran
    obtain ⟨more,rfl,entered⟩ := ih ran
    rcases merge_cases merged with ⟨quiet,rfl,rfl⟩ | ⟨old,new,found,unified,-,rfl,rfl⟩
    · exact ⟨more,rfl,fun o member => List.mem_cons_of_mem _ (entered.named o member),entered.kept,
        entered.grown,fun none => ⟨(entered.quiet none).1,List.forall_mem_cons.mpr ⟨quiet,(entered.quiet none).2⟩⟩⟩
    · refine ⟨p.1 :: more,by simp,?_,?_,?_,nofun⟩
      · exact List.forall_mem_cons.mpr ⟨List.mem_cons_self,
          fun o member => List.mem_cons_of_mem _ (entered.named o member)⟩
      · intro o other
        rw [List.mem_cons,not_or] at other
        rw [entered.kept o other.2,Table.get?_set,if_neg other.1]
      · intro o f known
        by_cases here : o = p.1
        · subst here
          cases found.symm.trans known
          obtain ⟨f',later,below⟩ := entered.grown p.1 new (by simp [Table.get?_set])
          exact ⟨f',later,(Fact.unify_left unified).trans below⟩
        · exact entered.grown o f (by rw [Table.get?_set,if_neg here]; exact known)

def around (n : Node) : List Outlet := n.inputs ++ n.outlets

theorem named_around {newIns newOuts : Facts} {o : Outlet}
    (named : o ∈ (n.inputs.zip newIns ++ n.outlets.zip newOuts).map (·.1)) : o ∈ around n := by
  obtain ⟨⟨_,f⟩,member,rfl⟩ := List.mem_map.mp named
  rcases List.mem_append.mp member with input | output
  · exact List.mem_append_left _ (List.of_mem_zip input).1
  · exact List.mem_append_right _ (List.of_mem_zip output).1

-- A node at rest: a visit fails nowhere and finds nothing.
def Stable (settings : AnalysisSettings) (g : Graph) (table : FactTable) (n : Node) : Prop :=
  visit settings g table n = .ok (table,[])

theorem read_congr {os : List Outlet} (same : ∀ o ∈ os, table'.get? o = table.get? o) :
    os.mapM table'.get = os.mapM table.get := by
  induction os with
  | nil => rfl
  | cons o os ih =>
    obtain ⟨first,rest⟩ := List.forall_mem_cons.mp same
    have here : table'.get o = table.get o := by
      unfold Table.get
      rw [first]
    rw [List.mapM_cons,List.mapM_cons,here,ih rest]

-- A node at rest stays there while nothing around it changes.
theorem Stable.frame (stable : Stable settings g table n)
    (same : ∀ o ∈ around n, table'.get? o = table.get? o) : Stable settings g table' n := by
  obtain ⟨ins,outs,newIns,newOuts,readIns,readOuts,applied,merged⟩ := visit_parts stable
  obtain ⟨more,equal,entered⟩ := merges_entered merged
  obtain ⟨-,quiet⟩ := entered.quiet (by simpa using equal.symm)
  refine visit_of_parts ?_ ?_ applied (merges_quiet fun p member => ?_)
  · rw [read_congr fun o input => same o (List.mem_append_left _ input)]
    exact readIns
  · rw [read_congr fun o output => same o (List.mem_append_right _ output)]
    exact readOuts
  · obtain ⟨old,new,found,unified,agree⟩ := quiet p member
    refine ⟨old,new,?_,unified,agree⟩
    rw [same p.1 (named_around (List.mem_map.mpr ⟨p,member,rfl⟩))]
    exact found

theorem mem_enqueue {id other : Int} : id ∈ enqueue queue other ↔ id ∈ queue ∨ id = other := by
  unfold enqueue
  split
  · rename_i waits
    have member : other ∈ queue := by simpa using waits
    exact ⟨.inl,fun either => either.elim (fun inside => inside) fun equal => equal ▸ member⟩
  · simp

theorem mem_enqueues {ids : List Int} {id : Int} : id ∈ ids.foldl enqueue queue ↔ id ∈ queue ∨ id ∈ ids := by
  induction ids generalizing queue with
  | nil => simp
  | cons other ids ih => rw [List.foldl_cons,ih,mem_enqueue,List.mem_cons,or_assoc]

theorem mem_enqueueAround {id : Int} : id ∈ enqueueAround g queue changed ↔
    id ∈ queue ∨ ∃ o ∈ changed, id = o.node ∨ id ∈ (g.consumers o).map (·.node) := by
  unfold enqueueAround
  induction changed generalizing queue with
  | nil => simp
  | cons o changed ih =>
    rw [List.foldl_cons,ih,mem_enqueues,mem_enqueue]
    simp only [List.exists_mem_cons_iff,or_assoc]

theorem consumer_mem {o : Outlet} (member : m ∈ g.nodes) (input : o ∈ m.inputs) :
    (m.id : Int) ∈ (g.consumers o).map (·.node) := by
  obtain ⟨k,at_⟩ := List.mem_iff_getElem?.mp input
  refine List.mem_map.mpr ⟨⟨m.id,k⟩,?_,rfl⟩
  refine List.mem_map.mpr ⟨(o,⟨m.id,k⟩),List.mem_filter.mpr ⟨?_,by simp⟩,rfl⟩
  refine List.mem_flatMap.mpr ⟨m,member,List.mem_map.mpr ⟨(o,k),?_,rfl⟩⟩
  exact List.mem_zipIdx_iff_getElem?.mpr at_

-- A change around a node puts it into the queue.
theorem enqueued_of_changed {o : Outlet} (member : m ∈ g.nodes) (near : o ∈ around m) (change : o ∈ changed) :
    (m.id : Int) ∈ enqueueAround g queue changed := by
  refine mem_enqueueAround.mpr (.inr ⟨o,change,?_⟩)
  rcases List.mem_append.mp near with input | output
  · exact .inr (consumer_mem member input)
  · exact .inl (Node.mem_outlets.mp output).1.symm

-- The invariant of the loop: whatever does not wait is at rest.
def Resting (settings : AnalysisSettings) (g : Graph) (table : FactTable) (queue : List Int) : Prop :=
  ∀ m ∈ g.nodes, (m.id : Int) ∉ queue → Stable settings g table m

theorem visit_resting {id : Int} (numbered : g.Numbered) (found : g.node id = .ok n)
    (visited : visit settings g table n = .ok (table',changed))
    (resting : Resting settings g table (id :: queue)) :
    Resting settings g table' (enqueueAround g queue changed) := by
  obtain ⟨ins,outs,newIns,newOuts,-,-,-,merged⟩ := visit_parts visited
  obtain ⟨more,equal,entered⟩ := merges_entered merged
  rw [List.nil_append] at equal
  subst equal
  intro m member idle
  have untouched : ∀ o ∈ around m, o ∉ changed := fun o near change =>
    idle (enqueued_of_changed member near change)
  by_cases here : (m.id : Int) = id
  · -- the node itself: what it changed lies around it, so it changed nothing
    have equal : m = n := by
      have there := numbered.get?_id member
      rw [here,Graph.node_ok.mp found] at there
      exact (Option.some.inj there).symm
    subst equal
    have none : changed = [] := List.eq_nil_iff_forall_not_mem.mpr fun o change =>
      untouched o (named_around (entered.named o change)) change
    subst none
    cases (entered.quiet rfl).1
    exact visited
  · refine Stable.frame (resting m member ?_) fun o near => entered.kept o (untouched o near)
    rw [List.mem_cons,not_or]
    exact ⟨here,fun waits => idle (mem_enqueueAround.mpr (.inl waits))⟩

theorem propagate_resting (numbered : g.Numbered) {fuel steps count : Nat}
    (resting : Resting settings g table queue)
    (ran : propagate settings g fuel steps table queue = .ok (table',count)) :
    Resting settings g table' [] := by
  induction fuel generalizing steps table queue with
  | zero =>
    cases queue with
    | nil => cases ran; exact resting
    | cons id queue => cases ran
  | succ fuel ih =>
    cases queue with
    | nil => cases ran; exact resting
    | cons id queue =>
      unfold propagate at ran
      obtain ⟨n,found,ran⟩ := bind_ok.mp ran
      obtain ⟨⟨next,changed⟩,visited,ran⟩ := bind_ok.mp ran
      exact ih (visit_resting numbered found visited resting) ran

theorem mem_firstQueue {order : List Int} (numbered : g.Numbered) (member : m ∈ g.nodes) :
    (m.id : Int) ∈ firstQueue g order := by
  refine mem_enqueues.mpr (.inr (List.mem_append_right _ (List.mem_map.mpr ⟨m.id,?_,rfl⟩)))
  obtain ⟨i,at_⟩ := List.mem_iff_getElem?.mp member
  rw [numbered i m at_,List.mem_range]
  exact (List.getElem?_eq_some_iff.mp at_).1

-- When a run returns, every node is at rest.
theorem run_stable (numbered : g.Numbered) (ran : run settings g order = .ok a) :
    ∀ n ∈ g.nodes, Stable settings g a.facts n := by
  obtain ⟨-,-,start,-,propagated⟩ := run_parts ran
  have resting : Resting settings g start (firstQueue g order) := fun m member idle =>
    absurd (mem_firstQueue numbered member) idle
  exact fun n member => propagate_resting numbered resting propagated n member nofun

theorem propagate_stable (stable : ∀ n ∈ g.nodes, Stable settings g table n) {fuel steps : Nat}
    (known : ∀ id ∈ queue, ∃ n, g.get? id = some n) (enough : queue.length ≤ fuel) :
    propagate settings g fuel steps table queue = .ok (table,steps + queue.length) := by
  induction queue generalizing fuel steps with
  | nil => cases fuel <;> rfl
  | cons id queue ih =>
    obtain ⟨⟨n,found⟩,rest⟩ := List.forall_mem_cons.mp known
    rw [List.length_cons] at enough
    obtain ⟨fuel,rfl⟩ : ∃ k, fuel = k + 1 := ⟨fuel - 1,by omega⟩
    unfold propagate
    rw [Graph.node_ok.mpr found,ok_bind,stable n (Graph.get?_mem found)]
    -- nothing changed, so nothing is put into the queue
    exact (ih rest (by omega)).trans (by rw [List.length_cons,Nat.add_right_comm,Nat.add_assoc])

-- Where a run ends, visiting any node again neither fails nor finds anything, and so does visiting
-- any nodes in any order.
theorem run_fixpoint (numbered : g.Numbered) (ran : run settings g order = .ok a) :
    (∀ n ∈ g.nodes, visit settings g a.facts n = .ok (a.facts,[])) ∧
      ∀ queue fuel steps, (∀ id ∈ queue, ∃ n, g.get? id = some n) → queue.length ≤ fuel →
        propagate settings g fuel steps a.facts queue = .ok (a.facts,steps + queue.length) :=
  have stable := run_stable numbered ran
  ⟨stable,fun _ _ _ => propagate_stable stable⟩

theorem relayed_numbered : relayed.Numbered := by
  intro i n at_
  have within : i < 4 := (List.getElem?_eq_some_iff.mp at_).1
  match i, within with
  | 0, _ | 1, _ | 2, _ | 3, _ => cases at_; rfl

theorem run_fixpoint_relayed : relayed.Numbered ∧ run .standard relayed [3,0] = .ok relayedAnalysis ∧
    (∀ n ∈ relayed.nodes, visit .standard relayed relayedAnalysis.facts n = .ok (relayedAnalysis.facts,[])) ∧
    propagate .standard relayed 3 0 relayedAnalysis.facts [2,3,2] = .ok (relayedAnalysis.facts,3) := by
  obtain ⟨visits,again⟩ := run_fixpoint relayed_numbered relayed_run
  refine ⟨relayed_numbered,relayed_run,visits,again [2,3,2] 3 0 ?_ (Nat.le_refl _)⟩
  intro id member
  simp only [List.mem_cons,List.not_mem_nil,or_false] at member
  rcases member with rfl | rfl | rfl <;> exact ⟨_,rfl⟩

end TensorGraph.Analysis
