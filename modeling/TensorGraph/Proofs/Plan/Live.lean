import Mathlib.Data.Finset.Lattice.Fold
import Mathlib.Order.Lattice.Nat
import TensorGraph.Proofs.Graph.Table
import TensorGraph.Proofs.Plan.Refinement

namespace TensorGraph.Plan
open Outcome TensorGraph.Graph Analysis

variable {p : Plan} {g : Graph} {bound : Bindings}

-- Outlets of the nodes that have been computed which the caller asked for or a node that is still
-- to be computed takes.
def live (p : Plan) (g : Graph) (made pending : List Int) : Finset Outlet :=
  (made.flatMap fun id => ((g.get? id).map (·.outlets)).getD []).toFinset.filter
    fun o => o ∈ p.outputs ∨ o ∈ taken p g pending

theorem mem_live {made pending : List Int} {o : Outlet} : o ∈ live p g made pending ↔
    (∃ id ∈ made, ∃ n, g.get? id = some n ∧ o ∈ n.outlets) ∧
      (o ∈ p.outputs ∨ o ∈ taken p g pending) := by
  simp only [live,Finset.mem_filter,List.mem_toFinset,List.mem_flatMap]
  refine and_congr_left fun _ => exists_congr fun id => and_congr_right fun _ => ?_
  cases g.get? id <;> simp

-- What is kept when the accounts are in order.
theorem accounts_live (ready : Ready p g refs bound) {made pending : List Int} {s : Progress}
    (accounts : Accounts p g bound made (taken p g pending) s)
    (later : ∀ o ∈ taken p g pending, o ∈ taken p g p.schedule) (meaning : ∀ id ∈ made, ∃ ts, Means p g bound id ts) :
    s.cache.keys.toFinset = live p g made pending := by
  ext o
  rw [List.mem_toFinset,Table.mem_keys,mem_live]
  constructor
  · rintro ⟨t,kept⟩
    obtain ⟨done,value,needed⟩ := (accounts.cache o t).mp kept
    obtain ⟨n,found,low,high⟩ := used_outlet ready.wired ready.laid needed.symm
    exact ⟨⟨o.node,done,n,found,Node.mem_outlets.mpr ⟨(ready.wired.numbered.id_eq found).symm,low,high⟩⟩,needed.symm⟩
  · rintro ⟨⟨id,done,n,found,outlet⟩,needed⟩
    obtain ⟨here,low,high⟩ := Node.mem_outlets.mp outlet
    rw [ready.wired.numbered.id_eq found] at here
    subst here
    obtain ⟨ts,means⟩ := meaning o.node done
    obtain ⟨t,value⟩ := value_of_means ready (needed.imp_right (later o)) means
    exact ⟨t,(accounts.cache o t).mpr ⟨done,value,needed.symm⟩⟩

theorem keep_distinct {s : Progress} {produced : List (Outlet × Tensor)} (distinct : s.cache.keys.Nodup) :
    (p.keep s produced).keys.Nodup := by
  unfold keep
  generalize s.cache = cache at distinct ⊢
  induction produced generalizing cache with
  | nil => exact distinct
  | cons e produced ih =>
    rw [List.foldl_cons]
    apply ih
    dsimp only
    split
    · exact Table.nodup_set distinct
    · exact distinct

theorem release_keeps {s s' : Progress} {o : Outlet} (released : p.release s o = .ok s') :
    s'.stats = s.stats ∧ (s.cache.keys.Nodup → s'.cache.keys.Nodup) := by
  unfold release at released
  obtain ⟨uses,-,released⟩ := bind_ok.mp released
  dsimp only at released
  split at released
  · obtain ⟨_,-,equal⟩ := bind_ok.mp released
    cases equal
    exact ⟨rfl,Table.nodup_erase⟩
  · cases released
    exact ⟨rfl,id⟩

theorem releases_keep {s s' : Progress} {os : List Outlet} (released : os.foldlM p.release s = .ok s') :
    s'.stats = s.stats ∧ (s.cache.keys.Nodup → s'.cache.keys.Nodup) := by
  refine foldlM_keeps (P := fun t => t.stats = s.stats ∧ (s.cache.keys.Nodup → t.cache.keys.Nodup))
    (fun t o t' _ before released => ?_) ⟨rfl,id⟩ released
  obtain ⟨stats,distinct⟩ := release_keeps released
  exact ⟨stats.trans before.1,fun nodup => distinct (before.2 nodup)⟩

-- What a step records: how much is kept before the inputs of its node are released, and what is
-- kept afterwards.
theorem step_records {s s' : Progress} {id : Int} (stepped : p.step g bound s id = .ok s')
    (distinct : s.cache.keys.Nodup) : ∃ n values flag, g.get? id = some n ∧
      p.compute bound s n = .ok (values,flag) ∧
      s'.stats.peak = max s.stats.peak (p.keep s (n.outlets.zip values)).size ∧
      s'.stats.trace = s.stats.trace ++ [s'.cache.keys] ∧ s'.cache.keys.Nodup := by
  unfold step at stepped
  obtain ⟨n,found,stepped⟩ := bind_ok.mp stepped
  obtain ⟨⟨values,flag⟩,computed,stepped⟩ := bind_ok.mp stepped
  dsimp only at stepped
  refine ⟨n,values,flag,Graph.node_ok.mp found,computed,?_⟩
  have kept : (p.keep s (n.outlets.zip values)).keys.Nodup := keep_distinct distinct
  split at stepped
  · cases stepped
    exact ⟨rfl,rfl,kept⟩
  · obtain ⟨after,released,equal⟩ := bind_ok.mp stepped
    cases equal
    obtain ⟨stats,nodup⟩ := releases_keep released
    exact ⟨congrArg RunStats.peak stats,by rw [stats],nodup kept⟩

-- What a run has recorded when some nodes have been computed: at every step what was live with the
-- inputs of its node still held, the largest number of these, and what was live afterwards.
structure Recorded (p : Plan) (g : Graph) (count : Nat) (s : Progress) : Prop where
  distinct : s.cache.keys.Nodup
  traced : ∀ keys ∈ s.stats.trace, keys.Nodup
  trace : s.stats.trace.map List.toFinset = (List.range count).map fun k =>
    p.live g (p.schedule.take (k + 1)) (p.schedule.drop (k + 1))
  peak : s.stats.peak = (Finset.range count).sup fun k =>
    (p.live g (p.schedule.take (k + 1)) (p.schedule.drop k)).card

theorem start_recorded : Recorded p g 0 p.start :=
  ⟨List.nodup_nil,nofun,rfl,rfl⟩

-- With the inputs of its node still held, a step keeps what is live while the node is pending.
theorem keep_live (ready : Ready p g refs bound) {before after : List Int} {n : Node} {s : Progress}
    {values : List Tensor} {flag : Bool} (split : p.schedule = before ++ (n.id : Int) :: after)
    (ran : before.foldlM (p.step g bound) p.start = .ok s) (found : g.get? n.id = some n)
    (computed : p.compute bound s n = .ok (values,flag)) :
    (p.keep s (n.outlets.zip values)).keys.toFinset =
      p.live g (before ++ [(n.id : Int)]) (n.id :: after) := by
  obtain ⟨accounts,meaning,-⟩ := prefix_accounts ready split ran
  have fresh : (n.id : Int) ∉ before := by
    have nodup := ready.laid.schedule.nodup
    rw [split] at nodup
    exact fun known => (List.nodup_append.mp nodup).2.2 _ known _ List.mem_cons_self rfl
  have later : ∀ o ∈ taken p g ((n.id : Int) :: after), o ∈ taken p g p.schedule := fun o source => by
    rw [split,taken_append]
    exact List.mem_append_right _ source
  rcases compute_cases ready found accounts (sources_ready ready split meaning found) with
    ⟨ts,means,same⟩ | ⟨f,-,failed⟩
  · rw [computed] at same
    cases same
    have kept := keep_accounts ready accounts fresh found means (fun o => taken_outlet ready.wired) s.stats
    refine accounts_live ready kept later ?_
    exact List.forall_mem_append.mpr ⟨meaning,List.forall_mem_singleton.mpr ⟨_,means⟩⟩
  · rw [computed] at failed
    cases failed

-- A step adds one entry to the record.
theorem step_recorded (ready : Ready p g refs bound) {before after : List Int} {id : Int} {s s' : Progress}
    (split : p.schedule = before ++ id :: after) (ran : before.foldlM (p.step g bound) p.start = .ok s)
    (stepped : p.step g bound s id = .ok s') (recorded : Recorded p g before.length s) :
    Recorded p g (before.length + 1) s' := by
  obtain ⟨n,values,flag,found,computed,peak,trace,distinct⟩ := step_records stepped recorded.distinct
  have number := ready.wired.numbered.id_eq found
  subst number
  have split' : p.schedule = (before ++ [(n.id : Int)]) ++ after := by rw [split,List.append_cons]
  have ran' : (before ++ [(n.id : Int)]).foldlM (p.step g bound) p.start = .ok s' := by
    rw [List.foldlM_append,ran,ok_bind,List.foldlM_cons,stepped]
    rfl
  obtain ⟨accounts,meaning,-⟩ := prefix_accounts ready split' ran'
  have later : ∀ o ∈ taken p g after, o ∈ taken p g p.schedule := fun o source => by
    rw [split',taken_append]
    exact List.mem_append_right _ source
  have made : p.schedule.take (before.length + 1) = before ++ [(n.id : Int)] := by
    rw [split',List.take_left' (by simp)]
  have pending : p.schedule.drop (before.length + 1) = after := by
    rw [split',List.drop_left' (by simp)]
  have during : p.schedule.drop before.length = (n.id : Int) :: after := by
    rw [split,List.drop_left]
  refine ⟨distinct,?_,?_,?_⟩
  · rw [trace]
    intro keys member
    rcases List.mem_append.mp member with old | new
    · exact recorded.traced keys old
    · rw [List.mem_singleton.mp new]
      exact distinct
  · rw [trace,List.map_append,recorded.trace,List.range_succ,List.map_append]
    rw [List.map_singleton,List.map_singleton,made,pending,accounts_live ready accounts later meaning]
  · rw [peak,recorded.peak,Finset.range_add_one,Finset.sup_insert,made,during,
      ←keep_live ready split ran found computed,
      List.toFinset_card_of_nodup (keep_distinct recorded.distinct),max_comm]
    simp [Table.keys,Table.size]

-- However far a run has come, its record is exact.
theorem prefix_recorded (ready : Ready p g refs bound) (before : List Int) {after : List Int} {s : Progress}
    (split : p.schedule = before ++ after) (ran : before.foldlM (p.step g bound) p.start = .ok s) :
    Recorded p g before.length s := by
  induction before using List.reverseRecOn generalizing after s with
  | nil =>
    cases ran
    exact start_recorded
  | append_singleton before id ih =>
    rw [List.foldlM_append] at ran
    obtain ⟨middle,reached,last⟩ := bind_ok.mp ran
    obtain ⟨s',stepped,equal⟩ := bind_ok.mp last
    cases equal
    rw [List.append_assoc,List.singleton_append] at split
    rw [List.length_append]
    exact step_recorded ready split reached stepped (ih split reached)

-- What is kept after a step is what is still needed of all that has been produced, and nothing else;
-- the peak counts what the node of some step found and made.
theorem execute_live (built : g.Built)
    (single : ∀ id ∈ g.inputs, ∀ n, g.get? id = some n → n.operator.outputCount = 1)
    (made : make config g refs known = .ok p) (ran : p.execute g feeds = .ok r) :
    r.stats.trace.map List.toFinset = ((List.range p.schedule.length).map fun k =>
        p.live g (p.schedule.take (k + 1)) (p.schedule.drop (k + 1))) ∧
      (∀ keys ∈ r.stats.trace, keys.Nodup) ∧
      r.stats.peak = (Finset.range p.schedule.length).sup fun k =>
        (p.live g (p.schedule.take (k + 1)) (p.schedule.drop k)).card := by
  unfold execute at ran
  obtain ⟨bound,accepted,ran⟩ := bind_ok.mp ran
  obtain ⟨s,reached,ran⟩ := bind_ok.mp ran
  obtain ⟨ts,-,equal⟩ := bind_ok.mp ran
  cases equal
  have ready := ready_of_bind (built_wired built) single made accepted
  have recorded := prefix_recorded ready p.schedule (List.append_nil _).symm reached
  exact ⟨recorded.trace,recorded.traced,recorded.peak⟩

def relayedResult : RunResult where
  outputs := [pair]
  stats := ⟨[3],3,[[⟨0,0⟩],[⟨0,0⟩,⟨2,0⟩],[⟨3,0⟩]]⟩

theorem execute_live_relayed : relayed.Built ∧
    make ⟨true,true⟩ relayed none (some relayedAnalysis) = .ok relayedPlan ∧
    relayedPlan.execute relayed [(.name "x",.tensor pair)] = .ok relayedResult ∧
    relayedResult.stats.trace.map List.toFinset = ((List.range 3).map fun k =>
      relayedPlan.live relayed ([0,2,3].take (k + 1)) ([0,2,3].drop (k + 1))) ∧
    relayedResult.stats.peak = (Finset.range 3).sup fun k =>
      (relayedPlan.live relayed ([0,2,3].take (k + 1)) ([0,2,3].drop k)).card := by
  have ran : relayedPlan.execute relayed [(.name "x",.tensor pair)] = .ok relayedResult := rfl
  obtain ⟨trace,-,peak⟩ := execute_live relayed_built relayed_single relayed_make ran
  exact ⟨relayed_built,relayed_make,ran,trace,peak⟩

end TensorGraph.Plan
