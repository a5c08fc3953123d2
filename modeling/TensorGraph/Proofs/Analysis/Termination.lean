import Mathlib.Data.Prod.Lex
import Mathlib.Order.WellFounded
import Mathlib.Data.List.Perm.Subperm
import Mathlib.Algebra.BigOperators.Group.List.Basic
import TensorGraph.Proofs.Analysis.Orders
import TensorGraph.Proofs.Graph.Table

namespace TensorGraph.Analysis
open Outcome

section Visits
variable {g : Graph} {settings : AnalysisSettings} {table table' before : FactTable} {n : Node}
  {changed : List Outlet} {queue : List Int} {as bs cs ins outs newIns newOuts : Facts}

-- Every answer says at least what was known at its place; there may be fewer answers than places.
def Above (news olds : Facts) : Prop :=
  ∀ (i : Nat) (c : Fact), news[i]? = some c → ∃ a : Fact, olds[i]? = some a ∧ a.Below c

theorem Above.trans (second : Above cs bs) (first : Above bs as) : Above cs as := by
  intro i c at_
  obtain ⟨b,at_,high⟩ := second i c at_
  obtain ⟨a,at_,low⟩ := first i b at_
  exact ⟨a,at_,low.trans high⟩

theorem unifyEach_above (unified : unifyEach as bs = .ok cs) : Above cs as := by
  intro i c at_
  obtain ⟨⟨a,b⟩,pair,both⟩ := forall₂_getElem? (mapM_ok.mp unified) at_
  exact ⟨a,(List.getElem?_zip_eq_some.mp pair).1,Fact.unify_left both⟩

theorem applyRule_above (applied : applyRule settings g n ins outs = .ok (newIns,newOuts)) :
    Above newIns ins ∧ Above newOuts outs := by
  obtain ⟨_,_,mids,-,-,-,unifiedIns,unifiedOuts,folded⟩ := applyRule_parts applied
  refine ⟨unifyEach_above unifiedIns,?_⟩
  split at folded
  · obtain ⟨_,-,unified⟩ := folded
    exact (unifyEach_above unified).trans (unifyEach_above unifiedOuts)
  · rw [folded]
    exact unifyEach_above unifiedOuts

theorem zip_above {os : List Outlet} {fs news : Facts} (read : os.mapM table.get = .ok fs)
    (above : Above news fs) : ∀ p ∈ os.zip news, ∃ f, table.get? p.1 = some f ∧ f.Below p.2 := by
  intro p member
  obtain ⟨i,at_⟩ := List.mem_iff_getElem?.mp member
  obtain ⟨outlet,answer⟩ := List.getElem?_zip_eq_some.mp at_
  obtain ⟨f,known,low⟩ := above i p.2 answer
  obtain ⟨o,same,found⟩ := forall₂_getElem? (mapM_ok.mp read) known
  cases outlet.symm.trans same
  exact ⟨f,Table.get_ok.mp found,low⟩

-- What a visit has gained so far: more is known of every outlet it recorded, and nothing else of any
-- other. An outlet may be recorded more than once; what counts is the gain since the visit began.
def Gained (before : FactTable) (state : FactTable × List Outlet) : Prop :=
  ∀ o, (o ∈ state.2 → ∃ f f', before.get? o = some f ∧ state.1.get? o = some f' ∧ f.height < f'.height) ∧
    (o ∉ state.2 → state.1.get? o = before.get? o)

theorem merge_gained {state state' : FactTable × List Outlet} {news : Outlet × Fact}
    (above : ∃ f, before.get? news.1 = some f ∧ f.Below news.2) (gained : Gained before state)
    (merged : merge state news = .ok state') : Gained before state' := by
  obtain ⟨table,changed⟩ := state
  obtain ⟨table',changed'⟩ := state'
  rcases merge_cases merged with ⟨-,rfl,rfl⟩ | ⟨old,new,found,unified,other,rfl,rfl⟩
  · exact gained
  · have here : ∃ f, before.get? news.1 = some f ∧ f.height < new.height := by
      by_cases again : news.1 ∈ changed
      · obtain ⟨f,f',known,later,gain⟩ := (gained news.1).1 again
        cases later.symm.trans found
        exact ⟨f,known,Nat.lt_of_lt_of_le gain (Fact.unify_left unified).height_le⟩
      · obtain ⟨f,known,low⟩ := above
        cases found.symm.trans (((gained news.1).2 again).trans known)
        exact ⟨old,known,Fact.height_lt_of_unify low unified other⟩
    intro o
    rw [List.mem_append,List.mem_singleton,Table.get?_set]
    by_cases equal : o = news.1
    · subst equal
      obtain ⟨f,known,gain⟩ := here
      exact ⟨fun _ => ⟨f,new,known,if_pos rfl,gain⟩,fun untouched => absurd (.inr rfl) untouched⟩
    · rw [if_neg equal]
      refine ⟨fun recorded => (gained o).1 (recorded.resolve_right equal),fun untouched => (gained o).2 ?_⟩
      exact fun recorded => untouched (.inl recorded)

theorem visit_gained (visited : visit settings g table n = .ok (table',changed)) :
    Gained table (table',changed) := by
  obtain ⟨ins,outs,newIns,newOuts,readIns,readOuts,applied,merged⟩ := visit_parts visited
  obtain ⟨aboveIns,aboveOuts⟩ := applyRule_above applied
  refine foldlM_keeps (P := Gained table) (fun state news state' member gained merged => ?_)
    (fun o => ⟨fun recorded => absurd recorded List.not_mem_nil,fun _ => rfl⟩) merged
  refine merge_gained ?_ gained merged
  rcases List.mem_append.mp member with input | output
  · exact zip_above readIns aboveIns news input
  · exact zip_above readOuts aboveOuts news output

theorem visit_keys (visited : visit settings g table n = .ok (table',changed)) : table'.keys = table.keys := by
  obtain ⟨_,_,_,_,-,-,-,merged⟩ := visit_parts visited
  refine foldlM_keeps (P := fun state => state.1.keys = table.keys) ?_ rfl merged
  intro state news state' _ kept step
  obtain ⟨middle,_⟩ := state
  obtain ⟨next,_⟩ := state'
  rcases merge_cases step with ⟨-,rfl,-⟩ | ⟨old,_,found,-,-,rfl,-⟩
  · exact kept
  · exact (Table.keys_set_found (by rw [found]; rfl)).trans kept

end Visits

-- One turn of the loop: the node that waits first is visited, and the nodes around what it changed
-- are put into the queue. Nothing counts the turns.
def Turn (settings : AnalysisSettings) (g : Graph) (s s' : FactTable × List Int) : Prop :=
  ∃ id queue n changed, s.2 = id :: queue ∧ g.node id = .ok n ∧
    visit settings g s.1 n = .ok (s'.1,changed) ∧ s'.2 = enqueueAround g queue changed

-- Where the loop ends when nothing counts its turns: no node waits, or a visit fails. The number is
-- that of the visits, with the one that fails.
inductive Ends (settings : AnalysisSettings) (g : Graph) :
    FactTable × List Int → Nat → FactTable → Outcome Unit → Prop where
  | rest : Ends settings g (table,[]) 0 table (.ok ())
  | fails {id : Int} {queue : List Int} : (g.node id >>= visit settings g table) = .error e →
      Ends settings g (table,id :: queue) 1 table (.error e)
  | turn : Turn settings g s s' → Ends settings g s' k table r → Ends settings g s (k + 1) table r

section Descent
variable {g : Graph} {settings : AnalysisSettings} {table table' : FactTable} {s s' : FactTable × List Int}

def openAt (table : FactTable) (o : Outlet) : Nat := ((table.get? o).map Fact.open?).getD 0
def roomAt (table : FactTable) (o : Outlet) : Nat := ((table.get? o).map Fact.room).getD 0

-- What is left to learn and to visit: ranks first, since learning one makes room for its extents.
def left (s : FactTable × List Int) : ℕ ×ₗ ℕ ×ₗ ℕ :=
  toLex ((s.1.keys.map (openAt s.1)).sum,toLex ((s.1.keys.map (roomAt s.1)).sum,s.2.length))

-- A gain leaves less to learn.
theorem learned_left {o : Outlet} {f f' : Fact} (keys : table'.keys = table.keys) (grown : Grown table table')
    (found : table.get? o = some f) (found' : table'.get? o = some f') (gain : f.height < f'.height)
    (queue queue' : List Int) : left (table',queue') < left (table,queue) := by
  have at_ {p : Outlet} {h : Fact} (known : table.get? p = some h) :
      openAt table p = h.open? ∧ roomAt table p = h.room := by simp [openAt,roomAt,known]
  have at' {p : Outlet} {h : Fact} (known : table'.get? p = some h) :
      openAt table' p = h.open? ∧ roomAt table' p = h.room := by simp [openAt,roomAt,known]
  have opens : ∀ p ∈ table.keys, openAt table' p ≤ openAt table p := by
    intro p key
    obtain ⟨h,known⟩ := Table.mem_keys.mp key
    obtain ⟨h',later,below⟩ := grown p h known
    rw [(at_ known).1,(at' later).1]
    exact below.open_le
  unfold left
  dsimp only
  rw [keys]
  rcases Nat.lt_or_eq_of_le (sum_le opens) with less | equal
  · exact Prod.Lex.toLex_lt_toLex.mpr (.inl less)
  · -- no rank was learned, so every fact has the room it had, less what it gained
    have still : ∀ p ∈ table.keys, openAt table' p = openAt table p := by
      intro p key
      by_contra other
      have less := sum_descends opens key (k := 1) (Nat.lt_of_le_of_ne (opens p key) other)
      omega
    refine Prod.Lex.toLex_lt_toLex.mpr (.inr ⟨equal,Prod.Lex.toLex_lt_toLex.mpr (.inl ?_)⟩)
    refine sum_descends (k := 1) (fun p key => ?_) (Table.mem_keys.mpr ⟨f,found⟩) ?_
    · obtain ⟨h,known⟩ := Table.mem_keys.mp key
      obtain ⟨h',later,below⟩ := grown p h known
      have same := still p key
      rw [(at_ known).1,(at' later).1] at same
      rw [(at_ known).2,(at' later).2]
      exact below.room_le same
    · obtain ⟨h',later,below⟩ := grown o f found
      cases later.symm.trans found'
      have same := still o (Table.mem_keys.mpr ⟨f,found⟩)
      rw [(at_ found).1,(at' found').1] at same
      rw [(at_ found).2,(at' found').2]
      exact below.room_lt same gain

theorem turn_left (turn : Turn settings g s s') : left s' < left s := by
  obtain ⟨table,waiting⟩ := s
  obtain ⟨table',waiting'⟩ := s'
  obtain ⟨id,queue,n,changed,rfl,-,visited,rfl⟩ := turn
  have gained := visit_gained visited
  have keys := visit_keys visited
  cases changed with
  | cons o changed =>
    obtain ⟨f,f',found,found',gain⟩ := (gained o).1 List.mem_cons_self
    exact learned_left keys (visit_grown visited) found found' gain _ _
  | nil =>
    -- nothing was learned, and one node less waits
    have same (o : Outlet) : table'.get? o = table.get? o := (gained o).2 List.not_mem_nil
    have opens : openAt table' = openAt table := funext fun o => by simp [openAt,same o]
    have rooms : roomAt table' = roomAt table := funext fun o => by simp [roomAt,same o]
    unfold left
    dsimp only at keys ⊢
    rw [keys,opens,rooms]
    refine Prod.Lex.toLex_lt_toLex.mpr (.inr ⟨rfl,Prod.Lex.toLex_lt_toLex.mpr (.inr ⟨rfl,?_⟩)⟩)
    simp [enqueueAround]

-- The loop ends wherever it starts.
theorem ends_total (settings : AnalysisSettings) (g : Graph) (s : FactTable × List Int) :
    ∃ k table r, Ends settings g s k table r := by
  induction s using (InvImage.wf left wellFounded_lt).induction with
  | _ s ih =>
    obtain ⟨table,_ | ⟨id,queue⟩⟩ := s
    · exact ⟨0,table,.ok (),.rest⟩
    · cases visited : g.node id >>= visit settings g table with
      | error e => exact ⟨1,table,.error e,.fails visited⟩
      | ok next =>
        obtain ⟨n,found,visited⟩ := bind_ok.mp visited
        have turn : Turn settings g (table,id :: queue) (next.1,enqueueAround g queue next.2) :=
          ⟨id,queue,n,next.2,rfl,found,visited,rfl⟩
        obtain ⟨k,last,r,ends⟩ := ih _ (turn_left turn)
        exact ⟨k + 1,last,r,.turn turn ends⟩

end Descent

section Visits
variable {g : Graph} {settings settings' : AnalysisSettings} {table table' start : FactTable} {n : Node}
  {changed : List Outlet} {queue order : List Int} {s : FactTable × List Int} {k : Nat} {r : Outcome Unit}

-- Visits that what is known has paid for.
def paid (g : Graph) (table : FactTable) : Nat :=
  ((g.nodes.flatMap (·.outlets)).map fun o => heightAt table o * cost g o).sum

-- Visits that a run may take to the facts of a table: one of each node, and for each piece of what is
-- known of an outlet one of its producer and one of each inlet that takes it.
def visitBound (g : Graph) (table : FactTable) : Nat :=
  g.size + ((g.nodes.flatMap (·.outlets)).map fun o =>
    (3 + ((table.get? o).bind Fact.rank).getD 0) * (1 + (g.consumers o).length)).sum

theorem heightAt_le (table : FactTable) (o : Outlet) :
    heightAt table o ≤ 3 + ((table.get? o).bind Fact.rank).getD 0 := by
  unfold heightAt
  cases table.get? o with
  | none => exact Nat.zero_le _
  | some f => exact f.height_le

theorem paid_le (g : Graph) (table : FactTable) : g.size + paid g table ≤ visitBound g table :=
  Nat.add_le_add_left (sum_le fun o _ => Nat.mul_le_mul_right _ (heightAt_le table o)) _

theorem nodup_enqueueAround (nodup : queue.Nodup) : (enqueueAround g queue changed).Nodup :=
  List.foldlRecOn (motive := List.Nodup) _ _ nodup fun _ kept _ _ =>
    nodup_enqueues (nodup_enqueue kept)

-- Nodes that an outlet puts into the queue when it changes.
def wave (g : Graph) (changed : List Outlet) (o : Outlet) : List Int :=
  if o ∈ changed then o.node :: (g.consumers o).map (·.node) else []

-- A visit queues no more nodes than its gains pay for, since no node waits twice.
theorem visit_paid (wired : g.Wired) (member : n ∈ g.nodes) (nodup : queue.Nodup)
    (visited : visit settings g table n = .ok (table',changed)) :
    (enqueueAround g queue changed).length + paid g table ≤ queue.length + paid g table' := by
  have gained := visit_gained visited
  have inside : enqueueAround g queue changed ⊆ queue ++ (g.nodes.flatMap (·.outlets)).flatMap (wave g changed) := by
    intro id waits
    rcases mem_enqueueAround.mp waits with early | ⟨o,change,near⟩
    · exact List.mem_append_left _ early
    · obtain ⟨m,there,outlet⟩ := changed_outlets wired member visited o change
      refine List.mem_append_right _ (List.mem_flatMap.mpr ⟨o,List.mem_flatMap.mpr ⟨m,there,outlet⟩,?_⟩)
      rw [wave,if_pos change,List.mem_cons]
      exact near
  have once : (enqueueAround g queue changed).Nodup := nodup_enqueueAround nodup
  have few := (once.subperm inside).length_le
  rw [List.length_append,List.length_flatMap] at few
  have gains : ((g.nodes.flatMap (·.outlets)).map fun o => (wave g changed o).length +
      heightAt table o * cost g o).sum ≤ paid g table' := by
    refine sum_le fun o _ => ?_
    unfold wave
    by_cases change : o ∈ changed
    · obtain ⟨f,f',found,found',gain⟩ := (gained o).1 change
      have heights : heightAt table o + 1 ≤ heightAt table' o := by simpa [heightAt,found,found'] using Nat.succ_le_of_lt gain
      have step := Nat.mul_le_mul_right (cost g o) heights
      rw [Nat.succ_mul] at step
      rw [if_pos change,List.length_cons,List.length_map]
      unfold cost at step ⊢
      omega
    · have same : heightAt table' o = heightAt table o := by
        unfold heightAt
        rw [(gained o).2 change]
      rw [if_neg change,same,List.length_nil,Nat.zero_add]
  rw [List.sum_map_add] at gains
  unfold paid at gains ⊢
  omega

-- The visits of a loop and the nodes that wait at its start: what is learned pays for the rest.
theorem Ends.paid (wired : g.Wired) (ends : Ends settings g s k table r) (nodup : s.2.Nodup)
    (known : ∀ id ∈ s.2, g.Known id) : k + paid g s.1 ≤ s.2.length + Analysis.paid g table := by
  induction ends with
  | rest => simp
  | fails => simp only [List.length_cons]; omega
  | @turn s s' k table r turn _ ih =>
    obtain ⟨id,queue,n,changed,waiting,found,visited,next⟩ := turn
    rw [waiting] at nodup known ⊢
    have member := Graph.get?_mem (Graph.node_ok.mp found)
    have rest := (List.forall_mem_cons.mp known).2
    have later := (List.nodup_cons.mp nodup).2
    have step := visit_paid wired member later visited
    rw [next] at ih
    have after := ih (nodup_enqueueAround later) (visited_known wired member visited rest)
    rw [List.length_cons]
    omega

-- A bound that allows the visits of the loop changes nothing about where it ends.
theorem Ends.propagate (same : settings.foldConstants = settings'.foldConstants)
    (ends : Ends settings g s k table r) {fuel : Nat} (enough : k ≤ fuel) (steps : Nat) :
    propagate settings' g fuel steps s.1 s.2 = r.map fun _ => (table,steps + k) := by
  induction ends generalizing fuel steps with
  | rest => cases fuel <;> rfl
  | @fails table e id queue failed =>
    obtain ⟨fuel,rfl⟩ : ∃ more, fuel = more + 1 := ⟨fuel - 1,by omega⟩
    unfold Analysis.propagate
    cases found : g.node id with
    | error e' =>
      rw [found] at failed
      cases failed
      rfl
    | ok n =>
      rw [found,ok_bind,visit_settings same] at failed
      rw [ok_bind,failed]
      rfl
  | @turn s s' k table r turn _ ih =>
    obtain ⟨id,queue,n,changed,waiting,found,visited,next⟩ := turn
    obtain ⟨fuel,rfl⟩ : ∃ more, fuel = more + 1 := ⟨fuel - 1,by omega⟩
    rw [visit_settings same] at visited
    rw [waiting]
    unfold Analysis.propagate
    rw [found,ok_bind,visited]
    dsimp only [ok_bind]
    rw [← next,ih (by omega) (steps + 1),Nat.add_right_comm,Nat.add_assoc]

theorem loop_bounded (wired : g.Wired) (known : ∀ id ∈ order, g.Known id)
    (ends : Ends settings g (start,firstQueue g order) k table r) : k ≤ visitBound g table := by
  have waiting := firstQueue_perm known
  have size : (firstQueue g order).length = g.size := by
    rw [waiting.length_eq,Graph.ids,List.length_map,List.length_range]
  have pays := ends.paid wired (nodup_enqueues List.nodup_nil)
    fun id member => Graph.mem_ids.mp (waiting.mem_iff.mp member)
  have bound := paid_le g table
  dsimp only at pays
  omega

theorem run_ends {a : Analysis} (ran : run settings g order = .ok a) : ∃ start, seed g = .ok start ∧
    Ends settings g (start,firstQueue g order) a.iterations a.facts (.ok ()) := by
  obtain ⟨-,-,start,seeded,propagated⟩ := run_parts ran
  obtain ⟨k,table,r,ends⟩ := ends_total settings g (start,firstQueue g order)
  have more : propagate settings g (max settings.maxSteps k) 0 start (firstQueue g order) =
      .ok (a.facts,a.iterations) := propagate_more rfl (Nat.le_max_left ..) propagated
  rw [ends.propagate rfl (Nat.le_max_right ..)] at more
  obtain ⟨⟨⟩,rfl,equal⟩ := map_ok.mp more
  rw [Nat.zero_add,Prod.mk.injEq] at equal
  obtain ⟨rfl,rfl⟩ := equal
  exact ⟨start,seeded,ends⟩

-- The loop of a run ends whatever the rules answer and wherever it starts; a run that returns has
-- taken no more visits than its facts account for; and a run that may take as many ends as the loop
-- does that nothing bounds, so it is never stopped.
theorem run_terminates (numbered : g.Numbered) (settings : AnalysisSettings) :
    (¬ ∃ s : Nat → FactTable × List Int, ∀ k, Turn settings g (s k) (s (k + 1))) ∧
    (∀ order a, run settings g order = .ok a → a.iterations ≤ visitBound g a.facts) ∧
    ∀ order start, g.validate = .ok () → seed g = .ok start → (∀ id ∈ order, g.Known id) →
      ∃ k table r, Ends settings g (start,firstQueue g order) k table r ∧ k ≤ visitBound g table ∧
        ∀ settings' : AnalysisSettings, settings'.foldConstants = settings.foldConstants →
          visitBound g table ≤ settings'.maxSteps →
            run settings' g order = r.map fun _ => ⟨g.serial,table,k⟩ := by
  refine ⟨?_,?_,?_⟩
  · rintro ⟨s,turns⟩
    obtain ⟨k,stuck⟩ := WellFounded.not_rel_apply_succ (r := (· < ·)) (left ∘ s)
    exact stuck (turn_left (turns k))
  · intro order a ran
    obtain ⟨start,-,ends⟩ := run_ends ran
    exact loop_bounded (Graph.validate_accepted numbered (run_parts ran).1).1 (known_of_run ran) ends
  · intro order start valid seeded known
    obtain ⟨k,table,r,ends⟩ := ends_total settings g (start,firstQueue g order)
    have bounded := loop_bounded (Graph.validate_accepted numbered valid).1 known ends
    refine ⟨k,table,r,ends,bounded,fun settings' same enough => ?_⟩
    rw [run_eq valid seeded known,ends.propagate same.symm (Nat.le_trans bounded enough),Outcome.map_bind,Nat.zero_add]
    cases r <;> rfl

theorem run_terminates_packed : packed.Numbered ∧ run .standard packed [] = .ok ⟨0,packedFacts,8⟩ ∧
    8 ≤ visitBound packed packedFacts ∧ ∀ settings' : AnalysisSettings, settings'.foldConstants = true →
      visitBound packed packedFacts ≤ settings'.maxSteps →
        run settings' packed [] = .ok ⟨0,packedFacts,8⟩ := by
  obtain ⟨-,bounded,reaches⟩ := run_terminates packed_numbered .standard
  refine ⟨packed_numbered,packed_run_numbers,bounded [] _ packed_run_numbers,?_⟩
  obtain ⟨k,table,r,-,-,ends⟩ := reaches [] packedStart (run_parts packed_run_numbers).1 packed_seed nofun
  let patient : AnalysisSettings :=
    ⟨max (visitBound packed table) AnalysisSettings.standard.maxSteps,true,
      Nat.lt_of_lt_of_le AnalysisSettings.standard.maxSteps_pos (Nat.le_max_right ..)⟩
  have folds : AnalysisSettings.standard.foldConstants = patient.foldConstants := rfl
  have more : AnalysisSettings.standard.maxSteps ≤ patient.maxSteps := Nat.le_max_right ..
  have later := run_more folds more packed_run_numbers
  rw [ends patient folds.symm (Nat.le_max_left ..),map_ok] at later
  obtain ⟨⟨⟩,rfl,equal⟩ := later
  cases equal
  exact ends

end Visits

end TensorGraph.Analysis
