import Mathlib.Logic.Relation
import TensorGraph.Proofs.Analysis.Termination

namespace TensorGraph.Analysis
open Outcome Relation

-- A moment of a run: the table, the nodes that wait and, while a node is visited, the answers that
-- are still to be entered with the outlets that have changed so far.
structure Moment where
  table : FactTable
  queue : List Int
  visiting : Option (List (Outlet × Fact) × List Outlet)

-- What happens next in a run. Every single entry is a moment of its own, since an outlet may be
-- written more than once in a visit.
inductive Next (settings : AnalysisSettings) (g : Graph) : Moment → Moment → Prop where
  | answer {id : Int} {queue : List Int} : g.node id = .ok n → n.inputs.mapM table.get = .ok ins →
      n.outlets.mapM table.get = .ok outs → applyRule settings g n ins outs = .ok (newIns,newOuts) →
      Next settings g ⟨table,id :: queue,none⟩
        ⟨table,queue,some (n.inputs.zip newIns ++ n.outlets.zip newOuts,[])⟩
  | enter {p : Outlet × Fact} : merge (table,changed) p = .ok (table',changed') →
      Next settings g ⟨table,queue,some (p :: news,changed)⟩ ⟨table',queue,some (news,changed')⟩
  | settle : Next settings g ⟨table,queue,some ([],changed)⟩ ⟨table,enqueueAround g queue changed,none⟩

def firstMoment (g : Graph) (order : List Int) (start : FactTable) : Moment := ⟨start,firstQueue g order,none⟩

-- The moment at which a run returns.
def lastMoment (a : Analysis) : Moment := ⟨a.facts,[],none⟩

section Moments
variable {g : Graph} {settings : AnalysisSettings} {table table' start : FactTable} {order : List Int}
  {changed changed' : List Outlet} {news : List (Outlet × Fact)} {queue : List Int} {m m' : Moment}

theorem Next.unique (there : Next settings g m m') (other : Next settings g m m'') : m' = m'' := by
  cases there with
  | answer found readIns readOuts applied =>
    cases other with
    | answer found' readIns' readOuts' applied' =>
      cases found.symm.trans found'
      cases readIns.symm.trans readIns'
      cases readOuts.symm.trans readOuts'
      cases applied.symm.trans applied'
      rfl
  | enter merged =>
    cases other with
    | enter merged' =>
      cases merged.symm.trans merged'
      rfl
  | settle =>
    cases other
    rfl

theorem merge_single {p : Outlet × Fact} (merged : merge (table,changed) p = .ok (table',changed')) :
    [p].foldlM merge (table,changed) = .ok (table',changed') := by
  rw [List.foldlM_cons,merged]
  rfl

-- What is known of an outlet at one moment is known at the next.
theorem Next.grown (next : Next settings g m m') : Grown m.table m'.table := by
  cases next with
  | answer => exact grown_refl _
  | enter merged =>
    obtain ⟨_,-,entered⟩ := merges_entered (merge_single merged)
    exact entered.grown
  | settle => exact grown_refl _

theorem later_grown (later : ReflTransGen (Next settings g) m m') : Grown m.table m'.table := by
  induction later with
  | refl => exact grown_refl _
  | tail _ next ih => exact ih.trans next.grown

theorem enters (ran : news.foldlM merge (table,changed) = .ok (table',changed')) :
    ReflTransGen (Next settings g) ⟨table,queue,some (news,changed)⟩ ⟨table',queue,some ([],changed')⟩ := by
  induction news generalizing table changed with
  | nil => cases ran; exact .refl
  | cons p news ih =>
    rw [List.foldlM_cons] at ran
    obtain ⟨⟨middle,changed''⟩,merged,rest⟩ := bind_ok.mp ran
    exact .head (.enter merged) (ih rest)

-- A turn of the loop, moment by moment.
theorem turn_moments {s s' : FactTable × List Int} (turn : Turn settings g s s') :
    ReflTransGen (Next settings g) ⟨s.1,s.2,none⟩ ⟨s'.1,s'.2,none⟩ := by
  obtain ⟨table,waiting⟩ := s
  obtain ⟨table',next⟩ := s'
  obtain ⟨id,queue,n,changed,rfl,found,visited,rfl⟩ := turn
  obtain ⟨ins,outs,newIns,newOuts,readIns,readOuts,applied,merged⟩ := visit_parts visited
  exact .head (.answer found readIns readOuts applied) (.tail (enters merged) .settle)

theorem ends_moments {s : FactTable × List Int} (ends : Ends settings g s k table (.ok ())) :
    ReflTransGen (Next settings g) ⟨s.1,s.2,none⟩ ⟨table,[],none⟩ := by
  generalize result : (.ok () : Outcome Unit) = r at ends
  induction ends with
  | rest => exact .refl
  | fails => cases result
  | turn turn _ ih => exact (turn_moments turn).trans (ih result)

-- A run that returns has passed through all moments there are, and stops at the last.
theorem reached_last (ran : run settings g order = .ok a) (seeded : seed g = .ok start)
    (reached : ReflTransGen (Next settings g) (firstMoment g order start) m) :
    ReflTransGen (Next settings g) m (lastMoment a) := by
  obtain ⟨start',seeded',ends⟩ := run_ends ran
  cases seeded.symm.trans seeded'
  have whole : ReflTransGen (Next settings g) (firstMoment g order start) (lastMoment a) := ends_moments ends
  have single : Relator.RightUnique (Next settings g) := fun _ _ _ there other => there.unique other
  rcases ReflTransGen.total_of_right_unique single whole reached with beyond | before
  · cases beyond.cases_head with
    | inl equal => rw [equal]
    | inr more =>
      obtain ⟨_,next,-⟩ := more
      cases next
  · exact before

end Moments

section Seeds
variable {g : Graph} {settings : AnalysisSettings} {table table' start : FactTable} {n : Node} {o : Outlet}

theorem foldl_set_frame {entries : List β} {p : β → Outlet} {f : β → Fact}
    (other : ∀ e ∈ entries, p e ≠ o) :
    (entries.foldl (fun t e => t.set (p e) (f e)) table).get? o = table.get? o := by
  refine List.foldlRecOn (motive := fun t : FactTable => t.get? o = table.get? o) _ _ rfl ?_
  intro t kept e member
  rw [Table.get?_set,if_neg fun equal => other e member equal.symm]
  exact kept

-- A seed touches the outlets of its own node only.
theorem seedNode_frame (seeded : seedNode g table n = .ok table') (other : o.node ≠ n.id) :
    table'.get? o = table.get? o := by
  have elsewhere : ∀ p ∈ n.outlets, p ≠ o := by
    rintro p outlet rfl
    exact other (Node.mem_outlets.mp outlet).1
  have opened : (n.outlets.foldl (fun t o => t.set o .unknown) table).get? o = table.get? o :=
    foldl_set_frame (p := id) elsewhere
  unfold seedNode at seeded
  dsimp only at seeded
  split at seeded
  · obtain ⟨f,-,equal⟩ := bind_ok.mp seeded
    cases equal
    rw [Table.get?_set,if_neg fun equal => other (by rw [equal])]
    exact opened
  · split at seeded
    · obtain ⟨values,-,equal⟩ := bind_ok.mp seeded
      cases equal
      rw [foldl_set_frame fun e member => elsewhere e.1 (List.of_mem_zip member).1]
      exact opened
    · cases seeded
      exact opened

-- What a node puts into the table is there when all nodes have been seeded.
theorem seed_entry (numbered : g.Numbered) (seeded : seed g = .ok start) (member : n ∈ g.nodes) :
    ∃ t t', seedNode g t n = .ok t' ∧ ∀ o : Outlet, o.node = n.id → start.get? o = t'.get? o := by
  obtain ⟨before,after,split⟩ := List.append_of_mem member
  have distinct := numbered.distinct
  unfold seed at seeded
  rw [split,List.map_append,List.map_cons] at distinct
  rw [split,List.foldlM_append] at seeded
  obtain ⟨t,-,seeded⟩ := bind_ok.mp seeded
  rw [List.foldlM_cons] at seeded
  obtain ⟨t',here,rest⟩ := bind_ok.mp seeded
  refine ⟨t,t',here,fun o own => ?_⟩
  refine foldlM_keeps (P := fun u => u.get? o = t'.get? o) ?_ rfl rest
  intro u m u' later kept step
  have apart := (List.nodup_cons.mp (List.nodup_append.mp distinct).2.1).1
  have other : o.node ≠ m.id := by
    intro equal
    rw [own] at equal
    exact apart (List.mem_map.mpr ⟨m,later,by omega⟩)
  exact (seedNode_frame step other).trans kept

theorem seed_declared (numbered : g.Numbered) (seeded : seed g = .ok start) (member : n ∈ g.nodes)
    (designated : g.isInput n.id = true) :
    ∃ declared, g.inputFact n.id = .ok declared ∧ start.get? ⟨n.id,0⟩ = some declared := by
  obtain ⟨t,t',step,same⟩ := seed_entry numbered seeded member
  unfold seedNode at step
  dsimp only at step
  rw [if_pos designated] at step
  obtain ⟨declared,input,equal⟩ := bind_ok.mp step
  cases equal
  refine ⟨declared,input,?_⟩
  rw [same _ rfl,Table.get?_set]
  exact if_pos rfl

theorem foldl_set_zip {os : List Outlet} {values : List Tensor} {v : Tensor} (distinct : os.Nodup)
    (pair : (o,v) ∈ os.zip values) :
    ((os.zip values).foldl (fun t (e : Outlet × Tensor) => t.set e.1 (.constant e.2)) table).get? o =
      some (.constant v) := by
  induction os generalizing values table with
  | nil => cases pair
  | cons q os ih =>
    cases values with
    | nil => cases pair
    | cons u values =>
      obtain ⟨fresh,distinct⟩ := List.nodup_cons.mp distinct
      rw [List.zip_cons_cons,List.foldl_cons]
      rcases List.mem_cons.mp pair with here | later
      · cases here
        rw [foldl_set_frame fun e member => ?_,Table.get?_set,if_pos rfl]
        rintro rfl
        exact fresh (List.of_mem_zip member).1
      · exact ih distinct later

theorem seed_constant (numbered : g.Numbered) (seeded : seed g = .ok start) (member : n ∈ g.nodes)
    (computed : g.isInput n.id = false) (const : n.operator.isConst = true) {values : List Tensor}
    (evaluated : n.operator.eval [] = .ok values) {v : Tensor} (pair : (o,v) ∈ n.outlets.zip values) :
    start.get? o = some (.constant v) := by
  obtain ⟨t,t',step,same⟩ := seed_entry numbered seeded member
  unfold seedNode at step
  dsimp only at step
  rw [if_neg (by simp [computed]),if_pos const,evaluated] at step
  cases step
  rw [same o (Node.mem_outlets.mp (List.of_mem_zip pair).1).1]
  exact foldl_set_zip n.outlets_nodup pair

end Seeds

section Runs
variable {g : Graph} {settings : AnalysisSettings} {start : FactTable} {order : List Int}

-- What an analysis owes to the seeds of its run and to every moment of it.
structure Owes (settings : AnalysisSettings) (g : Graph) (order : List Int) (start : FactTable)
    (a : Analysis) : Prop where
  ends : ∀ m, ReflTransGen (Next settings g) (firstMoment g order start) m →
    ReflTransGen (Next settings g) m (lastMoment a)
  declared : ∀ n ∈ g.nodes, g.isInput n.id = true → ∃ declared f, g.inputFact n.id = .ok declared ∧
    a.fact g ⟨n.id,0⟩ = .ok f ∧ declared.Below f
  constants : ∀ n ∈ g.nodes, g.isInput n.id = false → n.operator.isConst = true →
    ∀ values, n.operator.eval [] = .ok values → ∀ o v, (o,v) ∈ n.outlets.zip values →
      a.fact g o = .ok (.constant v)
  streams : ∀ m, ReflTransGen (Next settings g) (firstMoment g order start) m → ∀ o f s (i : Nat),
    m.table.get? o = some f → f.shape = some s → s[i]? = some .streaming →
      ∃ f' s', a.fact g o = .ok f' ∧ f'.shape = some s' ∧ s'[i]? = some .streaming

theorem stays_streaming {f f' : Fact} {s : ShapeFact} {i : Nat} (below : f.Below f')
    (known : f.shape = some s) (streams : s[i]? = some .streaming) :
    ∃ s', f'.shape = some s' ∧ s'[i]? = some .streaming := by
  obtain ⟨s',known',low⟩ := below.shape s known
  obtain ⟨d,at_,dim⟩ := forall₂_getElem? low.flip streams
  rw [← Dim.Below.eq dim rfl] at at_
  exact ⟨s',known',at_⟩

-- From one moment of a run to any later one facts only grow, whatever the rules answer and wherever
-- the run starts; so what is declared, what is constant and what is a stream stays so.
theorem run_never_unlearns (numbered : g.Numbered) (settings : AnalysisSettings) (order : List Int)
    (seeded : seed g = .ok start) :
    (∀ m m', ReflTransGen (Next settings g) (firstMoment g order start) m →
      ReflTransGen (Next settings g) m m' → Grown m.table m'.table) ∧
    ∀ a, run settings g order = .ok a → Owes settings g order start a := by
  refine ⟨fun _ _ _ later => later_grown later,fun a ran => ?_⟩
  have whole : Grown start a.facts := later_grown (reached_last ran seeded .refl)
  refine ⟨fun m reached => reached_last ran seeded reached,?_,?_,?_⟩
  · intro n member designated
    obtain ⟨declared,input,seed⟩ := seed_declared numbered seeded member designated
    obtain ⟨f,found,below⟩ := whole _ _ seed
    exact ⟨declared,f,input,fact_ok.mpr found,below⟩
  · intro n member computed const values evaluated o v pair
    obtain ⟨f,found,below⟩ := whole _ _ (seed_constant numbered seeded member computed const evaluated pair)
    rw [below.value v rfl] at found
    exact fact_ok.mpr found
  · intro m reached o f s i known shape streams
    obtain ⟨f',found,below⟩ := later_grown (reached_last ran seeded reached) o f known
    obtain ⟨s',shape',streams'⟩ := stays_streaming below shape streams
    exact ⟨f',s',fact_ok.mpr found,shape',streams'⟩

end Runs

def relayedStart : FactTable :=
  ⟨[(⟨0,0⟩,stream),(⟨1,0⟩,.constant one),(⟨2,0⟩,.unknown),(⟨3,0⟩,.unknown)]⟩

theorem run_never_unlearns_relayed : relayed.Numbered ∧ seed relayed = .ok relayedStart ∧
    run .standard relayed [3,0] = .ok relayedAnalysis ∧
    Owes .standard relayed [3,0] relayedStart relayedAnalysis := by
  have seeded : seed relayed = .ok relayedStart := rfl
  obtain ⟨-,owes⟩ := run_never_unlearns relayed_numbered .standard [3,0] seeded
  exact ⟨relayed_numbered,seeded,relayed_run,owes _ relayed_run⟩

end TensorGraph.Analysis
