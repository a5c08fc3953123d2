import TensorGraph.Proofs.Model.Alike

namespace TensorGraph
open Outcome

namespace Lowering
open TensorGraph.Graph Model

variable {start : Lowering} {r : Registry}

-- Steps that are still to come bear names of their own.
structure Apart (qs : List (Step × Nat)) (l : Lowering) : Prop where
  named : ∀ q ∈ qs, q.1.name ≠ ""
  distinct : (qs.map (·.1.name)).Nodup
  unlinked : ∀ q ∈ qs, isChained q.1.op = true → ∀ k, 1 ≤ k → linkName q.1.name k ∉ qs.map (·.1.name)
  free : ∀ q ∈ qs, q.1.name ∉ l.used

theorem Apart.step {q : Step × Nat} {qs : List (Step × Nat)} {l : Lowering} (apart : Apart (q :: qs) l) :
    l.nameFor q.1 q.2 = q.1.name ∧ ∀ block l', start.rows r q.1 (l.nameFor q.1 q.2) = .ok block →
      l.lay (l.nameFor q.1 q.2,block) = .ok l' → Apart qs l' := by
  obtain ⟨named,namedRest⟩ := List.forall_mem_cons.mp apart.named
  obtain ⟨free,freeRest⟩ := List.forall_mem_cons.mp apart.free
  obtain ⟨unlinked,unlinkedRest⟩ := List.forall_mem_cons.mp apart.unlinked
  obtain ⟨other,distinct⟩ := List.nodup_cons.mp apart.distinct
  have title : l.nameFor q.1 q.2 = q.1.name := nameFor_free named free
  refine ⟨title,fun block l' found laid => ⟨namedRest,distinct,?_,?_⟩⟩
  · intro q' member chained k positive taken
    exact unlinkedRest q' member chained k positive (List.mem_cons_of_mem _ taken)
  · rw [title] at found laid
    intro q' member used
    have here : q'.1.name ∈ qs.map (·.1.name) := List.mem_map.mpr ⟨q',member,rfl⟩
    rcases (lay_used laid).2 _ used with old | same | ⟨row,inside,link,same⟩
    · exact freeRest q' member old
    · exact other (List.mem_map.mpr ⟨q',member,same⟩)
    · obtain ⟨chained,links⟩ := rows_links found inside link
      obtain ⟨k,positive,-,linkNamed⟩ := links.named
      exact unlinked chained k positive (List.mem_cons_of_mem _ (linkNamed ▸ same ▸ here))

end Lowering

namespace Model
open Lowering TensorGraph.Graph

-- Names that leave no room for a clash: values have different names, nodes have names of their own,
-- and neither are named like the links of a step.
structure Plain (m : Model) : Prop where
  values : m.valueNames.Nodup
  named : ∀ s ∈ m.steps, s.name ≠ ""
  distinct : (m.steps.map (·.name)).Nodup
  apart : ∀ s ∈ m.steps, s.name ∉ m.entries
  unlinked : ∀ s ∈ m.steps, isChained s.op = true → ∀ k, 1 ≤ k →
    linkName s.name k ∉ m.valueNames ∧ linkName s.name k ∉ m.steps.map (·.name)

variable {m : Model} {steps : List Step}

theorem Plain.permuted (plain : Plain m) (perm : m.steps.Perm steps) : Plain { m with steps := steps } := by
  have outputs : (outputNames m.steps).Perm (outputNames steps) := perm.flatMap_right _
  have values : m.valueNames.Perm ({ m with steps := steps } : Model).valueNames := outputs.append_left _
  have names : (m.steps.map (·.name)).Perm (steps.map (·.name)) := perm.map _
  refine ⟨values.nodup_iff.mp plain.values,fun s member => plain.named s (perm.symm.subset member),
    names.nodup_iff.mp plain.distinct,fun s member => plain.apart s (perm.symm.subset member),?_⟩
  intro s member chained k positive
  obtain ⟨value,name⟩ := plain.unlinked s (perm.symm.subset member) chained k positive
  exact ⟨fun taken => value (values.symm.subset taken),fun taken => name (names.symm.subset taken)⟩

theorem Plain.start {start : Lowering} (plain : Plain m) (opened : Opened m.entries start) :
    Apart m.steps.zipIdx start := by
  have names : m.steps.zipIdx.map (·.1.name) = m.steps.map (·.name) := by
    conv => rhs; rw [← List.zipIdx_map_fst 0 m.steps,List.map_map]
    rfl
  refine ⟨fun q member => plain.named _ (List.fst_mem_of_mem_zipIdx member),names ▸ plain.distinct,?_,?_⟩
  · intro q member chained k positive
    rw [names]
    exact (plain.unlinked _ (List.fst_mem_of_mem_zipIdx member) chained k positive).2
  · intro q member
    rw [opened.used,List.mem_reverse]
    exact plain.apart _ (List.fst_mem_of_mem_zipIdx member)

variable {r : Registry} {serial : Nat} {start : Lowering} {blocks : List (List Row)}

-- A model that has a graph: every step has its rows under its own name, no name is given twice, and the
-- graph is that of the rows.
structure Unfolded (m : Model) (r : Registry) (start : Lowering) (blocks : List (List Row)) (g : Graph) : Prop where
  found : List.Forall₂ (fun s block => start.rows r s s.name = .ok block) m.steps blocks
  distinct : ((given start blocks.flatten).map (·.1)).Nodup
  realized : Realized start blocks.flatten m.outputs g
  valid : g.validate = .ok ()

theorem toGraph_unfolded {g : Graph} (plain : Plain m) (ran : m.toGraph r serial = .ok g) :
    ∃ start blocks, m.opened serial = .ok start ∧ Unfolded m r start blocks g := by
  obtain ⟨start,ps,started,-,laid⟩ := toGraph_laid (I := Apart) (T := fun q title => title = q.1.name) plain.values
    (fun start => plain.start) (fun start q rest l apart => apart.step) (fun q member chained title own k positive _ =>
      own ▸ (plain.unlinked _ (List.fst_mem_of_mem_zipIdx member) chained k positive).1) ran
  have found : List.Forall₂ (fun s block => start.rows r s s.name = .ok block) m.steps (ps.map (·.2)) := by
    rw [← List.zipIdx_map_fst 0 m.steps,List.forall₂_map_left_iff,List.forall₂_map_right_iff]
    exact laid.found.imp fun q p parts => parts.1 ▸ parts.2
  have distinct := laid.distinct
  have realized := laid.realized
  rw [List.flatMap_def] at distinct realized
  exact ⟨start,ps.map (·.2),started,found,distinct,realized,laid.valid⟩

-- What rows need to have a graph is all that a model needs.
theorem toGraph_of_rows (opened : Opened m.entries start) (started : m.opened serial = .ok start)
    (named : ∀ s ∈ m.steps, s.name ≠ "")
    (found : List.Forall₂ (fun s block => start.rows r s s.name = .ok block) m.steps blocks)
    (distinct : ((given start blocks.flatten).map (·.1)).Nodup) (feasible : Feasible start blocks.flatten)
    (outputs : ∀ d ∈ m.outputs, ∃ o, (given start blocks.flatten).lookup d.name = some o ∧
      (drawn start blocks.flatten).HasOutlet o) : ∃ g, Realized start blocks.flatten m.outputs g ∧
        (g.validate = .ok () → m.toGraph r serial = .ok g) := by
  have built := opened.built
  have steps : List.Forall₂ (fun q block => start.rows r q.1 q.1.name = .ok block) m.steps.zipIdx blocks := by
    rw [← List.zipIdx_map_fst 0 m.steps,List.forall₂_map_left_iff] at found
    exact found
  obtain ⟨l,stepped,drafted⟩ := steps_total opened feasible distinct steps
    (fun q member => named _ (List.fst_mem_of_mem_zipIdx member)) (List.prefix_refl _) (opened.drafted _)
    (fun u member => .inl (by rwa [opened.used,List.mem_reverse] at member))
  rw [List.nil_append] at drafted
  obtain ⟨l',connected⟩ := connects_total feasible (built_wired built).numbered (built_entered built) drafted.waits
    (drafted.linked rfl)
  obtain ⟨linked,-⟩ := joined (built_wired built).numbered drafted connected
  obtain ⟨os,each⟩ := exists_forall₂ outputs
  have graph : l'.graph = drawn start blocks.flatten := linked.graph
  obtain ⟨l'',designated⟩ : ∃ l'', m.outputs.foldlM addOutput l' = .ok l'' :=
    ⟨_,addOutputs_ok.mpr ⟨os,by rwa [graph,linked.values],rfl⟩⟩
  refine ⟨l''.graph,linked.realized opened feasible designated,fun valid => ?_⟩
  rw [toGraph_eq,started,ok_bind,stepped,ok_bind,connected,ok_bind,designated,ok_bind,valid]
  rfl

-- A graph of a model is, up to the numbers of its nodes, one of the model with its steps in any other order.
theorem toGraph_permuted {g : Graph} (plain : Plain m) (perm : m.steps.Perm steps) (serial' : Nat)
    (ran : m.toGraph r serial = .ok g) :
    ∃ g', { m with steps := steps }.toGraph r serial' = .ok g' ∧ g.Alike g' := by
  obtain ⟨start,blocks,started,unfolded⟩ := toGraph_unfolded plain ran
  have distinct := (List.nodup_append.mp plain.values).1
  have opened := opened_entries distinct started
  have started' : { m with steps := steps }.opened serial' = .ok (start.reserial serial') := opened_reserial serial' started
  have opened' : Opened m.entries (start.reserial serial') := opened_entries distinct (opened_reserial serial' started)
  obtain ⟨blocks',found,reordered⟩ := List.perm_comp_forall₂ perm.symm unfolded.found
  have moved : Rearranged start (start.reserial serial') blocks.flatten blocks'.flatten :=
    ⟨rfl,rfl,rfl,rfl,reordered.symm.flatten⟩
  have feasible := unfolded.realized.feasible
  have outputs : ∀ d ∈ m.outputs, ∃ o, (given (start.reserial serial') blocks'.flatten).lookup d.name = some o ∧
      (drawn (start.reserial serial') blocks'.flatten).HasOutlet o := by
    obtain ⟨os,each,-⟩ := unfolded.realized.graph
    intro d member
    obtain ⟨o,-,there,has⟩ := forall₂_left each d member
    obtain ⟨o',there',twins⟩ := moved.lookup opened unfolded.distinct there
    exact ⟨o',there',twins.outlet has⟩
  obtain ⟨g',realized,total⟩ := toGraph_of_rows (m := { m with steps := steps }) opened' started'
    (plain.permuted perm).named found (moved.keys unfolded.distinct)
    (moved.feasible opened opened' unfolded.distinct feasible) outputs
  have alike := moved.realized opened unfolded.distinct unfolded.realized realized
  refine ⟨g',total ?_,alike⟩
  exact alike.valid (built_invariant unfolded.realized.built) (built_invariant realized.built) unfolded.valid

-- The order of steps does not matter: either no order gives a graph, or all give graphs that are alike.
theorem toGraph_reordered (plain : Plain m) (perm : m.steps.Perm steps) (r : Registry) (serial serial' : Nat) :
    (∃ e e', m.toGraph r serial = .error e ∧ { m with steps := steps }.toGraph r serial' = .error e') ∨
      ∃ g g', m.toGraph r serial = .ok g ∧ { m with steps := steps }.toGraph r serial' = .ok g' ∧ g.Alike g' := by
  cases first : m.toGraph r serial with
  | ok g =>
    obtain ⟨g',second,alike⟩ := toGraph_permuted plain perm serial' first
    exact .inr ⟨g,g',rfl,second,alike⟩
  | error e =>
    cases second : { m with steps := steps }.toGraph r serial' with
    | ok g' =>
      obtain ⟨g,back,-⟩ := toGraph_permuted (plain.permuted perm) perm.symm serial second
      cases first.symm.trans back
    | error e' => exact .inl ⟨e,e',rfl,rfl⟩

-- The first step has to wait for the second, which becomes two nodes.
def unsorted : Model := ⟨"",[],[⟨"x",1,some [some 2]⟩],[⟨"z",1,none⟩],
  [⟨"Relu",["y"],["z"],"last",[]⟩,⟨"Max",["x","x","x"],["y"],"most",[]⟩]⟩

theorem unsorted_plain : Plain unsorted := by
  refine ⟨by decide,by decide,by decide,by decide,fun s _ _ k _ => ⟨?_,?_⟩⟩
  · exact linkName_ne (by decide) s.name k
  · exact linkName_ne (by decide) s.name k

theorem unsorted_reordered : ∃ g g', unsorted.toGraph .builtin 0 = .ok g ∧
    { unsorted with steps := unsorted.steps.reverse }.toGraph .builtin 1 = .ok g' ∧ g.Alike g' := by
  have perm : unsorted.steps.Perm unsorted.steps.reverse := (List.reverse_perm _).symm
  rcases toGraph_reordered unsorted_plain perm .builtin 0 1 with ⟨e,e',failed,-⟩ | both
  · have succeeds : (unsorted.toGraph .builtin 0).toOption.isSome = true := by decide +kernel
    rw [failed] at succeeds
    cases succeeds
  · exact both

end Model
end TensorGraph
