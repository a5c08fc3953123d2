import Mathlib.Data.List.Perm.Basic
import TensorGraph.Proofs.Model.Steps

namespace TensorGraph
open Outcome

namespace Model
open Lowering

-- Names that steps give to their outputs.
def outputNames (steps : List Step) : List String := steps.flatMap fun s => s.outputs.filter (· ≠ "")

-- Names of values: those of constants and inputs, then what the steps call their outputs.
def valueNames (m : Model) : List String := m.entries ++ outputNames m.steps

end Model

namespace Lowering
open TensorGraph.Graph Model

variable {r : Registry} {start l l' : Lowering} {rows block : List Row} {row : Row} {names : List String}

theorem append_named (built : Built l.graph) (ran : l.append row = .ok l') : Built l'.graph ∧
    l'.graph.nodes.map (·.name) = l.graph.nodes.map (·.name) ++ [row.name] := by
  obtain ⟨os,added,-⟩ := append_parts ran
  obtain ⟨-,-,-,grown⟩ := addNode_ok.mp added
  refine ⟨built.addNode added,?_⟩
  rw [grown,List.map_append]
  rfl

theorem appends_named (built : Built l.graph) (ran : block.foldlM append l = .ok l') : Built l'.graph ∧
    l'.graph.nodes.map (·.name) = l.graph.nodes.map (·.name) ++ block.map (·.name) := by
  induction block generalizing l with
  | nil =>
    cases ran
    exact ⟨built,(List.append_nil _).symm⟩
  | cons row block ih =>
    rw [List.foldlM_cons] at ran
    obtain ⟨middle,first,rest⟩ := bind_ok.mp ran
    obtain ⟨built,named⟩ := append_named built first
    obtain ⟨built,later⟩ := ih built rest
    exact ⟨built,by rw [later,named,List.append_assoc]; rfl⟩

theorem lay_named {p : String × List Row} (built : Built l.graph) (ran : l.lay p = .ok l') : Built l'.graph ∧
    l'.graph.nodes.map (·.name) = l.graph.nodes.map (·.name) ++ p.2.map (·.name) :=
  appends_named (l := { l with used := p.1 :: l.used }) built ran

theorem lays_named {ps : List (String × List Row)} (built : Built l.graph) (ran : ps.foldlM lay l = .ok l') :
    Built l'.graph ∧ l'.graph.nodes.map (·.name) = l.graph.nodes.map (·.name) ++ (ps.flatMap (·.2)).map (·.name) := by
  induction ps generalizing l with
  | nil =>
    cases ran
    exact ⟨built,(List.append_nil _).symm⟩
  | cons p ps ih =>
    rw [List.foldlM_cons] at ran
    obtain ⟨middle,first,rest⟩ := bind_ok.mp ran
    obtain ⟨built,named⟩ := lay_named built first
    obtain ⟨built,later⟩ := ih built rest
    refine ⟨built,?_⟩
    rw [later,named,List.append_assoc,List.flatMap_cons,List.map_append]

-- Of the names that rows give, links have their own, and the others are those of the steps.
theorem linked_names {name : String} {width : Nat} {links : List Row} (each : ∀ row ∈ links, row.Links name width) :
    (links.flatMap fun row => if row.link then [] else row.results.map (·.1)) = [] := by
  refine List.flatMap_eq_nil_iff.mpr fun row member => ?_
  rw [if_pos (each row member).link]

theorem stated_names {qs : List (Step × Nat)} {ps : List (String × List Row)}
    (found : List.Forall₂ (fun q p => start.rows r q.1 p.1 = .ok p.2) qs ps) :
    ((ps.flatMap (·.2)).flatMap fun row => if row.link then [] else row.results.map (·.1)).Sublist
      (outputNames (qs.map (·.1))) := by
  induction found with
  | nil => exact List.Sublist.refl _
  | @cons q p qs ps first _ ih =>
    obtain ⟨links,main,equal,shape⟩ := rows_parts first
    rw [List.flatMap_cons,List.flatMap_append,outputNames,List.map_cons,List.flatMap_cons]
    refine List.Sublist.append ?_ ih
    have own : ([main].flatMap fun row => if row.link then [] else row.results.map (·.1)) = main.results.map (·.1) := by
      simp [shape.last]
    rw [equal,List.flatMap_append,linked_names fun row member => (shape.links row member).2,own]
    rw [shape.results]
    exact results_named _ _

theorem link_results {qs : List (Step × Nat)} {ps : List (String × List Row)}
    (found : List.Forall₂ (fun q p => start.rows r q.1 p.1 = .ok p.2) qs ps) (member : row ∈ ps.flatMap (·.2))
    (link : row.link = true) : row.results = [(row.name,0)] := by
  obtain ⟨p,place,inside⟩ := List.mem_flatMap.mp member
  obtain ⟨q,-,first⟩ := forall₂_right found p place
  exact (rows_links first inside link).2.results

theorem mem_link_names {x : String} :
    x ∈ (rows.flatMap fun row => if row.link then [row.name] else []) ↔ ∃ row ∈ rows, row.link = true ∧ x = row.name := by
  simp only [List.mem_flatMap]
  refine exists_congr fun row => and_congr_right fun _ => ?_
  split <;> simp_all

theorem link_names_sublist :
    (rows.flatMap fun row => if row.link then [row.name] else []).Sublist (rows.map (·.name)) := by
  induction rows with
  | nil => exact List.Sublist.refl _
  | cons row rows ih =>
    rw [List.flatMap_cons,List.map_cons]
    split
    · exact ih.cons_cons _
    · exact ih.cons _

-- No name is given twice as long as no link has the name of a value.
theorem given_distinct (opened : Opened names start) {qs : List (Step × Nat)} {ps : List (String × List Row)}
    (found : List.Forall₂ (fun q p => start.rows r q.1 p.1 = .ok p.2) qs ps)
    (named : ((ps.flatMap (·.2)).map (·.name)).Nodup) (values : (names ++ outputNames (qs.map (·.1))).Nodup)
    (apart : ∀ row ∈ ps.flatMap (·.2), row.link = true → row.name ∉ names ++ outputNames (qs.map (·.1))) :
    ((given start (ps.flatMap (·.2))).map (·.1)).Nodup := by
  have split : ((ps.flatMap (·.2)).flatMap fun row => row.results.map (·.1)) = (ps.flatMap (·.2)).flatMap fun row =>
      (if row.link then [row.name] else []) ++ if row.link then [] else row.results.map (·.1) := by
    refine List.flatMap_congr fun row member => ?_
    by_cases link : row.link = true
    · simp [link,link_results found member link]
    · simp [link]
  have below := List.Sublist.append (List.Sublist.refl names) (stated_names found)
  have parts : (((ps.flatMap (·.2)).flatMap fun row => if row.link then [row.name] else []) ++
      (names ++ (ps.flatMap (·.2)).flatMap fun row => if row.link then [] else row.results.map (·.1))).Nodup := by
    refine List.nodup_append.mpr ⟨named.sublist link_names_sublist,values.sublist below,?_⟩
    intro x link y value same
    obtain ⟨row,member,linked,rfl⟩ := mem_link_names.mp link
    exact apart row member linked (below.subset (same ▸ value))
  rw [given_keys,opened.keys,split]
  refine (List.Perm.nodup_iff ?_).mpr parts
  refine ((List.reverse_perm _).append (List.reverse_perm _)).trans ?_
  refine ((List.flatMap_append_perm _ _ _).symm.append_right _).trans ?_
  rw [List.append_assoc]
  exact (List.perm_append_comm).append_left _

-- What the graph of a run is, told by the rows of its steps.
structure Realized (start : Lowering) (rows : List Row) (outputs : List Declaration) (g : Graph) : Prop where
  built : Built g
  feasible : Feasible start rows
  graph : ∃ os, List.Forall₂ (fun d o => (given start rows).lookup d.name = some o ∧ (drawn start rows).HasOutlet o)
    outputs os ∧ g = { drawn start rows with outputs := os.foldl collect [] }

theorem Opened.drafted (opened : Opened names start) (final : List (String × Outlet)) : Drafted start final [] start := by
  refine ⟨opened.built,?_,rfl,?_,?_,fun p member => absurd member List.not_mem_nil,rfl⟩
  · rw [frame_nil]
  · rw [opened.pending]
    exact List.forall_mem_nil _
  · rw [opened.pending]
    exact List.nodup_nil

theorem Linked.realized {outputs : List Declaration} (opened : Opened names start) (linked : Linked start rows [] l)
    (feasible : Feasible start rows) (designated : outputs.foldlM addOutput l = .ok l') :
    Realized start rows outputs l'.graph := by
  have graph : l.graph = drawn start rows := linked.graph
  obtain ⟨os,each,rfl⟩ := addOutputs_ok.mp designated
  refine ⟨addOutputs_built linked.built designated,feasible,os,?_,?_⟩
  · rwa [graph,linked.values] at each
  · dsimp only
    rw [graph,show (drawn start rows).outputs = [] from opened.exits]

theorem realized {ps : List (String × List Row)} {l'' : Lowering} {outputs : List Declaration} (opened : Opened names start)
    (distinct : ((given start (ps.flatMap (·.2))).map (·.1)).Nodup) (laid : ps.foldlM lay start = .ok l)
    (connected : l.pending.foldlM connect l = .ok l') (designated : outputs.foldlM addOutput l' = .ok l'') :
    Realized start (ps.flatMap (·.2)) outputs l''.graph := by
  have drafted := lays_drafted distinct (List.suffix_refl _) (opened.drafted _) laid
  rw [List.nil_append] at drafted
  obtain ⟨linked,feasible⟩ := joined (built_wired opened.built).numbered drafted connected
  exact linked.realized opened feasible designated

end Lowering

namespace Model
open Lowering TensorGraph.Graph

theorem toGraph_parts {m : Model} {r : Registry} {serial : Nat} {g : Graph} (ran : m.toGraph r serial = .ok g) :
    ∃ start l l' l'', m.opened serial = .ok start ∧
      m.steps.zipIdx.foldlM (fun l p => l.addStep r p.1 p.2) start = .ok l ∧ l.pending.foldlM connect l = .ok l' ∧
      m.outputs.foldlM addOutput l' = .ok l'' ∧ l''.graph.validate = .ok () ∧ l''.graph = g := by
  rw [toGraph_eq] at ran
  obtain ⟨start,opened,ran⟩ := bind_ok.mp ran
  obtain ⟨l,stepped,ran⟩ := bind_ok.mp ran
  obtain ⟨l',connected,ran⟩ := bind_ok.mp ran
  obtain ⟨l'',designated,ran⟩ := bind_ok.mp ran
  obtain ⟨⟨⟩,valid,equal⟩ := bind_ok.mp ran
  exact ⟨start,l,l',l'',opened,stepped,connected,designated,valid,Except.ok.inj equal⟩

-- How a model comes to its graph: every step has its rows under a title, no name is given twice, and the
-- graph is that of the rows.
structure Laid (m : Model) (r : Registry) (T : Step × Nat → String → Prop) (start : Lowering)
    (ps : List (String × List Row)) (g : Graph) : Prop where
  found : List.Forall₂ (fun q p => T q p.1 ∧ start.rows r q.1 p.1 = .ok p.2) m.steps.zipIdx ps
  distinct : ((given start (ps.flatMap (·.2))).map (·.1)).Nodup
  realized : Realized start (ps.flatMap (·.2)) m.outputs g
  valid : g.validate = .ok ()

theorem toGraph_laid {m : Model} {r : Registry} {serial : Nat} {g : Graph} {I : List (Step × Nat) → Lowering → Prop}
    {T : Step × Nat → String → Prop} (values : m.valueNames.Nodup)
    (begins : ∀ start, Opened m.entries start → I m.steps.zipIdx start)
    (step : ∀ (start : Lowering) q rest l, I (q :: rest) l → T q (l.nameFor q.1 q.2) ∧ ∀ block l',
      start.rows r q.1 (l.nameFor q.1 q.2) = .ok block → l.lay (l.nameFor q.1 q.2,block) = .ok l' → I rest l')
    (apart : ∀ q ∈ m.steps.zipIdx, isChained q.1.op = true → ∀ title, T q title → ∀ k, 1 ≤ k → k < q.1.width →
      linkName title k ∉ m.valueNames) (ran : m.toGraph r serial = .ok g) :
    ∃ start ps, m.opened serial = .ok start ∧ Opened m.entries start ∧ Laid m r T start ps g := by
  obtain ⟨start,l,l',l'',started,stepped,connected,designated,valid,rfl⟩ := toGraph_parts ran
  have opened := opened_entries (List.nodup_append.mp values).1 started
  obtain ⟨ps,each,laid⟩ := steps_laid (I := I) (T := T) (step start) (begins start opened) rfl stepped
  obtain ⟨built,names⟩ := lays_named opened.built laid
  have named : ((ps.flatMap (·.2)).map (·.name)).Nodup := by
    have all : (l.graph.nodes.map (·.name)).Nodup := built_named built
    rw [names] at all
    exact (List.nodup_append.mp all).2.1
  have steps : m.steps.zipIdx.map (·.1) = m.steps := List.zipIdx_map_fst 0 m.steps
  have distinct : ((given start (ps.flatMap (·.2))).map (·.1)).Nodup := by
    refine given_distinct opened (each.imp fun _ _ => And.right) named (steps.symm ▸ values) ?_
    intro row member link
    obtain ⟨p,place,inside⟩ := List.mem_flatMap.mp member
    obtain ⟨q,later,titled,found⟩ := forall₂_right each p place
    obtain ⟨chained,links⟩ := rows_links found inside link
    obtain ⟨k,positive,below,linkNamed⟩ := links.named
    rw [linkNamed,steps]
    exact apart q later chained p.1 titled k positive below
  exact ⟨start,ps,started,opened,each,distinct,realized opened distinct laid connected designated,valid⟩

end Model
end TensorGraph
