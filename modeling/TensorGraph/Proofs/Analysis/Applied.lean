import TensorGraph.Proofs.Analysis.Failures
import TensorGraph.Proofs.Analysis.Inputs
import TensorGraph.Proofs.Op.Sound

namespace TensorGraph
open Outcome

theorem Graph.BuiltIn.first {g : Graph} {n : Node} (builtIn : g.BuiltIn) (member : n ∈ g.nodes) :
    (⟨n.id,0⟩ : Outlet) ∈ n.outlets := by
  obtain ⟨o,operator⟩ := builtIn n member
  exact Analysis.outlets_operator operator ▸ List.mem_singleton_self _

namespace Analysis

variable {g : Graph} {a : Analysis} {v : Outlet → Tensor} {settings : AnalysisSettings}
  {table table' last : FactTable} {n : Node} {order : List Int}

-- An execution of the whole graph that an analysis speaks of: what is fed is as the analysis says in the end, and
-- no operator meets tensors of which its rule says something else than its evaluation.
structure Applies (a : Analysis) (g : Graph) (v : Outlet → Tensor) : Prop extends g.Execution v where
  accepted : ∀ n ∈ g.nodes, g.isInput n.id = true → ∀ f, a.facts.get? ⟨n.id,0⟩ = some f → f.accepts (v ⟨n.id,0⟩) = true
  consistent : ∀ n ∈ g.nodes, g.isInput n.id = false → ∃ o : Op, n.operator = o.operator ∧ o.Consistent (n.inputs.map v)

theorem Applies.rule (applies : a.Applies g v) (member : n ∈ g.nodes) (computed : g.isInput n.id = false) :
    RuleHolds n v := by
  intro ins outs newIns newOuts input output inferred _ _
  obtain ⟨o,operator,consistent⟩ := applies.consistent n member computed
  have evaluated := applies.computed n member computed
  rw [operator] at evaluated inferred
  refine Op.infer_holds consistent ?_ evaluated input output inferred
  rintro t rfl
  -- a constant is the tensor of its own outlet
  obtain ⟨out,single⟩ := Op.eval_single evaluated
  have outlet : ∃ o ∈ n.outlets, v o = out := List.mem_map.mp (single ▸ List.mem_singleton_self out)
  obtain ⟨o,outlet,rfl⟩ := outlet
  have equal : t = v o := by
    rw [single] at evaluated
    cases taken : n.inputs.map v with
    | nil => rw [taken] at evaluated; cases evaluated; rfl
    | cons u us => rw [taken] at evaluated; cases evaluated
  exact equal ▸ Tensor.same_self (applies.typed n member o outlet)

-- A visit of an input may say what it likes of the input, as long as the last word on it is true.
theorem fed_visit_holds {o : Op} (operator : n.operator = o.operator) (free : n.inputs = [])
    (fed : g.isInput n.id = true) (covered : Covers n table) (holds : Holds table v) {changed : List Outlet}
    (visited : visit settings g table n = .ok (table',changed)) (grown : Grown table' last)
    (accepted : ∀ f, last.get? ⟨n.id,0⟩ = some f → f.accepts (v ⟨n.id,0⟩) = true) : Holds table' v := by
  have outlet : (⟨n.id,0⟩ : Outlet) ∈ n.outlets := outlets_operator operator ▸ List.mem_singleton_self _
  obtain ⟨f,found⟩ := Option.isSome_iff_exists.mp (covered ⟨n.id,0⟩ outlet)
  obtain ⟨_,_,-,-,merged⟩ := visit_unfed operator free fed found visited
  rcases merge_cases merged with ⟨-,rfl,-⟩ | ⟨_,new,-,-,-,rfl,-⟩
  · exact holds
  · obtain ⟨f',ended,low⟩ := grown ⟨n.id,0⟩ new (by simp [Table.get?_set])
    exact holds_set holds (holds _ f found).1 (low.accepts (accepted f' ended))

-- What an analysis finds holds of every execution that it speaks of.
theorem Applies.holds (numbered : g.Numbered) (builtIn : g.BuiltIn) (ran : run settings g order = .ok a)
    (applies : a.Applies g v) : Holds a.facts v := by
  obtain ⟨valid,-,start,seeded,propagated⟩ := run_parts ran
  have first : ∀ n ∈ g.nodes, g.isInput n.id = true → (⟨n.id,0⟩ : Outlet) ∈ n.outlets :=
    fun n member _ => builtIn.first member
  have kept : Holds a.facts v ∧ ∀ n ∈ g.nodes, Covers n a.facts := by
    refine propagate_keeps_until (P := fun t => Holds t v ∧ ∀ n ∈ g.nodes, Covers n t) ?_
      ⟨seed_holds applies.toExecution first seeded,seed_covers seeded⟩ propagated
    intro n member t t' changed _ _ _ ⟨holds,covers⟩ visited rest
    refine ⟨?_,fun m there o outlet => visit_entries visited (covers m there o outlet)⟩
    cases fed : g.isInput n.id with
    | false => exact visit_holds (applies.rule member fed) applies.toExecution member holds visited
    | true =>
      obtain ⟨o,operator⟩ := builtIn n member
      exact fed_visit_holds operator (validate_free numbered valid member fed) fed (covers n member) holds visited
        (propagate_grown rest) (applies.accepted n member fed)
  exact kept.1

-- Facts of outlets of the graph, and of no others.
def Inside (g : Graph) (table : FactTable) : Prop := ∀ o ∈ table.keys, ∃ n ∈ g.nodes, o ∈ n.outlets

theorem inside_set {o : Outlet} {f : Fact} (inside : Inside g table) (member : n ∈ g.nodes) (outlet : o ∈ n.outlets) :
    Inside g (table.set o f) := by
  intro p key
  rw [Table.keys_set] at key
  split at key
  · exact inside p key
  · rcases List.mem_append.mp key with old | new
    · exact inside p old
    · exact List.mem_singleton.mp new ▸ ⟨n,member,outlet⟩

theorem seedNode_inside (builtIn : g.BuiltIn) (member : n ∈ g.nodes) (inside : Inside g table)
    (seeded : seedNode g table n = .ok table') : Inside g table' := by
  have opened : Inside g (n.outlets.foldl (fun t o => t.set o .unknown) table) :=
    List.foldlRecOn (motive := Inside g) _ _ inside fun _ kept o outlet => inside_set kept member outlet
  unfold seedNode at seeded
  dsimp only at seeded
  split at seeded
  · obtain ⟨f,-,equal⟩ := bind_ok.mp seeded
    cases equal
    exact inside_set opened member (builtIn.first member)
  · split at seeded
    · obtain ⟨values,-,equal⟩ := bind_ok.mp seeded
      cases equal
      exact List.foldlRecOn (motive := Inside g) _ _ opened fun _ kept (o,t) outlet =>
        inside_set kept member (List.of_mem_zip outlet).1
    · cases seeded
      exact opened

theorem run_inside (builtIn : g.BuiltIn) (ran : run settings g order = .ok a) : Inside g a.facts := by
  obtain ⟨-,-,start,seeded,propagated⟩ := run_parts ran
  have begun : Inside g start := foldlM_keeps (P := Inside g)
    (fun _ _ _ member inside step => seedNode_inside builtIn member inside step)
    (fun _ key => absurd key List.not_mem_nil) seeded
  exact propagate_keeps (P := Inside g) (fun n _ t t' changed inside visited => by
    unfold Inside
    rw [visit_keys visited]
    exact inside) begun propagated

end Analysis
end TensorGraph
