import TensorGraph.Proofs.Analysis.Constants
import TensorGraph.Proofs.Analysis.Inputs
import TensorGraph.Proofs.Fact.Exact
import TensorGraph.Proofs.Tensor.Equality

namespace TensorGraph
open Outcome

namespace Fact

variable {f : Fact} {t : Tensor}

-- A fact is combined with itself just where its constant, if it has one, equals itself.
theorem unify_self_iff : f.unify f = .ok f ↔ ∀ t, f.value = some t → t.same t = true := by
  rw [unify_ok]
  constructor
  · rintro ⟨-,-,-,agree⟩ t known
    exact agree t t known known
  · intro same
    refine ⟨?_,ShapeFact.unify_above (ShapeFact.below?_refl _),?_,?_⟩
    · cases f.dtype with
      | none => rfl
      | some d => exact if_pos rfl
    · cases f.value <;> rfl
    · intro s t left right
      cases left.symm.trans right
      exact same s left

theorem constant_unify_self : (constant t).unify (constant t) = .ok (constant t) ↔ t.same t = true :=
  unify_self_iff.trans ⟨fun all => all t rfl,fun same _ known => Option.some.inj known ▸ same⟩

end Fact

-- A constant is known by what it yields.
theorem Op.const_unique {s t : Tensor} (equal : (const s).operator = (const t).operator) : s = t := by
  have evaluated : Except.ok [s] = (Except.ok [t] : Outcome (List Tensor)) := congrArg (·.eval []) equal
  cases evaluated
  rfl

namespace Analysis

variable {g : Graph} {settings : AnalysisSettings} {table start : FactTable} {n : Node} {t : Tensor}
  {order queue : List Int}

-- A node of a constant that is entered at its outlet is at rest just where the constant equals itself.
theorem literal_stable (operator : n.operator = (Op.const t).operator) (free : n.inputs = [])
    (entry : table.get? ⟨n.id,0⟩ = some (.constant t)) : Stable settings g table n ↔ t.same t = true := by
  have outlets := outlets_operator operator
  have readOuts : n.outlets.mapM table.get = .ok [.constant t] := by
    rw [outlets]
    exact mapM_ok.mpr (.cons (Table.get_ok.mpr entry) .nil)
  constructor
  · intro stable
    obtain ⟨ins,outs,newIns,newOuts,-,readOuts',applied,-⟩ := visit_parts stable
    cases readOuts.symm.trans readOuts'
    obtain ⟨_,_,_,inferred,-⟩ := applyRule_parts applied
    rw [operator] at inferred
    obtain ⟨c,unified,-⟩ := bind_ok.mp inferred
    exact (Fact.unify_parts unified).2.2.2 t t rfl rfl
  · intro same
    have unified := Fact.constant_unify_self.mpr same
    have each : unifyEach [.constant t] [.constant t] = .ok [.constant t] := mapM_ok.mpr (.cons unified .nil)
    have inferred : n.operator.infer [] [.constant t] = .ok ([],[.constant t]) := by
      rw [operator]
      exact bind_ok.mpr ⟨_,unified,rfl⟩
    have idle : canFold settings g n [] [.constant t] = false := by simp [canFold,Fact.value]
    have applied : applyRule settings g n [] [.constant t] = .ok ([],[.constant t]) :=
      applyRule_of_parts inferred rfl rfl rfl each (by rw [if_neg (by simp [idle])])
    refine visit_of_parts (by rw [free]; rfl) readOuts applied (merges_quiet fun p member => ?_)
    rw [free,outlets] at member
    obtain rfl := List.mem_singleton.mp member
    exact ⟨_,_,entry,unified,same⟩

-- Where all nodes are at rest each one that waits takes one visit.
theorem propagate_stable_iff (stable : ∀ n ∈ g.nodes, Stable settings g table n) {fuel : Nat} (steps : Nat)
    (known : ∀ id ∈ queue, g.Known id) :
    (∃ r, propagate settings g fuel steps table queue = .ok r) ↔ queue.length ≤ fuel := by
  refine ⟨?_,fun enough => ⟨_,propagate_stable stable known enough⟩⟩
  rintro ⟨r,ran⟩
  induction queue generalizing fuel steps with
  | nil => exact Nat.zero_le fuel
  | cons id queue ih =>
    obtain ⟨⟨n,found⟩,rest⟩ := List.forall_mem_cons.mp known
    cases fuel with
    | zero => cases ran
    | succ fuel =>
      unfold propagate at ran
      rw [Graph.node_ok.mpr found,ok_bind,stable n (Graph.get?_mem found)] at ran
      exact Nat.succ_le_succ (ih _ rest ran)

-- So is it from the start, if all are at rest there.
theorem run_stable_iff (valid : g.validate = .ok ()) (seeded : seed g = .ok start) (known : ∀ id ∈ order, g.Known id)
    (stable : ∀ n ∈ g.nodes, Stable settings g start n) :
    (∃ a, run settings g order = .ok a) ↔ g.size ≤ settings.maxSteps := by
  have waiting := firstQueue_perm known
  have length : (firstQueue g order).length = g.size := by
    rw [waiting.length_eq,Graph.ids,List.length_map,List.length_range]
  rw [run_eq valid seeded known,← length,
    ← propagate_stable_iff stable 0 fun id waits => Graph.mem_ids.mp (waiting.mem_iff.mp waits)]
  constructor
  · rintro ⟨a,ran⟩
    obtain ⟨r,reached,-⟩ := bind_ok.mp ran
    exact ⟨r,reached⟩
  · rintro ⟨r,reached⟩
    exact ⟨_,bind_ok.mpr ⟨r,reached,rfl⟩⟩

-- A graph of nothing but constants.
structure Literal (g : Graph) : Prop where
  unfed : g.inputs = []
  constants : ∀ n ∈ g.nodes, ∃ t, n.operator = (Op.const t).operator

-- Its nodes take nothing, and what they give is entered before any of them is visited.
theorem Literal.seeded (literal : Literal g) (inv : g.Invariant) (valid : g.validate = .ok ()) :
    ∃ start, seed g = .ok start ∧ ∀ n ∈ g.nodes, ∀ t, n.operator = (Op.const t).operator →
      n.inputs = [] ∧ start.get? ⟨n.id,0⟩ = some (.constant t) := by
  have computed (n : Node) : g.isInput n.id = false := by
    unfold Graph.isInput
    rw [literal.unfed]
    rfl
  obtain ⟨start,seeded⟩ : ∃ start, seed g = .ok start :=
    seed_total fun n member => (literal.constants n member).imp' Op.const fun _ operator => operator
  refine ⟨start,seeded,fun n member t operator => ⟨?_,?_⟩⟩
  · have arity := ((Graph.validate_ok_iff inv).mp valid n member).resolve_left (by simp [computed])
    rw [operator] at arity
    exact List.length_eq_zero_iff.mp (of_decide_eq_true arity)
  · have const : n.operator.isConst = true := by
      rw [operator]
      rfl
    have evaluated : n.operator.eval [] = .ok [t] := by
      rw [operator]
      rfl
    refine seed_constant inv.numbered seeded member (computed n) const evaluated ?_
    rw [outlets_operator operator]
    exact List.mem_singleton_self _

-- Its analysis comes to an end just where each of the constants equals itself.
theorem literal_run (built : g.Built) (literal : Literal g) (valid : g.validate = .ok ())
    (known : ∀ id ∈ order, g.Known id) : (∃ a, run settings g order = .ok a) ↔ g.size ≤ settings.maxSteps ∧
      ∀ n ∈ g.nodes, ∀ t, n.operator = (Op.const t).operator → t.same t = true := by
  have inv := Graph.built_invariant built
  obtain ⟨start,seeded,entries⟩ := literal.seeded inv valid
  have still (same : ∀ n ∈ g.nodes, ∀ t, n.operator = (Op.const t).operator → t.same t = true) :
      (∃ a, run settings g order = .ok a) ↔ g.size ≤ settings.maxSteps := by
    refine run_stable_iff valid seeded known fun n member => ?_
    obtain ⟨t,operator⟩ := literal.constants n member
    obtain ⟨free,entry⟩ := entries n member t operator
    exact (literal_stable operator free entry).mpr (same n member t operator)
  refine ⟨fun ⟨a,ran⟩ => ?_,fun ⟨enough,same⟩ => (still same).mpr enough⟩
  -- the constants of the end are those of the start, and they are at rest
  have same : ∀ n ∈ g.nodes, ∀ t, n.operator = (Op.const t).operator → t.same t = true := by
    intro n member t operator
    obtain ⟨free,entry⟩ := entries n member t operator
    obtain ⟨-,-,_,seeded',propagated⟩ := run_parts ran
    cases seeded.symm.trans seeded'
    obtain ⟨f,later,below⟩ := propagate_grown propagated _ _ entry
    rw [constant_below below] at later
    exact (literal_stable operator free later).mp (run_stable inv.numbered ran n member)
  exact ⟨(still same).mp ⟨a,ran⟩,same⟩

-- Equality of tensors is symmetric and transitive, and it is reflexive but for untyped elements that are no
-- numbers. A fact is combined with itself, and constants alone are analysed, just where it is reflexive.
theorem self_agreement (s t u : Tensor) (f : Fact) (settings : AnalysisSettings) (g : Graph) (order : List Int) :
    (s.same t = true → t.same s = true) ∧ (s.same t = true → t.same u = true → s.same u = true) ∧
    (t.same t = true ↔ ∀ d, .object d ∈ t.data → d.isNan = false) ∧
    (f.unify f = .ok f ↔ ∀ t, f.value = some t → t.same t = true) ∧
    (g.Built → Literal g → g.validate = .ok () → (∀ id ∈ order, g.Known id) →
      ((∃ a, run settings g order = .ok a) ↔ g.size ≤ settings.maxSteps ∧
        ∀ n ∈ g.nodes, ∀ t, n.operator = (Op.const t).operator → t.same t = true)) :=
  ⟨Tensor.same_symm,Tensor.same_trans,Tensor.same_self_iff,Fact.unify_self_iff,literal_run⟩

-- A graph of one constant, which is asked for.
def solePart (t : Tensor) : Graph := ⟨0,"sole",[⟨0,"x",(Op.const t).operator,[]⟩],[],[]⟩

def sole (t : Tensor) : Graph := { solePart t with outputs := [⟨0,0⟩] }

theorem sole_built (t : Tensor) : (sole t).Built := by
  have x : (solePart t).Built := .addNode (.empty 0 "sole")
    (show (Graph.empty 0 "sole").addNode (Op.const t).operator [] (some "x") = .ok (solePart t,0) from rfl)
  exact .designateOutput x (show (solePart t).designateOutput ⟨0,0⟩ = .ok (sole t) from rfl)

theorem sole_literal (t : Tensor) : Literal (sole t) :=
  ⟨rfl,List.forall_mem_singleton.mpr ⟨t,rfl⟩⟩

-- A value that is no number may stand inside a list.
def nested : Tensor := ⟨.object,[2],[.object (.list [.nan 0,.bool true]),.object .null]⟩

theorem self_agreement_nested : (sole nested).Built ∧ Literal (sole nested) ∧ (sole nested).validate = .ok () ∧
    nested.same nested = true ∧ ∃ a, run .standard (sole nested) [] = .ok a := by
  obtain ⟨-,-,self,-,analysed⟩ := self_agreement nested nested nested .unknown .standard (sole nested) []
  have valid : (sole nested).validate = .ok () := rfl
  have same : nested.same nested = true := self.mpr (by
    intro d member
    simp only [nested,List.mem_cons,Scalar.object.injEq,List.not_mem_nil,or_false] at member
    rcases member with rfl | rfl <;> rfl)
  refine ⟨sole_built _,sole_literal _,valid,same,
    (analysed (sole_built _) (sole_literal _) valid nofun).mpr ⟨by decide,?_⟩⟩
  exact List.forall_mem_singleton.mpr fun _ operator => Op.const_unique operator ▸ same

-- As an element of its own it makes the tensor differ from itself, and the analysis of the constant fail.
def missing : Tensor := ⟨.object,[2],[.object (.nan 0),.object .null]⟩

theorem self_disagreement : missing.same missing = false ∧
    (∃ e, (Fact.constant missing).unify (.constant missing) = .error e ∧ e.kind = .factConflict) ∧
    (sole missing).Built ∧ Literal (sole missing) ∧ (sole missing).validate = .ok () ∧
    ∃ e, run .standard (sole missing) [] = .error e ∧ e.kind = .analysis :=
  ⟨rfl,⟨_,rfl,rfl⟩,sole_built _,sole_literal _,rfl,_,rfl,rfl⟩

end Analysis

end TensorGraph
