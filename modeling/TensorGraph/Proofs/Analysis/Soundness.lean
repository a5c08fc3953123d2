import TensorGraph.Analysis.Propagation
import TensorGraph.Op
import TensorGraph.Proofs.Fact.Acceptance
import TensorGraph.Proofs.Graph.Construction

namespace TensorGraph
open Outcome

-- A sound rule never turns facts that hold of an evaluation into facts that do not. Nothing is
-- asked of answers with another number of facts, since the analysis refuses them.
def Operator.Sound (o : Operator) : Prop :=
  ∀ ins outs newIns newOuts ts os, o.eval ts = .ok os → Facts.Accept ins ts → Facts.Accept outs os →
    o.infer ins outs = .ok (newIns,newOuts) →
    newIns.length = ins.length → newOuts.length = outs.length →
    Facts.Accept newIns ts ∧ Facts.Accept newOuts os

namespace Graph

-- What is asked of the rules of a graph. That a constant operator has the same outputs in every run
-- is not asked here: the operator carries it (`eval_const`), the built-in ones with a proof, and one
-- from outside as part of being an operator.
structure SoundRules (g : Graph) : Prop where
  inputs : ∀ n ∈ g.nodes, g.isInput n.id = true →
    ∃ f, n.operator = (Op.placeholder f).operator ∧ g.inputFact n.id = .ok f
  others : ∀ n ∈ g.nodes, g.isInput n.id = false → n.operator.Sound

-- One tensor for each outlet: what is fed satisfies its declaration, and all else is computed.
structure Execution (g : Graph) (v : Outlet → Tensor) : Prop where
  fed : ∀ n ∈ g.nodes, g.isInput n.id = true → ∀ f, g.inputFact n.id = .ok f →
    f.accepts (v ⟨n.id,0⟩) = true
  computed : ∀ n ∈ g.nodes, g.isInput n.id = false →
    n.operator.eval (n.inputs.map v) = .ok (n.outlets.map v)
  typed : ∀ n ∈ g.nodes, ∀ o ∈ n.outlets, (v o).Typed

end Graph

namespace Facts

theorem accept_map {fs : Facts} {os : List Outlet} {v : Outlet → Tensor} :
    Facts.Accept fs (os.map v) ↔ List.Forall₂ (fun f o => f.accepts (v o) = true) fs os := by
  unfold Accept
  rw [List.forall₂_map_right_iff]

theorem accept_constants {ts : List Tensor} (typed : ∀ t ∈ ts, t.Typed) :
    Accept (ts.map .constant) ts := by
  unfold Accept
  rw [List.forall₂_map_left_iff,List.forall₂_same]
  exact fun t member => Fact.accepts_constant.mpr (Tensor.same_self (typed t member))

-- Facts that are all constants hold of nothing but their own tensors.
theorem values_of_accept {fs : Facts} {ts : List Tensor} (accept : Accept fs ts)
    (typed : ∀ t ∈ ts, t.Typed) (values : fs.all (·.value.isSome) = true) :
    fs.filterMap (·.value) = ts := by
  induction accept with
  | nil => rfl
  | @cons f t fs ts first _ ih =>
    rw [List.all_cons,Bool.and_eq_true] at values
    cases f with
    | outline d s => simp [Fact.value] at values
    | constant c =>
      have equal := Tensor.eq_of_same (typed t List.mem_cons_self) (Fact.accepts_constant.mp first)
      subst equal
      simpa [Fact.value] using ih (fun t member => typed t (List.mem_cons_of_mem _ member)) values.2

end Facts

namespace Analysis

theorem fact_ok {a : Analysis} {o : Outlet} {f : Fact} : a.fact g o = .ok f ↔ a.facts.get? o = some f := by
  unfold Analysis.fact
  cases a.facts.get? o <;> simp

theorem unifyEach_accept (unified : unifyEach as bs = .ok cs) (left : Facts.Accept as ts)
    (right : Facts.Accept bs ts) : Facts.Accept cs ts := by
  unfold unifyEach at unified
  rw [mapM_ok] at unified
  induction left generalizing bs cs with
  | nil => cases right; cases unified; exact .nil
  | cons first _ ih =>
    cases right with
    | cons other others =>
      cases unified with
      | cons both rest => exact .cons (Fact.unify_accepts both first other) (ih rest others)

-- What a table claims holds of the tensors of an execution.
def Holds (table : FactTable) (v : Outlet → Tensor) : Prop :=
  ∀ o f, table.get? o = some f → (v o).Typed ∧ f.accepts (v o) = true

-- The rule of a node keeps to the tensors around the node.
def RuleHolds (n : Node) (v : Outlet → Tensor) : Prop :=
  ∀ ins outs newIns newOuts, Facts.Accept ins (n.inputs.map v) →
    Facts.Accept outs (n.outlets.map v) → n.operator.infer ins outs = .ok (newIns,newOuts) →
    newIns.length = ins.length → newOuts.length = outs.length →
    Facts.Accept newIns (n.inputs.map v) ∧ Facts.Accept newOuts (n.outlets.map v)

theorem outlets_placeholder {n : Node} (h : n.operator = (Op.placeholder f).operator) :
    n.outlets = [⟨n.id,0⟩] := by
  unfold Node.outlets
  rw [h]
  rfl

variable {g : Graph} {v : Outlet → Tensor} {settings : AnalysisSettings} {table table' : FactTable}

theorem rule_holds (rules : g.SoundRules) (exec : g.Execution v) {n : Node} (member : n ∈ g.nodes) :
    RuleHolds n v := by
  intro ins outs newIns newOuts acceptIns acceptOuts inferred lengthIns lengthOuts
  cases designated : g.isInput n.id with
  | false =>
    exact rules.others n member designated _ _ _ _ _ _
      (exec.computed n member designated) acceptIns acceptOuts inferred lengthIns lengthOuts
  | true =>
    obtain ⟨f,operator,declared⟩ := rules.inputs n member designated
    have fed := exec.fed n member designated f declared
    rw [outlets_placeholder operator] at acceptOuts ⊢
    rw [operator] at inferred
    change Op.inferSource f ins outs = _ at inferred
    obtain ⟨out,unified,equal⟩ := bind_ok.mp inferred
    cases equal
    cases acceptOuts with
    | cons first rest =>
      cases rest
      exact ⟨acceptIns,.cons (Fact.unify_accepts unified first fed) .nil⟩

theorem applyRule_accept {n : Node} (rule : RuleHolds n v) (exec : g.Execution v) (member : n ∈ g.nodes)
    (typed : ∀ o ∈ n.inputs, (v o).Typed) (acceptIns : Facts.Accept ins (n.inputs.map v))
    (acceptOuts : Facts.Accept outs (n.outlets.map v))
    (applied : applyRule settings g n ins outs = .ok (newIns,newOuts)) :
    Facts.Accept newIns (n.inputs.map v) ∧ Facts.Accept newOuts (n.outlets.map v) := by
  unfold applyRule at applied
  obtain ⟨⟨ruleIns,ruleOuts⟩,inferred,applied⟩ := bind_ok.mp applied
  dsimp only at applied
  split at applied
  · cases applied
  · rename_i lengths
    simp only [ne_eq,Bool.or_eq_true,decide_eq_true_eq,not_or,Decidable.not_not] at lengths
    obtain ⟨soundIns,soundOuts⟩ := rule _ _ _ _ acceptIns acceptOuts inferred lengths.1 lengths.2
    obtain ⟨unifiedIns,newI,applied⟩ := bind_ok.mp applied
    obtain ⟨unifiedOuts,newO,applied⟩ := bind_ok.mp applied
    have keptIns := unifyEach_accept newI acceptIns soundIns
    have keptOuts := unifyEach_accept newO acceptOuts soundOuts
    split at applied
    · rename_i foldable
      simp only [canFold,Bool.and_eq_true,Bool.not_eq_true'] at foldable
      obtain ⟨⟨⟨-,computed⟩,values⟩,-⟩ := foldable
      have arguments := Facts.values_of_accept keptIns (by simpa using typed) values
      rw [arguments,exec.computed n member computed,ok_bind] at applied
      obtain ⟨folded,unified,equal⟩ := bind_ok.mp applied
      cases equal
      exact ⟨keptIns,unifyEach_accept unified keptOuts
        (Facts.accept_constants (by simpa using exec.typed n member))⟩
    · cases applied
      exact ⟨keptIns,keptOuts⟩

theorem holds_set (holds : Holds table v) (typed : (v o).Typed) (accept : f.accepts (v o) = true) :
    Holds (table.set o f) v := by
  intro p h entry
  rw [Table.get?_set] at entry
  split at entry
  · rename_i equal
    cases entry
    subst equal
    exact ⟨typed,accept⟩
  · exact holds p h entry

theorem merge_holds {state state' : FactTable × List Outlet} (holds : Holds state.1 v)
    (accept : news.2.accepts (v news.1) = true) (merged : merge state news = .ok state') :
    Holds state'.1 v := by
  unfold merge at merged
  obtain ⟨old,found,merged⟩ := bind_ok.mp merged
  obtain ⟨both,unified,merged⟩ := bind_ok.mp merged
  obtain ⟨typed,before⟩ := holds _ _ (Table.get_ok.mp found)
  split at merged
  · cases merged; exact holds
  · cases merged
    exact holds_set holds typed (Fact.unify_accepts unified before accept)

theorem accept_of_holds {os : List Outlet} (holds : Holds table v) (read : os.mapM table.get = .ok fs) :
    Facts.Accept fs (os.map v) ∧ ∀ o ∈ os, (v o).Typed := by
  rw [mapM_ok] at read
  rw [Facts.accept_map]
  induction read with
  | nil => exact ⟨.nil,nofun⟩
  | cons first _ ih =>
    obtain ⟨typed,accept⟩ := holds _ _ (Table.get_ok.mp first)
    exact ⟨.cons accept ih.1,List.forall_mem_cons.mpr ⟨typed,ih.2⟩⟩

theorem visit_holds {n : Node} (rule : RuleHolds n v) (exec : g.Execution v) (member : n ∈ g.nodes)
    (holds : Holds table v) (visited : visit settings g table n = .ok (table',changed)) :
    Holds table' v := by
  unfold visit at visited
  obtain ⟨ins,readIns,visited⟩ := bind_ok.mp visited
  obtain ⟨outs,readOuts,visited⟩ := bind_ok.mp visited
  rw [mapError_ok] at visited
  obtain ⟨⟨newIns,newOuts⟩,applied,merged⟩ := bind_ok.mp visited
  obtain ⟨acceptIns,typed⟩ := accept_of_holds holds readIns
  obtain ⟨keptIns,keptOuts⟩ := applyRule_accept rule exec member typed acceptIns
    (accept_of_holds holds readOuts).1 applied
  rw [Facts.accept_map] at keptIns keptOuts
  refine foldlM_keeps (P := fun s => Holds s.1 v) ?_ holds merged
  intro state news state' around kept
  refine merge_holds kept ?_
  rcases List.mem_append.mp around with input | output
  · exact List.forall₂_zip keptIns.flip input
  · exact List.forall₂_zip keptOuts.flip output

-- Induction over the visits of a run: what each visit keeps, the run keeps. A visit may rely on where the rest of
-- the run ends.
theorem propagate_keeps_until {P : FactTable → Prop} {last : FactTable}
    (step : ∀ n ∈ g.nodes, ∀ t t' changed fuel steps queue, P t → visit settings g t n = .ok (t',changed) →
      propagate settings g fuel steps t' queue = .ok (last,count) → P t')
    {fuel steps : Nat} {queue : List Int} (start : P table)
    (ran : propagate settings g fuel steps table queue = .ok (last,count)) : P last := by
  induction fuel generalizing steps table queue with
  | zero =>
    cases queue with
    | nil => cases ran; exact start
    | cons id queue => cases ran
  | succ fuel ih =>
    cases queue with
    | nil => cases ran; exact start
    | cons id queue =>
      unfold propagate at ran
      obtain ⟨n,found,ran⟩ := bind_ok.mp ran
      obtain ⟨⟨next,changed⟩,visited,ran⟩ := bind_ok.mp ran
      exact ih (step n (Graph.get?_mem (Graph.node_ok.mp found)) _ _ _ _ _ _ start visited ran) ran

theorem propagate_keeps {P : FactTable → Prop}
    (step : ∀ n ∈ g.nodes, ∀ t t' changed, P t → visit settings g t n = .ok (t',changed) → P t')
    {fuel steps : Nat} {queue : List Int} (start : P table)
    (ran : propagate settings g fuel steps table queue = .ok (table',count)) : P table' :=
  propagate_keeps_until (fun n member t t' changed _ _ _ kept visited _ => step n member t t' changed kept visited) start ran

def firstQueue (g : Graph) (order : List Int) : List Int := (order ++ g.ids).foldl enqueue []

-- A run in parts: the graph is valid, the table is seeded, and the queue runs empty.
theorem run_parts (ran : run settings g order = .ok a) : g.validate = .ok () ∧ a.graph = g.serial ∧
    ∃ start, seed g = .ok start ∧
      propagate settings g settings.maxSteps 0 start (firstQueue g order) = .ok (a.facts,a.iterations) := by
  unfold run at ran
  obtain ⟨⟨⟩,valid,ran⟩ := bind_ok.mp ran
  obtain ⟨start,seeded,ran⟩ := bind_ok.mp ran
  obtain ⟨⟨⟩,known,ran⟩ := bind_ok.mp ran
  obtain ⟨⟨table,steps⟩,propagated,equal⟩ := bind_ok.mp ran
  cases equal
  exact ⟨valid,rfl,start,seeded,propagated⟩

theorem seedNode_holds (exec : g.Execution v) {n : Node} (member : n ∈ g.nodes)
    (first : g.isInput n.id = true → (⟨n.id,0⟩ : Outlet) ∈ n.outlets) (holds : Holds table v)
    (seeded : seedNode g table n = .ok table') : Holds table' v := by
  have typed := exec.typed n member
  have opened : Holds (n.outlets.foldl (fun t o => t.set o .unknown) table) v :=
    List.foldlRecOn (motive := (Holds · v)) _ _ holds fun _ kept o outlet =>
      holds_set kept (typed o outlet) (Fact.unknown_accepts _)
  unfold seedNode at seeded
  dsimp only at seeded
  split at seeded
  · rename_i designated
    obtain ⟨f,declared,equal⟩ := bind_ok.mp seeded
    cases equal
    exact holds_set opened (typed _ (first designated)) (exec.fed n member designated f declared)
  · rename_i computed
    split at seeded
    · rename_i const
      obtain ⟨values,evaluated,equal⟩ := bind_ok.mp seeded
      cases equal
      -- what the constant gives without inputs is what it gives in the execution
      have outputs := n.operator.eval_const const _ _ _
        (exec.computed n member (by simpa using computed)) evaluated
      subst outputs
      have same : List.Forall₂ (fun o t => v o = t) n.outlets (n.outlets.map v) := by
        rw [List.forall₂_map_right_iff,List.forall₂_same]
        exact fun _ _ => rfl
      refine List.foldlRecOn (motive := (Holds · v)) _ _ opened fun _ kept (o,t) outlet => ?_
      have equal : v o = t := List.forall₂_zip same outlet
      subst equal
      have typed := typed o (List.of_mem_zip outlet).1
      exact holds_set kept typed (Fact.accepts_constant.mpr (Tensor.same_self typed))
    · cases seeded
      exact opened

theorem seed_holds (exec : g.Execution v)
    (first : ∀ n ∈ g.nodes, g.isInput n.id = true → (⟨n.id,0⟩ : Outlet) ∈ n.outlets) (seeded : seed g = .ok table) :
    Holds table v :=
  foldlM_keeps (P := (Holds · v)) (fun _ n _ member => seedNode_holds exec member (first n member))
    (fun _ _ entry => by simp at entry) seeded

-- Entries are replaced but never removed.
def Covers (n : Node) (table : FactTable) : Prop := ∀ o ∈ n.outlets, (table.get? o).isSome = true

theorem isSome_foldl_set {entries : List β} {o : β → Outlet} {f : β → Fact}
    (found : (table.get? p).isSome = true) :
    ((entries.foldl (fun t e => t.set (o e) (f e)) table).get? p).isSome = true :=
  List.foldlRecOn (motive := fun t : FactTable => (t.get? p).isSome = true) _ _ found
    fun _ kept _ _ => Table.isSome_set kept

theorem covers_foldl_set {os : List Outlet} {f : Outlet → Fact} :
    ∀ o ∈ os, ((os.foldl (fun t o => t.set o (f o)) table).get? o).isSome = true := by
  induction os generalizing table with
  | nil => exact nofun
  | cons o os ih =>
    have here : ((table.set o (f o)).get? o).isSome = true := by simp [Table.get?_set]
    refine List.forall_mem_cons.mpr ⟨?_,ih⟩
    rw [List.foldl_cons]
    exact isSome_foldl_set here

theorem seedNode_entries {n : Node} (seeded : seedNode g table n = .ok table') :
    Covers n table' ∧ ∀ o, (table.get? o).isSome = true → (table'.get? o).isSome = true := by
  have opened : Covers n (n.outlets.foldl (fun t o => t.set o .unknown) table) := covers_foldl_set
  unfold seedNode at seeded
  dsimp only at seeded
  split at seeded
  · obtain ⟨f,-,equal⟩ := bind_ok.mp seeded
    cases equal
    exact ⟨fun o outlet => Table.isSome_set (opened o outlet),
      fun o found => Table.isSome_set (isSome_foldl_set found)⟩
  · split at seeded
    · obtain ⟨values,-,equal⟩ := bind_ok.mp seeded
      cases equal
      exact ⟨fun o outlet => isSome_foldl_set (opened o outlet),
        fun o found => isSome_foldl_set (isSome_foldl_set found)⟩
    · cases seeded
      exact ⟨opened,fun o found => isSome_foldl_set found⟩

theorem visit_entries {n : Node} (visited : visit settings g table n = .ok (table',changed))
    (found : (table.get? o).isSome = true) : (table'.get? o).isSome = true := by
  unfold visit at visited
  obtain ⟨ins,-,visited⟩ := bind_ok.mp visited
  obtain ⟨outs,-,visited⟩ := bind_ok.mp visited
  rw [mapError_ok] at visited
  obtain ⟨_,-,merged⟩ := bind_ok.mp visited
  refine foldlM_keeps (P := fun s => (s.1.get? o).isSome = true) ?_ found merged
  intro state news state' _ kept merged
  unfold merge at merged
  obtain ⟨old,-,merged⟩ := bind_ok.mp merged
  obtain ⟨both,-,merged⟩ := bind_ok.mp merged
  split at merged
  · cases merged; exact kept
  · cases merged; exact Table.isSome_set kept

theorem seed_covers (seeded : seed g = .ok table) : ∀ n ∈ g.nodes, Covers n table :=
  foldlM_establishes (Q := Covers) (fun _ _ _ step => (seedNode_entries step).1)
    (fun _ _ _ _ step covered o outlet => (seedNode_entries step).2 o (covered o outlet)) seeded

theorem run_covers (ran : run settings g order = .ok a) : ∀ n ∈ g.nodes, Covers n a.facts := by
  obtain ⟨-,-,start,seeded,propagated⟩ := run_parts ran
  intro n member o outlet
  exact propagate_keeps (P := fun t => (t.get? o).isSome = true)
    (fun _ _ _ _ _ found visited => visit_entries visited found) (seed_covers seeded n member o outlet)
    propagated

theorem run_holds (rules : g.SoundRules) (exec : g.Execution v) (ran : run settings g order = .ok a) :
    Holds a.facts v := by
  obtain ⟨-,-,start,seeded,propagated⟩ := run_parts ran
  have first : ∀ n ∈ g.nodes, g.isInput n.id = true → (⟨n.id,0⟩ : Outlet) ∈ n.outlets := by
    intro n member designated
    obtain ⟨_,operator,-⟩ := rules.inputs n member designated
    exact outlets_placeholder operator ▸ List.mem_singleton_self _
  exact propagate_keeps (P := (Holds · v))
    (fun _ member _ _ _ holds visited => visit_holds (rule_holds rules exec member) exec member holds visited)
    (seed_holds exec first seeded) propagated

-- What an analysis finds holds of every execution of the graph, whatever the order of visits.
theorem run_accepts_execution (rules : g.SoundRules) (ran : run settings g order = .ok a)
    (exec : g.Execution v) :
    (∀ n ∈ g.nodes, ∀ o ∈ n.outlets, ∃ f, a.fact g o = .ok f ∧ f.accepts (v o) = true) ∧
      ∀ o f, a.facts.get? o = some f → f.accepts (v o) = true := by
  have holds := run_holds rules exec ran
  refine ⟨?_,fun o f found => (holds o f found).2⟩
  intro n member o outlet
  obtain ⟨f,found⟩ := Option.isSome_iff_exists.mp (run_covers ran n member o outlet)
  exact ⟨f,by simp [fact,found],(holds o f found).2⟩

-- Hands on its first input. The rule passes on the type and the shape, so a value can only get
-- through by evaluation.
def relay : Operator where
  opType := "Relay"
  arity := .variadic
  outputCount := 1
  describe := "Relay"
  eval ts := match ts with
    | t :: _ => .ok [t]
    | [] => fail (.unworded .index)
  infer ins outs := match ins,outs with
    | x :: _,[out] => do return (ins,[← out.unify (.outline x.dtype x.shape)])
    | _,_ => .ok (ins,outs)

theorem relay_sound : relay.Sound := by
  intro ins outs newIns newOuts ts os evaluated acceptIns acceptOuts inferred _ _
  cases acceptIns with
  | nil => cases evaluated
  | @cons x t ins ts first rest =>
    cases evaluated
    cases acceptOuts with
    | cons out none =>
      cases none
      obtain ⟨_,unified,equal⟩ := bind_ok.mp inferred
      cases equal
      obtain ⟨dtype,shape,-⟩ := Fact.accepts_parts.mp first
      exact ⟨.cons first rest,
        .cons (Fact.unify_accepts unified out (Fact.accepts_outline.mpr ⟨dtype,shape⟩)) .nil⟩

theorem const_sound {c : Tensor} (typed : c.Typed) : (Op.const c).operator.Sound := by
  intro ins outs newIns newOuts ts os evaluated acceptIns acceptOuts inferred _ _
  cases ts with
  | cons => cases evaluated
  | nil =>
    cases evaluated
    obtain ⟨out,unified,equal⟩ := bind_ok.mp inferred
    cases equal
    cases acceptOuts with
    | cons first rest =>
      cases rest
      have same := Fact.accepts_constant.mpr (Tensor.same_self typed)
      exact ⟨acceptIns,.cons (Fact.unify_accepts unified first same) .nil⟩

-- A stream that is fed beside a constant; one node takes an outlet twice.
def one : Tensor := ⟨.f64,[1],[.float .one]⟩
def pair : Tensor := ⟨.f64,[2],[.float .one,.float .zero]⟩
def stream : Fact := .outline (some .f64) (some [.streaming])

def relayed : Graph where
  serial := 0
  name := "relayed"
  nodes := [⟨0,"x",(Op.placeholder stream).operator,[]⟩,⟨1,"c",(Op.const one).operator,[]⟩,
    ⟨2,"twice",relay,[⟨1,0⟩,⟨1,0⟩]⟩,⟨3,"both",relay,[⟨0,0⟩,⟨2,0⟩]⟩]
  inputFacts := [(0,stream)]
  outputs := [⟨3,0⟩]

def relayedTensors (o : Outlet) : Tensor := if o.node = 0 ∨ o.node = 3 then pair else one

theorem one_typed : one.Typed := by simp [one,Tensor.Typed]
theorem pair_typed : pair.Typed := by simp [pair,Tensor.Typed]

theorem relayed_rules : relayed.SoundRules := by
  constructor
  · intro n member designated
    simp only [relayed,List.mem_cons,List.not_mem_nil,or_false] at member
    rcases member with rfl | rfl | rfl | rfl
    · exact ⟨stream,rfl,rfl⟩
    all_goals cases designated
  · intro n member designated
    simp only [relayed,List.mem_cons,List.not_mem_nil,or_false] at member
    rcases member with rfl | rfl | rfl | rfl
    · cases designated
    · exact const_sound one_typed
    all_goals exact relay_sound

theorem relayed_execution : relayed.Execution relayedTensors := by
  refine ⟨?_,?_,?_⟩
  · intro n member designated f declared
    simp only [relayed,List.mem_cons,List.not_mem_nil,or_false] at member
    rcases member with rfl | rfl | rfl | rfl
    · cases declared; rfl
    all_goals cases designated
  · intro n member designated
    simp only [relayed,List.mem_cons,List.not_mem_nil,or_false] at member
    rcases member with rfl | rfl | rfl | rfl
    · cases designated
    all_goals rfl
  · intro n _ o _
    unfold relayedTensors
    split
    · exact pair_typed
    · exact one_typed

def relayedAnalysis : Analysis where
  graph := 0
  facts := ⟨[(⟨0,0⟩,stream),(⟨1,0⟩,.constant one),(⟨2,0⟩,.constant one),
    (⟨3,0⟩,stream)]⟩
  iterations := 6

theorem relayed_run : run .standard relayed [3,0] = .ok relayedAnalysis := by rfl

theorem run_accepts_relayed : run .standard relayed [3,0] = .ok relayedAnalysis ∧
    ∀ n ∈ relayed.nodes, ∀ o ∈ n.outlets,
      ∃ f, relayedAnalysis.fact relayed o = .ok f ∧ f.accepts (relayedTensors o) = true :=
  ⟨relayed_run,(run_accepts_execution relayed_rules relayed_run relayed_execution).1⟩

end Analysis

end TensorGraph
