import TensorGraph.Proofs.Analysis.Orders
import TensorGraph.Proofs.Graph.Calls
import TensorGraph.Proofs.Op.Folding

namespace TensorGraph
open Outcome

-- Every node has a built-in operator.
def Graph.BuiltIn (g : Graph) : Prop := ∀ n ∈ g.nodes, ∃ o : Op, n.operator = o.operator

namespace Analysis

variable {g : Graph} {settings : AnalysisSettings} {table table' : FactTable} {n : Node} {o : Op}
  {f : Fault} {ins outs : Facts} {queue order : List Int}

-- A fault of the analysis that names the node it was found at.
structure LocatedAt (n : Node) (f : Fault) : Prop where
  kind : f.kind = .analysis
  node : f.node = some (n.id : Int)
  name : f.nodeName = some n.name
  opType : f.opType = some n.opType

-- Faults of kinds that a node does not report as its own.
def Raw (k : Kind) : Prop := k = .overflow ∨ k = .zeroDivision ∨ k = .index

-- A fault of a node's rule, or of folding it, that comes out as it was raised.
def Escaped (settings : AnalysisSettings) (g : Graph) (n : Node) (f : Fault) : Prop :=
  Raw f.kind ∧ ∃ o : Op, n.operator = o.operator ∧ ∃ ins outs,
    applyRule settings g n ins outs = .error f ∧
      (o.infer ins outs = .error f ∧ o.RuleEscapes n.inputs.length f.kind ∨
        ∃ ts, o.eval ts = .error f ∧ o.EvalEscapes ts f.kind)

-- All that keeps an analysis from returning.
inductive Failure (settings : AnalysisSettings) (g : Graph) (f : Fault) : Prop where
  | rejected (invalid : g.validate = .error f) (kind : f.kind = .invalidInput)
  | stopped (limit : f.cause = .noFixpoint settings.maxSteps) (code : f.statedCode = some "EANALYSIS_LIMIT")
  | located (n : Node) (member : n ∈ g.nodes) (at_ : LocatedAt n f)
  | escaped (n : Node) (member : n ∈ g.nodes) (out : Escaped settings g n f)

theorem located_reported (reported : f.kind.isReported = true) (ins outs : Facts) :
    LocatedAt n (located n ins outs f) := by
  unfold Kind.isReported at reported
  simp only [Bool.and_eq_true,bne_iff_ne] at reported
  unfold located Fault.isBadValue
  rw [if_neg (by simpa using reported.1),if_pos reported.2]
  exact ⟨rfl,rfl,rfl,rfl⟩

theorem located_raw (raw : Raw f.kind) : located n ins outs f = f := by
  unfold located Fault.isBadValue
  rcases raw with kind | kind | kind <;> rw [kind] <;> rfl

theorem raw_of_rule {k : Kind} {inputs : Nat} (escapes : o.RuleEscapes inputs k) : Raw k := by
  unfold Raw
  cases o <;> simp only [Op.RuleEscapes] at escapes <;> grind

theorem raw_of_eval {k : Kind} {ts : List Tensor} (escapes : o.EvalEscapes ts k) : Raw k := by
  unfold Raw
  cases o <;> simp only [Op.EvalEscapes] at escapes <;> grind

theorem unifyEach_reports (as bs : Facts) : Reports (unifyEach as bs) :=
  raises_mapM fun _ _ => Fact.unify_reports _ _

-- What applying a rule raises: a complaint about numbers of facts, which names the node already, what the
-- node reports, or what its rule or its evaluation lets through.
theorem applyRule_fault (operator : n.operator = o.operator) (failed : applyRule settings g n ins outs = .error f) :
    f.kind.isReported = true ∨ LocatedAt n f ∧ located n ins outs f = f ∨
      o.infer ins outs = .error f ∧ o.RuleEscapes ins.length f.kind ∨
        ∃ ts, o.eval ts = .error f ∧ o.EvalEscapes ts f.kind := by
  have eval : n.operator.eval = o.eval := by rw [operator]; rfl
  have infer : n.operator.infer = o.infer := by rw [operator]; rfl
  unfold applyRule at failed
  rw [infer,eval] at failed
  rcases bind_error.mp failed with rule | ⟨⟨ruleIns,ruleOuts⟩,-,failed⟩
  · rcases o.infer_raises ins outs f rule with reported | escapes
    · exact .inl reported
    · exact .inr (.inr (.inl ⟨rule,escapes⟩))
  dsimp only at failed
  split at failed
  · cases failed
    exact .inr (.inl ⟨⟨rfl,rfl,rfl,rfl⟩,rfl⟩)
  rcases bind_error.mp failed with conflict | ⟨newIns,-,failed⟩
  · exact .inl (unifyEach_reports _ _ f conflict)
  rcases bind_error.mp failed with conflict | ⟨newOuts,-,failed⟩
  · exact .inl (unifyEach_reports _ _ f conflict)
  split at failed
  · rcases bind_error.mp failed with evaluated | ⟨values,-,failed⟩
    · rcases o.eval_raises _ f evaluated with reported | escapes
      · exact .inl reported
      · exact .inr (.inr (.inr ⟨_,evaluated,escapes⟩))
    · rcases bind_error.mp failed with conflict | ⟨_,-,failed⟩
      · exact .inl (unifyEach_reports _ _ f conflict)
      · cases failed
  · cases failed

-- Entering what a rule found fails only where it contradicts what was known.
theorem merges_reports {news : List (Outlet × Fact)} {state : FactTable × List Outlet}
    (known : ∀ p ∈ news, (state.1.get? p.1).isSome = true) : Reports (news.foldlM merge state) := by
  intro e failed
  obtain ⟨start,changed⟩ := state
  obtain ⟨before,p,after,s,rfl,ran,failed⟩ := foldlM_error failed
  obtain ⟨_,-,entered⟩ := merges_entered ran
  obtain ⟨old,found⟩ := Option.isSome_iff_exists.mp (known p (by simp))
  obtain ⟨now,found,-⟩ := entered.grown _ _ found
  unfold merge at failed
  dsimp only at failed
  rw [Table.get_ok.mpr found,ok_bind] at failed
  rcases bind_error.mp failed with conflict | ⟨_,-,failed⟩
  · exact Fact.unify_reports _ _ e conflict
  · split at failed <;> cases failed

-- A visit that fails has found something at its node.
theorem visit_fault (operator : n.operator = o.operator) (covered : ∀ p ∈ around n, (table.get? p).isSome = true)
    (failed : visit settings g table n = .error f) : LocatedAt n f ∨ Escaped settings g n f := by
  have reads : ∀ os : List Outlet, (∀ p ∈ os, p ∈ around n) → ∃ fs, os.mapM table.get = .ok fs ∧ fs.length = os.length := by
    intro os near
    obtain ⟨fs,read⟩ : ∃ fs, List.Forall₂ (fun p f => table.get p = .ok f) os fs := exists_forall₂ fun p member => by
      obtain ⟨f,found⟩ := Option.isSome_iff_exists.mp (covered p (near p member))
      exact ⟨f,Table.get_ok.mpr found⟩
    exact ⟨fs,mapM_ok.mpr read,read.length_eq.symm⟩
  obtain ⟨ins,readIns,count⟩ := reads n.inputs fun _ => List.mem_append_left _
  obtain ⟨outs,readOuts,-⟩ := reads n.outlets fun _ => List.mem_append_right _
  unfold visit at failed
  rw [readIns,ok_bind,readOuts,ok_bind] at failed
  dsimp only at failed
  obtain ⟨raised,stuck,rfl⟩ := mapError_error.mp failed
  rcases bind_error.mp stuck with applied | ⟨⟨newIns,newOuts⟩,-,merged⟩
  · rcases applyRule_fault operator applied with reported | ⟨there,same⟩ | ⟨rule,escapes⟩ | ⟨ts,evaluated,escapes⟩
    · exact .inl (located_reported reported ins outs)
    · exact .inl (same.symm ▸ there)
    · have raw := raw_of_rule escapes
      rw [located_raw raw]
      exact .inr ⟨raw,o,operator,ins,outs,applied,.inl ⟨rule,count ▸ escapes⟩⟩
    · have raw := raw_of_eval escapes
      rw [located_raw raw]
      exact .inr ⟨raw,o,operator,ins,outs,applied,.inr ⟨ts,evaluated,escapes⟩⟩
  · refine .inl (located_reported (merges_reports (fun p named => ?_) raised merged) ins outs)
    exact covered p.1 (named_around (List.mem_map.mpr ⟨p,named,rfl⟩))

theorem seedNode_total (operator : n.operator = o.operator) (table : FactTable) :
    ∃ table', seedNode g table n = .ok table' := by
  unfold seedNode
  dsimp only
  split
  · rename_i designated
    obtain ⟨f,declared⟩ : ∃ f, g.inputFact n.id = .ok f := by
      unfold Graph.inputFact
      cases found : g.inputFacts.lookup (n.id : Int) with
      | some f => exact ⟨f,rfl⟩
      | none =>
        rw [List.lookup_eq_none_iff] at found
        obtain ⟨p,member,same⟩ := List.mem_map.mp (List.contains_iff_mem.mp designated)
        exact absurd (found p member) (by simp [same])
    rw [declared]
    exact ⟨_,rfl⟩
  · rw [operator]
    cases o <;> exact ⟨_,rfl⟩

theorem seed_total (builtIn : g.BuiltIn) : ∃ start, seed g = .ok start := by
  refine foldlM_total (fun table n member => ?_) _
  obtain ⟨o,operator⟩ := builtIn n member
  exact seedNode_total operator table

-- The loop is stopped at its limit or fails at a node.
theorem propagate_fault (wired : g.Wired) (builtIn : g.BuiltIn) {fuel : Nat} (steps : Nat)
    (covered : ∀ n ∈ g.nodes, Covers n table) (known : ∀ id ∈ queue, g.Known id)
    (failed : propagate settings g fuel steps table queue = .error f) : Failure settings g f := by
  induction fuel generalizing steps table queue with
  | zero =>
    cases queue with
    | nil => cases failed
    | cons id queue =>
      cases failed
      exact .stopped rfl rfl
  | succ fuel ih =>
    cases queue with
    | nil => cases failed
    | cons id queue =>
      obtain ⟨⟨n,found⟩,rest⟩ := List.forall_mem_cons.mp known
      have member := Graph.get?_mem found
      unfold propagate at failed
      rw [Graph.node_ok.mpr found,ok_bind] at failed
      rcases bind_error.mp failed with visited | ⟨⟨table',changed⟩,visited,failed⟩
      · obtain ⟨o,operator⟩ := builtIn n member
        refine (visit_fault operator (fun p near => ?_) visited).elim (.located n member) (.escaped n member)
        obtain ⟨m,there,outlet⟩ := around_outlets wired member p near
        exact covered m there p outlet
      · exact ih (steps + 1) (fun m there p outlet => visit_entries visited (covered m there p outlet))
          (visited_known wired member visited rest) failed

-- An analysis of built-in operators returns or fails for one of four reasons: the graph is not valid, the
-- visits are used up, a node reports a fault and is named in it, or a fault of an operator that divides by a
-- stride, compares ranks by looking extents up, or fits numbers into a type is not reported at all.
theorem run_failures (built : Graph.Built g) (builtIn : g.BuiltIn) (known : ∀ id ∈ order, g.Known id) :
    (∃ a, run settings g order = .ok a) ∨ ∃ f, run settings g order = .error f ∧ Failure settings g f := by
  have inv := Graph.built_invariant built
  cases valid : g.validate with
  | error f =>
    refine .inr ⟨f,?_,.rejected valid ?_⟩
    · unfold run
      rw [valid]
      rfl
    · obtain ⟨n,-,-,-,equal⟩ := Graph.validate_fault inv valid
      cases equal
      rfl
  | ok _ =>
    obtain ⟨start,seeded⟩ := seed_total builtIn
    have waiting : ∀ id ∈ firstQueue g order, g.Known id :=
      fun id waits => Graph.mem_ids.mp ((firstQueue_perm known).mem_iff.mp waits)
    rw [run_eq valid seeded known]
    cases ran : propagate settings g settings.maxSteps 0 start (firstQueue g order) with
    | ok reached => exact .inl ⟨_,rfl⟩
    | error f => exact .inr ⟨f,rfl,propagate_fault inv.toWired builtIn 0 (seed_covers seeded) waiting ran⟩

-- A window that stands still: the number of its positions is a quotient by zero.
def still : Patch := ⟨(1,1),(0,0),(1,1),.valid,false⟩
def cell : Fact := .outline (some .f64) (some [.known 1,.known 1,.known 1,.known 1])

def stalledPart (count : Nat) : Graph :=
  ⟨0,"stalled",[⟨0,"x",(Op.placeholder cell).operator,[]⟩,⟨1,"pool",(Op.pool .max still).operator,[⟨0,0⟩]⟩].take count,
    [],[]⟩

def stalled : Graph := { stalledPart 2 with inputFacts := [(0,cell)], outputs := [⟨1,0⟩] }

theorem stalled_built : stalled.Built := by
  have x : (stalledPart 1).Built := .addNode (.empty 0 "stalled")
    (show (Graph.empty 0 "stalled").addNode (Op.placeholder cell).operator [] (some "x") =
      .ok (stalledPart 1,0) from rfl)
  have pool : (stalledPart 2).Built := .addNode x
    (show (stalledPart 1).addNode (Op.pool .max still).operator [⟨0,0⟩] (some "pool") =
      .ok (stalledPart 2,1) from rfl)
  have fed : ({ stalledPart 2 with inputFacts := [(0,cell)] } : Graph).Built := .designateInput pool
    (show (stalledPart 2).designateInput 0 none = .ok (_,cell) from rfl)
  exact .designateOutput fed
    (show Graph.designateOutput { stalledPart 2 with inputFacts := [(0,cell)] } ⟨1,0⟩ = .ok stalled from rfl)

theorem stalled_builtIn : stalled.BuiltIn := by
  intro n member
  simp only [stalled,stalledPart,List.take,List.mem_cons,List.not_mem_nil,or_false] at member
  rcases member with rfl | rfl
  · exact ⟨_,rfl⟩
  · exact ⟨_,rfl⟩

theorem stalled_known : ∀ id ∈ ([1] : List Int), stalled.Known id := by
  intro id member
  obtain rfl := List.mem_singleton.mp member
  exact ⟨_,rfl⟩

theorem run_failures_stalled : stalled.Built ∧ stalled.BuiltIn ∧ (∀ id ∈ ([1] : List Int), stalled.Known id) ∧
    ((∃ a, run .standard stalled [1] = .ok a) ∨
      ∃ f, run .standard stalled [1] = .error f ∧ Failure .standard stalled f) :=
  ⟨stalled_built,stalled_builtIn,stalled_known,run_failures stalled_built stalled_builtIn stalled_known⟩

-- The quotient comes out as it is, without a node.
theorem run_unlocated : ¬ ∀ g : Graph, g.Built → g.BuiltIn → ∀ (settings : AnalysisSettings) (order : List Int),
    (∀ id ∈ order, g.Known id) → (∃ a, run settings g order = .ok a) ∨ ∃ f, run settings g order = .error f ∧
      f.kind.isLocal = true := by
  intro claim
  have ran : run .standard stalled [1] = .error (Cause.unworded .zeroDivision : Fault) := by rfl
  rcases claim stalled stalled_built stalled_builtIn .standard [1] stalled_known with ⟨a,other⟩ | ⟨f,other,is_local⟩
  · cases ran.symm.trans other
  · cases ran.symm.trans other
    cases is_local

end Analysis

end TensorGraph
