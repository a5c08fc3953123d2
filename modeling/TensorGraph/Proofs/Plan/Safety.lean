import TensorGraph.Proofs.Analysis.Constants
import TensorGraph.Proofs.Op.Meets
import TensorGraph.Proofs.Plan.Refinement

namespace TensorGraph
open Outcome Facts

namespace Analysis

variable {g : Graph} {settings : AnalysisSettings} {table : FactTable} {n : Node} {op : Op}

-- Where nothing more becomes known, the facts of a node's output say what its rule answers.
theorem stable_shows (operator : n.operator = op.operator) (stable : Stable settings g table n) :
    ∃ ins out r, n.inputs.mapM table.get = .ok ins ∧ table.get ⟨n.id,0⟩ = .ok out ∧ op.infer ins [out] = .ok r ∧
      List.Forall₂ Fact.Shows r.2 [out] := by
  obtain ⟨ins,outs,newIns,newOuts,readIns,readOuts,applied,merged⟩ := visit_parts stable
  obtain ⟨more,equal,entered⟩ := merges_entered merged
  obtain ⟨-,quiet⟩ := entered.quiet (by simpa using equal.symm)
  rw [outlets_operator operator] at readOuts quiet
  obtain ⟨out,readOut,rfl⟩ := mapM_one readOuts
  obtain ⟨ruleIns,ruleOuts,mids,inferred,-,length,-,unified,folded⟩ := applyRule_parts applied
  rw [operator] at inferred folded
  obtain ⟨y,rfl⟩ := List.length_eq_one_iff.mp length
  obtain ⟨m,joined,rfl⟩ := mapM_one unified
  refine ⟨ins,out,_,readIns,readOut,inferred,.cons ?_ .nil⟩
  have kept : ∃ z, newOuts = [z] ∧ m.Shows z := by
    split at folded
    · obtain ⟨vs,evaluated,joined⟩ := folded
      obtain ⟨w,rfl⟩ := Op.eval_single evaluated
      obtain ⟨z,last,rfl⟩ := mapM_one joined
      exact ⟨z,rfl,(Fact.unify_left last).shows⟩
    · exact ⟨m,folded,m.below_refl.shows⟩
  obtain ⟨z,rfl,kept⟩ := kept
  obtain ⟨old,new,found,learned,same⟩ := quiet (⟨n.id,0⟩,z) (List.mem_append_right _ (List.mem_singleton_self _))
  cases (Table.get_ok.mp readOut).symm.trans found
  exact (Fact.unify_shows joined).trans (kept.trans ((Fact.unify_shows learned).trans (Fact.shows_of_same same)))

end Analysis

-- The constant that is foreseen is what comes, or equal to it where equal is enough.
structure Fact.Foretells (equal : Prop) (f : Fact) (t : Tensor) : Prop extends f.Tells t where
  value : ∀ v, f.value = some v → t = v ∨ equal ∧ v.same t = true

theorem Op.targeted {op : Op} {equal : Prop} {ins : Facts} {ts : List Tensor}
    (foretold : List.Forall₂ (Fact.Foretells equal) ins ts) : op.Targeted ins ts := by
  unfold Op.Targeted
  split
  · intro known value
    cases foretold with
    | cons _ rest =>
      cases rest with
      | cons target _ =>
        rcases target.value known value with rfl | ⟨-,same⟩
        · rfl
        · exact (Reshape.targetOf_same same).symm
  · trivial

-- What an operator yields ahead of a run is what it computes in the run.
theorem Op.Yields.evaluates {op : Op} {ins : Facts} {ts us : List Tensor} {v : Tensor} (yields : op.Yields ins v)
    (foretold : List.Forall₂ (Fact.Foretells False) ins ts) (ran : op.eval ts = .ok us) : us = [v] := by
  cases yields with
  | @evaluated _ _ vs _ known evaluated =>
    have same : ts = vs := by
      clear ran evaluated
      induction foretold generalizing vs with
      | nil =>
        cases List.map_eq_nil_iff.mp known.symm
        rfl
      | cons first _ ih =>
        obtain ⟨u,rest,rfl,head,later⟩ := List.map_eq_cons_iff.mp known.symm
        rw [(first.value u head.symm).resolve_right (fun no => no.1),ih later.symm]
    rw [same,evaluated] at ran
    cases ran
    rfl
  | declared => cases ran
  | measured known =>
    cases foretold with
    | cons first rest =>
      cases rest
      rw [first.extents] at known
      cases known
      cases ran
      rfl

namespace Plan

variable {p : Plan} {g : Graph} {a : Analysis} {bound : Bindings} {config : PlanSettings} {settings : AnalysisSettings}
  {order : List Int} {refs : Option (List OutletRef)} {feeds : Feeds} {n : Node} {id : Int} {t : Tensor}

theorem receive_accepts (analysed : p.analysis = some a) (validates : p.settings.validateInputs = true) {value : Attribute}
    (received : p.receive g n value = .ok t) {f : Fact} (fact : a.facts.get? ⟨n.id,0⟩ = some f) : f.accepts t = true := by
  obtain ⟨declared,-,received⟩ := bind_ok.mp received
  obtain ⟨u,-,received⟩ := bind_ok.mp received
  rw [if_pos validates] at received
  obtain ⟨fs,facts,received⟩ := bind_ok.mp received
  obtain ⟨⟨⟩,checked,equal⟩ := bind_ok.mp received
  cases equal
  obtain ⟨_,-,facts⟩ := bind_ok.mp facts
  rw [analysed] at facts
  obtain ⟨f',found,equal⟩ := bind_ok.mp facts
  cases equal
  cases fact.symm.trans (Analysis.fact_ok.mp found)
  exact Fact.accepts_check.mpr (mapError_ok.mp (forM_ok.mp checked f (by simp)))

theorem allConstant_of {os : List Outlet} (known : ∀ o ∈ os, ∃ f v, a.facts.get? o = some f ∧ f.value = some v) :
    allConstant a g os = .ok true := by
  induction os with
  | nil => rfl
  | cons o os ih =>
    obtain ⟨⟨f,v,fact,value⟩,rest⟩ := List.forall_mem_cons.mp known
    unfold allConstant
    rw [Analysis.fact_ok.mpr fact,ok_bind,if_pos (by rw [value]; rfl)]
    exact ih rest

theorem filterAuxM_keeps {f : α → Outcome Bool} {xs kept ys : List α} (ran : xs.filterAuxM f kept = .ok ys) :
    ∀ x, x ∈ kept ∨ x ∈ xs ∧ f x = .ok true → x ∈ ys := by
  induction xs generalizing kept with
  | nil =>
    cases ran
    rintro x (old | ⟨none,-⟩)
    · exact old
    · cases none
  | cons y xs ih =>
    unfold List.filterAuxM at ran
    obtain ⟨keep,checked,ran⟩ := bind_ok.mp ran
    rintro x (old | ⟨member,holds⟩)
    · refine ih ran x (.inl ?_)
      cases keep with
      | false => exact old
      | true => exact List.mem_cons_of_mem _ old
    · rcases List.mem_cons.mp member with rfl | later
      · rw [holds] at checked
        cases checked
        exact ih ran x (.inl List.mem_cons_self)
      · exact ih ran x (.inr ⟨later,holds⟩)

-- A plan that uses constants evaluates nothing that the analysis knows.
theorem make_folds (made : make config g refs (some a) = .ok p) (uses : config.useFoldedConstants = true)
    (scheduled : id ∈ p.schedule) (found : g.get? id = some n) (number : (n.id : Int) = id) (computed : g.isInput id = false)
    (known : ∀ o ∈ n.outlets, ∃ f v, a.facts.get? o = some f ∧ f.value = some v) : id ∈ p.folded := by
  obtain ⟨-,outputs,stop,order,constants,used,-,-,bounded,-,-,-,rfl⟩ := make_ok.mp made
  unfold boundary at bounded
  dsimp only at bounded
  rw [if_pos uses] at bounded
  obtain ⟨ns,filtered,equal⟩ := bind_ok.mp bounded
  cases equal
  obtain ⟨reversed,collected,equal⟩ := bind_ok.mp filtered
  cases equal
  subst number
  have candidate : n ∈ g.nodes.filter fun n => !g.isInput n.id :=
    List.mem_filter.mpr ⟨Graph.get?_mem found,by simpa using computed⟩
  have kept := filterAuxM_keeps collected n (.inr ⟨candidate,allConstant_of known⟩)
  refine List.mem_filter.mpr ⟨scheduled,?_⟩
  rw [List.contains_iff_mem]
  exact List.mem_map.mpr ⟨n,List.mem_reverse.mpr kept,rfl⟩

-- What evaluation asks for beyond the rules holds at the nodes that a run evaluates.
def Guarded (p : Plan) (g : Graph) (a : Analysis) : Prop :=
  ∀ id ∈ p.schedule, id ∉ p.folded → g.isInput id = false → ∀ n, g.get? id = some n →
    ∃ op, n.operator = Op.operator op ∧ ∀ ins outs, n.inputs.mapM a.facts.get = .ok ins →
      n.outlets.mapM a.facts.get = .ok outs → op.Guarded ins outs

-- Every outlet has an element type and all extents.
def Concrete (a : Analysis) (g : Graph) : Prop :=
  ∀ n ∈ g.nodes, ∀ o ∈ n.outlets, ∃ f, a.fact g o = .ok f ∧ f.isConcrete = true

-- Constants are taken from the analysis, or none is fed that equals others.
def Certain (config : PlanSettings) (g : Graph) (a : Analysis) : Prop :=
  config.useFoldedConstants = true ∨ ∀ id ∈ g.inputs, ∀ f, a.fact g ⟨id,0⟩ = .ok f → f.Typed

-- What the analysis foretells of an outlet comes true.
def Foretold (p : Plan) (a : Analysis) (o : Outlet) (t : Tensor) : Prop :=
  ∃ f, a.facts.get? o = some f ∧ f.Foretells (p.settings.useFoldedConstants = true) t

-- What the evaluations of a run may rely on.
structure Prepared (p : Plan) (g : Graph) (a : Analysis) (bound : Bindings) : Prop where
  inv : g.Invariant
  builtIn : g.BuiltIn
  analysed : p.analysis = some a
  stable : ∃ settings, ∀ n ∈ g.nodes, Analysis.Stable settings g a.facts n
  grounded : Analysis.Grounded g a.facts
  sources : ∀ id ∈ p.schedule, id ∉ p.folded → ∀ n, g.get? id = some n → ∀ o ∈ n.inputs, o.node ∈ p.schedule
  folds : p.settings.useFoldedConstants = true → ∀ id ∈ p.schedule, g.isInput id = false → ∀ n, g.get? id = some n →
    (∀ o ∈ n.outlets, ∃ f v, a.facts.get? o = some f ∧ f.value = some v) → id ∈ p.folded
  designated : ∀ id ∈ p.schedule, bound.lookup id = none → g.isInput id = false
  fed : ∀ id t, bound.lookup id = some t → Foretold p a ⟨id,0⟩ t
  guarded : Guarded p g a

theorem fed_foretold (inv : g.Invariant) (builtIn : g.BuiltIn) (concrete : Concrete a g)
    (made : make config g refs (some a) = .ok p) (validates : config.validateInputs = true) (certain : Certain config g a)
    (accepted : p.bind g feeds = .ok bound) (fed : bound.lookup id = some t) : Foretold p a ⟨id,0⟩ t := by
  obtain ⟨-,settled,analysed⟩ := make_laid inv.toWired made
  obtain ⟨designated,n,value,found,-,received⟩ := (bind_lookup inv.toWired accepted id t).mp fed
  have number := inv.numbered.id_eq found
  subst number
  have member := Graph.get?_mem found
  obtain ⟨op,operator⟩ := builtIn n member
  obtain ⟨f,fact,whole⟩ := concrete n member ⟨n.id,0⟩ (by rw [Analysis.outlets_operator operator]; exact List.mem_singleton_self _)
  have entry := Analysis.fact_ok.mp fact
  have accept := receive_accepts analysed (settled ▸ validates) received entry
  refine ⟨f,entry,Fact.tells_accepted whole accept,fun v value => ?_⟩
  have same := Fact.accepts_value accept value
  rcases certain with uses | typed
  · exact .inr ⟨settled ▸ uses,same⟩
  · exact .inl (Tensor.eq_of_same_left (typed n.id (mem_inputs.mp designated) f fact v value) same).symm

theorem prepared (inv : g.Invariant) (builtIn : g.BuiltIn) (ran : Analysis.run settings g order = .ok a)
    (concrete : Concrete a g) (made : make config g refs (some a) = .ok p) (validates : config.validateInputs = true)
    (certain : Certain config g a) (accepted : p.bind g feeds = .ok bound) (guarded : Guarded p g a) :
    Prepared p g a bound := by
  obtain ⟨laid,settled,analysed⟩ := make_laid inv.toWired made
  refine ⟨inv,builtIn,analysed,⟨settings,Analysis.run_stable inv.numbered ran⟩,Analysis.run_grounded inv builtIn ran,
    ?_,?_,?_,fun id t => fed_foretold inv builtIn concrete made validates certain accepted,guarded⟩
  · intro id scheduled computed n found o source
    obtain ⟨before,after,split⟩ := List.append_of_mem scheduled
    rw [split]
    exact List.mem_append_left _ (laid.schedule.after before id after n split computed found o source)
  · intro uses id scheduled computed n found values
    exact make_folds made (settled ▸ uses) scheduled found (inv.numbered.id_eq found) computed values
  · intro id scheduled unfed
    rw [Bool.eq_false_iff]
    intro designated
    have required := bind_required accepted id (laid.required ▸ List.mem_filter.mpr ⟨scheduled,designated⟩)
    rw [unfed] at required
    cases required

namespace Prepared

variable {args : List Tensor}

-- One evaluation: it finds no mismatch, and its result is what the analysis foretells.
theorem evaluation (prepared : Prepared p g a bound) (scheduled : id ∈ p.schedule) (computed : id ∉ p.folded)
    (unfed : g.isInput id = false) (found : g.get? id = some n)
    (foretold : List.Forall₂ (Foretold p a) n.inputs args) : Matched (n.operator.eval args) ∧
      ∀ ts, n.operator.eval args = .ok ts → ∃ t, ts = [t] ∧ Foretold p a ⟨id,0⟩ t := by
  have number := prepared.inv.numbered.id_eq found
  subst number
  have member := Graph.get?_mem found
  obtain ⟨op,operator,guarded⟩ := prepared.guarded n.id scheduled computed unfed n found
  obtain ⟨settings,stable⟩ := prepared.stable
  obtain ⟨ins,out,r,readIns,readOut,inferred,shown⟩ := Analysis.stable_shows operator (stable n member)
  have outlets := Analysis.outlets_operator operator
  have entry := Table.get_ok.mp readOut
  have readOuts : n.outlets.mapM a.facts.get = .ok [out] := by
    rw [outlets]
    exact mapM_ok.mpr (.cons readOut .nil)
  have facts : List.Forall₂ (Fact.Foretells (p.settings.useFoldedConstants = true)) ins args := by
    refine forall₂_trans (mapM_ok.mp readIns).flip foretold fun f o t read ⟨f',entry,told⟩ => ?_
    cases (Table.get_ok.mp read).symm.trans entry
    exact told
  have tell : Tell ins args := facts.imp fun _ _ told => told.toTells
  have safe := Op.infer_meets (guarded ins [out] readIns readOuts) (Op.targeted facts) tell inferred shown
  rw [operator]
  refine ⟨safe.matched,fun ts ran => ?_⟩
  cases safe.tells ts ran with
  | cons tells rest =>
    cases rest
    refine ⟨_,rfl,out,entry,tells,fun v value => ?_⟩
    -- a constant that is evaluated all the same: the plan does not use constants
    by_cases uses : p.settings.useFoldedConstants = true
    · refine absurd (prepared.folds uses n.id scheduled unfed n found ?_) computed
      rw [outlets]
      exact List.forall_mem_singleton.mpr ⟨out,v,entry,value⟩
    · have outlet : g.HasOutlet ⟨n.id,0⟩ := ⟨n,found,Int.le_refl 0,by rw [operator]; exact Int.zero_lt_one⟩
      obtain ⟨ins',read,yields⟩ := prepared.grounded _ out v outlet entry value n op found unfed operator
      cases readIns.symm.trans read
      have sure := facts.imp fun f t told => (⟨told.toTells,fun v known => (told.value v known).imp_right fun both =>
        absurd both.1 uses⟩ : f.Foretells False t)
      exact .inl (List.cons.inj (yields.evaluates sure ran)).1

theorem foretold_outlet {o : Outlet} {ts : List Tensor} (low : 0 ≤ o.slot) (at_ : ts[o.slot.toNat]? = some t)
    (single : ∃ u, ts = [u] ∧ Foretold p a ⟨o.node,0⟩ u) : Foretold p a o t := by
  obtain ⟨u,rfl,told⟩ := single
  obtain ⟨zero,equal⟩ := List.getElem?_eq_some_iff.mp at_
  have first : o.slot = 0 := by
    rw [List.length_singleton] at zero
    omega
  obtain ⟨node,slot⟩ := o
  dsimp only at first
  subst first
  cases equal
  exact told

-- By recursion over the graph: whatever a scheduled node stands for was foretold.
theorem means (prepared : Prepared p g a bound) {ts : List Tensor} (means : Means p g bound id ts) :
    id ∈ p.schedule → ∃ t, ts = [t] ∧ Foretold p a ⟨id,0⟩ t := by
  induction means with
  | fed fed => exact fun _ => ⟨_,rfl,prepared.fed _ _ fed⟩
  | folded unbound folded found analysed values =>
    intro scheduled
    cases prepared.analysed.symm.trans analysed
    obtain ⟨op,operator⟩ := prepared.builtIn _ (Graph.get?_mem found)
    rw [Analysis.outlets_operator operator,prepared.inv.numbered.id_eq found] at values
    cases values with
    | cons first rest =>
      cases rest
      obtain ⟨f,entry,value⟩ := first
      cases Fact.eq_constant value
      exact ⟨_,rfl,_,entry,Fact.tells_constant _,fun v known => .inl (Option.some.inj known)⟩
  | evaluated unbound computed found sources taken evaluated count ih =>
    intro scheduled
    refine (prepared.evaluation scheduled computed (prepared.designated _ scheduled unbound) found ?_).2 _ evaluated
    refine (forall₂_mem taken).imp fun o t ⟨source,low,at_⟩ => foretold_outlet low at_ (ih o source ?_)
    exact prepared.sources _ scheduled computed _ found o source

theorem value (prepared : Prepared p g a bound) {o : Outlet} (scheduled : o.node ∈ p.schedule)
    (value : Value p g bound o t) : Foretold p a o t := by
  obtain ⟨low,ts,means,at_⟩ := value
  exact foretold_outlet low at_ (prepared.means means scheduled)

-- Whatever tensors its inputs stand for, a node that is evaluated finds no mismatch among them.
theorem matched (prepared : Prepared p g a bound) (scheduled : id ∈ p.schedule) (computed : id ∉ p.folded)
    (unfed : g.isInput id = false) (found : g.get? id = some n)
    (values : List.Forall₂ (Value p g bound) n.inputs args) : Matched (n.operator.eval args) :=
  (prepared.evaluation scheduled computed unfed found ((forall₂_mem values).imp fun o _ both =>
    prepared.value (prepared.sources id scheduled computed n found o both.1) both.2)).1

end Prepared

-- A run that meets no mismatch of types or shapes.
structure Safe (p : Plan) (g : Graph) (feeds : Feeds) (bound : Bindings) : Prop where
  matched : ∀ id ∈ p.schedule, id ∉ p.folded → g.isInput id = false → ∀ n args, g.get? id = some n →
    List.Forall₂ (Value p g bound) n.inputs args → Matched (n.operator.eval args)
  ends : (∃ r, p.execute g feeds = .ok r) ∨
    ∃ f, p.execute g feeds = .error f ∧ f.kind = .evaluation ∧ ∃ id ∈ p.schedule, f.node = some id

-- A row of six is laid out as a target says and put beside a grid.
def six : Fact := .outline (some .f64) (some [.known 6])
def couple : Fact := .outline (some .i64) (some [.known 2])
def grid : Fact := .outline (some .f64) (some [.known 2,.known 3])

def packedPart (target : Op) (count : Nat) : Graph :=
  ⟨0,"packed",[⟨0,"k",(Op.placeholder grid).operator,[]⟩,⟨1,"x",(Op.placeholder six).operator,[]⟩,
    ⟨2,"t",target.operator,[]⟩,⟨3,"r",(Op.reshape none).operator,[⟨1,0⟩,⟨2,0⟩]⟩,
    ⟨4,"p",(Op.pack 0).operator,[⟨0,0⟩,⟨3,0⟩]⟩].take count,[],[]⟩

def packed (target : Op) (inputs : List (Int × Fact)) : Graph :=
  { packedPart target 5 with inputFacts := inputs, outputs := [⟨4,0⟩] }

theorem packed_built (target : Op) : (packedPart target 5).Built := by
  have k : (packedPart target 1).Built := .addNode (.empty 0 "packed")
    (show (Graph.empty 0 "packed").addNode (Op.placeholder grid).operator [] (some "k") = .ok (packedPart target 1,0) from rfl)
  have x : (packedPart target 2).Built := .addNode k
    (show (packedPart target 1).addNode (Op.placeholder six).operator [] (some "x") = .ok (packedPart target 2,1) from rfl)
  have t : (packedPart target 3).Built := .addNode x
    (show (packedPart target 2).addNode target.operator [] (some "t") = .ok (packedPart target 3,2) from rfl)
  have r : (packedPart target 4).Built := .addNode t
    (show (packedPart target 3).addNode (Op.reshape none).operator [⟨1,0⟩,⟨2,0⟩] (some "r") =
      .ok (packedPart target 4,3) from rfl)
  exact .addNode r (show (packedPart target 4).addNode (Op.pack 0).operator [⟨0,0⟩,⟨3,0⟩] (some "p") =
    .ok (packedPart target 5,4) from rfl)

theorem packed_node {P : Node → Prop} {target : Op} {inputs : List (Int × Fact)} (k : P ⟨0,"k",(Op.placeholder grid).operator,[]⟩)
    (x : P ⟨1,"x",(Op.placeholder six).operator,[]⟩) (t : P ⟨2,"t",target.operator,[]⟩)
    (r : P ⟨3,"r",(Op.reshape none).operator,[⟨1,0⟩,⟨2,0⟩]⟩) (p : P ⟨4,"p",(Op.pack 0).operator,[⟨0,0⟩,⟨3,0⟩]⟩) :
    ∀ n ∈ (packed target inputs).nodes, P n := by
  intro n member
  simp only [packed,packedPart,List.take,List.mem_cons,List.not_mem_nil,or_false] at member
  rcases member with rfl | rfl | rfl | rfl | rfl
  exacts [k,x,t,r,p]

theorem packed_builtIn (target : Op) (inputs : List (Int × Fact)) : (packed target inputs).BuiltIn :=
  packed_node ⟨_,rfl⟩ ⟨_,rfl⟩ ⟨_,rfl⟩ ⟨_,rfl⟩ ⟨_,rfl⟩

def packedAnalysis (target : Fact) : Analysis :=
  ⟨0,⟨[(⟨0,0⟩,grid),(⟨1,0⟩,six),(⟨2,0⟩,target),(⟨3,0⟩,grid),
    (⟨4,0⟩,.outline (some .f64) (some [.known 2,.known 2,.known 3]))]⟩,7⟩

-- With the target in the graph all goes well.
def layout : Tensor := ⟨.i64,[2],[.int 2,.int 3]⟩

def row : Tensor := ⟨.f64,[6],List.replicate 6 (.float .one)⟩
def block : Tensor := ⟨.f64,[2,3],List.replicate 6 (.float .one)⟩

-- Where the target is fed, it may ask for another shape than what goes with the grid, and for more elements
-- than there are.
def loose : Graph := packed (.placeholder couple) [(0,grid),(1,six),(2,couple)]

theorem loose_built : loose.Built := by
  have k : ({ packedPart (.placeholder couple) 5 with inputFacts := [(0,grid)] } : Graph).Built :=
    .designateInput (packed_built _) (show (packedPart (.placeholder couple) 5).designateInput 0 none = .ok (_,grid) from rfl)
  have x : ({ packedPart (.placeholder couple) 5 with inputFacts := [(0,grid),(1,six)] } : Graph).Built :=
    .designateInput k (show Graph.designateInput { packedPart (.placeholder couple) 5 with inputFacts := [(0,grid)] } 1 none =
      .ok (_,six) from rfl)
  have t : ({ packedPart (.placeholder couple) 5 with inputFacts := [(0,grid),(1,six),(2,couple)] } : Graph).Built :=
    .designateInput x (show Graph.designateInput { packedPart (.placeholder couple) 5 with inputFacts := [(0,grid),(1,six)] }
      2 none = .ok (_,couple) from rfl)
  exact .designateOutput t
    (show Graph.designateOutput { packedPart (.placeholder couple) 5 with inputFacts := [(0,grid),(1,six),(2,couple)] }
      ⟨4,0⟩ = .ok loose from rfl)

end Plan

end TensorGraph
