import TensorGraph.Proofs.Analysis.Failures
import TensorGraph.Proofs.Analysis.History
import TensorGraph.Proofs.Op.Values

namespace TensorGraph
open Outcome Facts Relation

theorem Facts.constants_of_values {ins : Facts} {ts : List Tensor} (known : values ins = ts.map some) :
    ins.all (·.value.isSome) = true := by
  rw [List.all_eq_true]
  intro f member
  have there : f.value ∈ values ins := List.mem_map_of_mem member
  rw [known] at there
  obtain ⟨t,-,equal⟩ := List.mem_map.mp there
  rw [← equal]
  rfl

theorem Op.Yields.below {o : Op} {ins ins' : Facts} {v : Tensor} (yields : o.Yields ins v)
    (below : ins.Below ins') : o.Yields ins' v := by
  cases yields with
  | evaluated known ran =>
    rw [← Analysis.values_below below (constants_of_values known)]
    exact .evaluated known ran
  | declared known => exact .declared known
  | measured known =>
    obtain ⟨x',rfl,low⟩ := below_one below
    obtain ⟨s,shape,extents⟩ := Option.bind_eq_some_iff.mp known
    obtain ⟨s',shape',lower⟩ := low.shape s shape
    exact .measured (Option.bind_eq_some_iff.mpr ⟨s',shape',ShapeFact.extents?_below lower extents⟩)

-- The identity yields what it was given.
theorem Op.yields_identity {ins : Facts} {v : Tensor} (yields : identity.Yields ins v) : ∀ x ∈ ins, x.value = some v := by
  cases yields with
  | @evaluated _ _ ts _ known ran =>
    match ts, ran with
    | [t], ran =>
      cases ran
      obtain ⟨x,rfl,value⟩ := values_one known
      exact List.forall_mem_singleton.mpr value

namespace Analysis

variable {g : Graph} {settings : AnalysisSettings} {table table' start : FactTable} {n : Node} {o : Outlet}
  {v : Tensor} {order : List Int} {m m' : Moment} {op : Op} {ins outs newIns newOuts : Facts} {out : Fact}

-- A constant at an outlet that is not fed is what the operator yields from the facts of its inputs.
def Grounds (g : Graph) (table : FactTable) (o : Outlet) (v : Tensor) : Prop :=
  ∀ n op, g.get? o.node = some n → g.isInput n.id = false → n.operator = Op.operator op →
    ∃ ins, n.inputs.mapM table.get = .ok ins ∧ op.Yields ins v

theorem read_later {os : List Outlet} {fs : Facts} (grown : Grown table table') (read : os.mapM table.get = .ok fs) :
    ∃ fs', os.mapM table'.get = .ok fs' ∧ Facts.Below fs fs' := by
  have each := mapM_ok.mp read
  clear read
  induction each with
  | nil => exact ⟨[],rfl,.nil⟩
  | cons here _ ih =>
    obtain ⟨f',later,below⟩ := grown _ _ (Table.get_ok.mp here)
    obtain ⟨fs',rest,belows⟩ := ih
    exact ⟨f' :: fs',mapM_ok.mpr (.cons (Table.get_ok.mpr later) (mapM_ok.mp rest)),.cons below belows⟩

theorem Grounds.grown (grounds : Grounds g table o v) (grown : Grown table table') : Grounds g table' o v := by
  intro n op found computed operator
  obtain ⟨ins,read,yields⟩ := grounds n op found computed operator
  obtain ⟨ins',read',below⟩ := read_later grown read
  exact ⟨ins',read',yields.below below⟩

-- Every constant in a table is grounded.
def Grounded (g : Graph) (table : FactTable) : Prop :=
  ∀ o f v, g.HasOutlet o → table.get? o = some f → f.value = some v → Grounds g table o v

-- And so is every one that is still to be entered.
structure GroundedAt (g : Graph) (m : Moment) : Prop where
  table : Grounded g m.table
  news : ∀ news changed, m.visiting = some (news,changed) → ∀ p ∈ news, ∀ v, p.2.value = some v → Grounds g m.table p.1 v

theorem unify_value_cases {a b c : Fact} (unified : a.unify b = .ok c) (known : c.value = some v) :
    a.value = some v ∨ b.value = some v := by
  obtain ⟨-,-,value,-⟩ := Fact.unify_parts unified
  rw [value] at known
  exact (Option.or_eq_some_iff.mp known).imp_right And.right

theorem Grounded.set {old new f : Fact} (grounded : Grounded g table) (found : table.get? o = some old)
    (unified : old.unify f = .ok new) (grounds : ∀ v, f.value = some v → Grounds g table o v)
    (grown : Grown table (table.set o new)) : Grounded g (table.set o new) := by
  intro q h v outlet found' known
  rw [Table.get?_set] at found'
  refine Grounds.grown ?_ grown
  split at found'
  · rename_i here
    subst here
    cases found'
    rcases unify_value_cases unified known with before | news
    · exact grounded q old v outlet found before
    · exact grounds v news
  · exact grounded q h v outlet found' known

theorem unifyEach_related {R : Fact → Fact → Prop} {as bs cs : Facts} (related : List.Forall₂ R as bs)
    (unified : unifyEach as bs = .ok cs) : List.Forall₂ (fun a c => ∃ b, R a b ∧ a.unify b = .ok c) as cs := by
  unfold unifyEach at unified
  have each := mapM_ok.mp unified
  clear unified
  induction related generalizing cs with
  | nil =>
    cases each
    exact .nil
  | cons head _ ih =>
    cases each with
    | cons first rest => exact .cons ⟨_,head,first⟩ (ih rest)

theorem filled_values {newIns : Facts} (filled : newIns.all (·.value.isSome) = true)
    (same : List.Forall₂ (fun x y : Fact => ∀ v, y.value = some v → x.value = some v) ins newIns) :
    values ins = (newIns.filterMap (·.value)).map some := by
  induction same with
  | nil => rfl
  | cons head _ ih =>
    rw [List.all_cons,Bool.and_eq_true] at filled
    obtain ⟨v,known⟩ := Option.isSome_iff_exists.mp filled.1
    rw [List.filterMap_cons_some known]
    exact congrArg₂ List.cons (head v known) (ih filled.2)

-- Folding finds what the operator yields, as the rule does.
theorem applyRule_finds (operator : n.operator = op.operator) (accepted : op.arity.accepts ins.length = true)
    (applied : applyRule settings g n ins [out] = .ok (newIns,newOuts)) : op.Finds ins out (newIns,newOuts) := by
  obtain ⟨ruleIns,ruleOuts,mids,inferred,-,-,unifiedIns,unifiedOuts,folded⟩ := applyRule_parts applied
  rw [operator] at inferred folded
  obtain ⟨inputs,y,rfl,output⟩ := Op.infer_finds accepted inferred
  have inputs : List.Forall₂ (fun x z => ∀ v, z.value = some v → x.value = some v ∨
      op = .identity ∧ out.value = some v) ins newIns := by
    refine (unifyEach_related inputs unifiedIns).imp fun x z ⟨y,finds,unified⟩ v known => ?_
    exact (unify_value_cases unified known).elim .inl (finds v)
  obtain ⟨m,unified,rfl⟩ := mapM_one unifiedOuts
  have found : ∀ v, m.value = some v → out.value = some v ∨ op.Yields ins v := fun v known =>
    (unify_value_cases unified known).elim .inl (output v)
  split at folded
  · rename_i foldable
    obtain ⟨vs,evaluated,joined⟩ := folded
    obtain ⟨w,rfl⟩ := Op.eval_single evaluated
    obtain ⟨z,last,rfl⟩ := mapM_one joined
    obtain ⟨filled,open_⟩ : newIns.all (·.value.isSome) = true ∧ m.value = none := by
      simp only [canFold,Bool.and_eq_true] at foldable
      exact ⟨foldable.1.2,by simpa using foldable.2⟩
    -- where there is something to fold the output was open, so nothing came back from it
    have closed : out.value = none := by
      obtain ⟨-,-,value,-⟩ := Fact.unify_parts unified
      rw [value] at open_
      exact (Option.or_eq_none_iff.mp open_).1
    refine ⟨inputs,z,rfl,fun v known => ?_⟩
    rcases unify_value_cases last known with before | now
    · exact found v before
    · cases now
      refine .inr (.evaluated (filled_values filled (inputs.imp fun x z finds v known => ?_)) evaluated)
      refine (finds v known).elim id fun back => ?_
      rw [closed] at back
      cases back.2
  · subst folded
    exact ⟨inputs,m,rfl,found⟩

theorem zip_related {os : List Outlet} {as bs : Facts} {R : Fact → Fact → Prop} {p : Outlet × Fact}
    (read : List.Forall₂ (fun o f => table.get o = .ok f) os as) (related : List.Forall₂ R as bs)
    (member : p ∈ os.zip bs) : ∃ f, table.get p.1 = .ok f ∧ R f p.2 := by
  induction read generalizing bs with
  | nil => cases member
  | cons here _ ih =>
    cases related with
    | cons first rest =>
      rcases List.mem_cons.mp member with rfl | later
      · exact ⟨_,here,first⟩
      · exact ih rest later

-- What is entered after a visit is grounded in the table that was read.
theorem answer_grounds (inv : g.Invariant) (valid : g.validate = .ok ()) (member : n ∈ g.nodes)
    (operator : n.operator = op.operator) (grounded : Grounded g table) (readIns : n.inputs.mapM table.get = .ok ins)
    (readOuts : n.outlets.mapM table.get = .ok outs) (applied : applyRule settings g n ins outs = .ok (newIns,newOuts)) :
    ∀ p ∈ n.inputs.zip newIns ++ n.outlets.zip newOuts, ∀ v, p.2.value = some v → Grounds g table p.1 v := by
  have here := inv.numbered.get?_id member
  rw [outlets_operator operator] at readOuts ⊢
  obtain ⟨out,readOut,rfl⟩ := mapM_one readOuts
  cases fed : g.isInput n.id with
  | true =>
    -- a node that is fed has no inputs, and nothing is asked of its output
    have none : n.inputs = [] := by
      obtain ⟨m,found,none⟩ := inv.entered n.id (List.contains_iff_mem.mp fed)
      cases here.symm.trans found
      exact none
    rw [none]
    rintro p there v -
    rw [List.zip_nil_left,List.nil_append] at there
    intro m op' found computed
    rw [List.mem_singleton.mp (List.of_mem_zip there).1] at found
    cases here.symm.trans found
    rw [fed] at computed
    cases computed
  | false =>
    have accepts {op : Op} (operator : n.operator = op.operator) : op.arity.accepts ins.length = true := by
      have arity := ((Graph.validate_ok_iff inv).mp valid n member).resolve_left (by simp [fed])
      rw [operator,(mapM_ok.mp readIns).length_eq] at arity
      exact arity
    have outlet : g.HasOutlet ⟨n.id,0⟩ := ⟨n,here,Int.le_refl 0,by rw [operator]; exact Int.zero_lt_one⟩
    have own {v : Tensor} (known : out.value = some v) : Grounds g table ⟨n.id,0⟩ v :=
      grounded _ out v outlet (Table.get_ok.mp readOut) known
    obtain ⟨inputs,y,rfl,-⟩ := applyRule_finds operator (accepts operator) applied
    intro p there v known
    rcases List.mem_append.mp there with input | output
    · obtain ⟨x,found,same⟩ := zip_related (mapM_ok.mp readIns) (forall₂_mem inputs) input
      refine grounded p.1 x v (inv.sources n member _ (List.of_mem_zip input).1) (Table.get_ok.mp found) ?_
      refine (same.2 v known).elim id fun ⟨identity,back⟩ => ?_
      obtain ⟨ins',read,yields⟩ := own back n op here fed operator
      cases readIns.symm.trans read
      exact Op.yields_identity (identity ▸ yields) x same.1
    · cases List.mem_singleton.mp output
      intro m op' found computed operator'
      cases here.symm.trans found
      obtain ⟨-,z,equal,finds⟩ := applyRule_finds operator' (accepts operator') applied
      cases equal
      exact (finds v known).elim (fun before => own before n op' here fed operator') fun yields => ⟨ins,readIns,yields⟩

theorem next_grounded (inv : g.Invariant) (builtIn : g.BuiltIn) (valid : g.validate = .ok ())
    (grounded : GroundedAt g m) (next : Next settings g m m') : GroundedAt g m' := by
  have grown := next.grown
  cases next with
  | answer found readIns readOuts applied =>
    have member := Graph.get?_mem (Graph.node_ok.mp found)
    obtain ⟨op,operator⟩ := builtIn _ member
    refine ⟨grounded.table,fun news changed equal => ?_⟩
    cases equal
    exact answer_grounds inv valid member operator grounded.table readIns readOuts applied
  | @enter table changed table' changed' queue news p merged =>
    obtain ⟨here,later⟩ := List.forall_mem_cons.mp (grounded.news _ _ rfl)
    refine ⟨?_,fun more changed equal => ?_⟩
    · rcases merge_cases merged with ⟨-,rfl,-⟩ | ⟨old,new,found,unified,-,rfl,-⟩
      · exact grounded.table
      · exact grounded.table.set found unified here grown
    · cases equal
      exact fun q there v known => (later q there v known).grown grown
  | settle => exact ⟨grounded.table,nofun⟩

-- To begin with there are the constants of the graph, and those that inputs are declared to be.
theorem seed_grounded (inv : g.Invariant) (valid : g.validate = .ok ())
    (seeded : seed g = .ok start) : Grounded g start := by
  rintro o f v ⟨n,found,low,high⟩ entry known m op found' computed operator
  cases found.symm.trans found'
  have member := Graph.get?_mem found
  have number := inv.numbered.id_eq found
  have here : o = ⟨n.id,0⟩ := by
    rw [operator] at high
    have single : o.slot < 1 := high
    obtain ⟨node,slot⟩ := o
    dsimp only at number low single
    rw [number,show slot = 0 by omega]
  subst here
  by_cases const : n.operator.isConst = true
  · obtain ⟨t,rfl⟩ : ∃ t, op = .const t := by
      rw [operator] at const
      cases op <;> first | exact ⟨_,rfl⟩ | cases const
    have none : n.inputs = [] := by
      have arity := ((Graph.validate_ok_iff inv).mp valid n member).resolve_left (by simp [computed])
      rw [operator] at arity
      exact List.length_eq_zero_iff.mp (of_decide_eq_true arity)
    have evaluated : n.operator.eval [] = .ok [t] := by
      rw [operator]
      rfl
    have pair : ((⟨n.id,0⟩ : Outlet),t) ∈ n.outlets.zip [t] := by
      rw [outlets_operator operator]
      exact List.mem_singleton_self _
    rw [seed_constant inv.numbered seeded member computed const evaluated pair] at entry
    cases entry
    cases known
    have nothing : Facts.values [] = ([] : List Tensor).map some := rfl
    rw [none]
    exact ⟨[],rfl,.evaluated nothing rfl⟩
  · obtain ⟨t,t',step,same⟩ := seed_entry inv.numbered seeded member
    rw [same _ rfl] at entry
    unfold seedNode at step
    dsimp only at step
    rw [if_neg (by simp [computed]),if_neg const,outlets_operator operator] at step
    cases step
    rw [List.foldl_cons,List.foldl_nil,Table.get?_set,if_pos rfl] at entry
    cases entry
    cases known

-- Whatever a run finds to be constant, it finds from the constants of the graph.
theorem run_grounded (inv : g.Invariant) (builtIn : g.BuiltIn) (ran : run settings g order = .ok a) :
    Grounded g a.facts := by
  obtain ⟨valid,-,start,seeded,-⟩ := run_parts ran
  have whole := reached_last ran seeded .refl
  have first : GroundedAt g (firstMoment g order start) := ⟨seed_grounded inv valid seeded,nofun⟩
  exact (whole.head_induction_on (motive := fun m _ => GroundedAt g m → GroundedAt g (lastMoment a)) id
    (fun next _ ih grounded => ih (next_grounded inv builtIn valid grounded next)) first).table

end Analysis

end TensorGraph
