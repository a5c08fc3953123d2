import TensorGraph.Proofs.Analysis.Fixpoint
import TensorGraph.Proofs.Op.Settled

namespace TensorGraph.Analysis
open Outcome

-- One table knows of every outlet of the other, and of each at least as much.
def Grown (table table' : FactTable) : Prop :=
  ∀ o f, table.get? o = some f → ∃ f', table'.get? o = some f' ∧ f.Below f'

def Typed (table : FactTable) : Prop := ∀ o f, table.get? o = some f → f.Typed

theorem Grown.trans {a b c : FactTable} (first : Grown a b) (second : Grown b c) : Grown a c := by
  intro o f found
  obtain ⟨f',found,low⟩ := first o f found
  obtain ⟨f'',found,high⟩ := second o f' found
  exact ⟨f'',found,low.trans high⟩

theorem grown_refl (table : FactTable) : Grown table table := fun _ f found => ⟨f,found,f.below_refl⟩

section
variable {g : Graph} {settings : AnalysisSettings} {table top : FactTable} {n : Node}
  {ins outs newIns newOuts : Facts}

theorem unifyEach_least {as bs us : Facts} (left : as.Under us) (right : bs.Below us) :
    ∃ cs, unifyEach as bs = .ok cs ∧ Facts.Under cs us := by
  have pairs : List.Forall₂ (fun p u => p.1.Under u ∧ p.2.Below u) (as.zip bs) us := by
    induction left generalizing bs with
    | nil => cases right; exact .nil
    | cons head _ ih =>
      cases right with
      | cons other others => exact .cons ⟨head,other⟩ (ih others)
  refine mapM_meets ?_ pairs
  rintro p u ⟨left,right⟩
  obtain ⟨c,unified,least⟩ := Fact.unify_least left.typed left.below right
  exact ⟨c,unified,least,left.typed⟩

theorem unifyEach_bounds {as bs cs : Facts} (lengths : bs.length = as.length)
    (unified : unifyEach as bs = .ok cs) (typed : ∀ c ∈ cs, c.Typed) : as.Below cs ∧ bs.Below cs := by
  unfold unifyEach at unified
  rw [mapM_ok] at unified
  induction as generalizing bs cs with
  | nil =>
    cases List.length_eq_zero_iff.mp lengths
    cases unified
    exact ⟨.nil,.nil⟩
  | cons a as ih =>
    cases bs with
    | nil => cases lengths
    | cons b bs =>
      cases unified with
      | cons first rest =>
        obtain ⟨head,others⟩ := List.forall_mem_cons.mp typed
        obtain ⟨left,right⟩ := ih (Nat.succ.inj lengths) rest others
        exact ⟨.cons (Fact.unify_left first) left,.cons (Fact.unify_right_typed head first) right⟩

-- A rule in parts: what it infers is combined with what was known, and folding comes last.
theorem applyRule_parts (applied : applyRule settings g n ins outs = .ok (newIns,newOuts)) :
    ∃ ruleIns ruleOuts mids, n.operator.infer ins outs = .ok (ruleIns,ruleOuts) ∧
      ruleIns.length = ins.length ∧ ruleOuts.length = outs.length ∧
      unifyEach ins ruleIns = .ok newIns ∧ unifyEach outs ruleOuts = .ok mids ∧
      if canFold settings g n newIns mids then ∃ values,
        n.operator.eval (newIns.filterMap (·.value)) = .ok values ∧
          unifyEach mids (values.map .constant) = .ok newOuts
      else newOuts = mids := by
  unfold applyRule at applied
  obtain ⟨⟨ruleIns,ruleOuts⟩,inferred,applied⟩ := bind_ok.mp applied
  dsimp only at applied
  split at applied
  · cases applied
  · rename_i lengths
    simp only [ne_eq,Bool.or_eq_true,decide_eq_true_eq,not_or,Decidable.not_not] at lengths
    obtain ⟨unifiedIns,newI,applied⟩ := bind_ok.mp applied
    obtain ⟨mids,newO,applied⟩ := bind_ok.mp applied
    split at applied
    · rename_i foldable
      obtain ⟨values,evaluated,applied⟩ := bind_ok.mp applied
      obtain ⟨folded,unified,equal⟩ := bind_ok.mp applied
      cases equal
      refine ⟨ruleIns,ruleOuts,mids,inferred,lengths.1,lengths.2,newI,newO,?_⟩
      rw [if_pos foldable]
      exact ⟨values,evaluated,unified⟩
    · rename_i idle
      cases applied
      refine ⟨ruleIns,ruleOuts,_,inferred,lengths.1,lengths.2,newI,newO,?_⟩
      rw [if_neg idle]

theorem applyRule_of_parts {ruleIns ruleOuts mids : Facts}
    (inferred : n.operator.infer ins outs = .ok (ruleIns,ruleOuts))
    (lengthIns : ruleIns.length = ins.length) (lengthOuts : ruleOuts.length = outs.length)
    (unifiedIns : unifyEach ins ruleIns = .ok newIns) (unifiedOuts : unifyEach outs ruleOuts = .ok mids)
    (folded : if canFold settings g n newIns mids then ∃ values,
        n.operator.eval (newIns.filterMap (·.value)) = .ok values ∧
          unifyEach mids (values.map .constant) = .ok newOuts
      else newOuts = mids) : applyRule settings g n ins outs = .ok (newIns,newOuts) := by
  unfold applyRule
  rw [inferred,ok_bind]
  dsimp only
  rw [if_neg (by simp [lengthIns,lengthOuts]),unifiedIns]
  dsimp only [ok_bind]
  rw [unifiedOuts]
  dsimp only [ok_bind]
  split
  · rename_i foldable
    rw [if_pos foldable] at folded
    obtain ⟨values,evaluated,unified⟩ := folded
    rw [evaluated,ok_bind,unified]
    rfl
  · rename_i idle
    rw [if_neg idle] at folded
    rw [folded]
    rfl

-- A node at rest answers nothing that its table does not say already.
theorem quiet_below {news : Outlet × Fact} (typed : Typed top) (quiet : Quiet top news) :
    ∃ f, top.get? news.1 = some f ∧ news.2.Below f := by
  obtain ⟨old,new,found,unified,same⟩ := quiet
  have equal : new = old := Fact.eq_of_same (typed _ _ found) same
  exact ⟨old,found,equal ▸ Fact.unify_right_typed (equal ▸ typed _ _ found) unified⟩

theorem below_of_zip {os : List Outlet} {fs news : Facts} (read : os.mapM top.get = .ok fs)
    (lengths : news.length = fs.length)
    (each : ∀ p ∈ os.zip news, ∃ f, top.get? p.1 = some f ∧ p.2.Below f) : news.Below fs := by
  rw [mapM_ok] at read
  induction read generalizing news with
  | nil => cases List.length_eq_zero_iff.mp lengths; exact .nil
  | cons head _ ih =>
    cases news with
    | nil => cases lengths
    | cons f news =>
      rw [List.zip_cons_cons] at each
      obtain ⟨first,rest⟩ := List.forall_mem_cons.mp each
      obtain ⟨f',found,low⟩ := first
      cases (Table.get_ok.mp head).symm.trans found
      exact .cons low (ih (Nat.succ.inj lengths) rest)

-- Folding: once all inputs are constants, what the operator gives for them is known.
def Folded (settings : AnalysisSettings) (g : Graph) (n : Node) (ins outs : Facts) : Prop :=
  settings.foldConstants = true → n.operator.isFoldable = true → g.isInput n.id = false →
    ins.all (·.value.isSome) = true →
      ∃ t, n.operator.eval (ins.filterMap (·.value)) = .ok [t] ∧ outs = [.constant t]

theorem constant_below {t : Tensor} {f : Fact} (below : (Fact.constant t).Below f) : f = .constant t :=
  below.value t rfl

theorem values_below {fs' fs : Facts} (below : fs'.Below fs) (constants : fs'.all (·.value.isSome) = true) :
    fs' = fs := by
  induction below with
  | nil => rfl
  | cons head _ ih =>
    rw [List.all_cons,Bool.and_eq_true] at constants
    obtain ⟨t,known⟩ := Option.isSome_iff_exists.mp constants.1
    rw [Fact.eq_constant known] at head ⊢
    rw [constant_below head,ih constants.2]

-- With less known, a rule at rest finds no more than what is known in the end.
theorem applyRule_below {ruleIns ruleOuts : Facts} {ins' outs' : Facts}
    (underIns : ins'.Under ins) (underOuts : outs'.Under outs) (folded : Folded settings g n ins outs)
    (inferred : n.operator.infer ins' outs' = .ok (ruleIns,ruleOuts))
    (belowIns : ruleIns.Below ins) (belowOuts : ruleOuts.Below outs) :
    ∃ newIns newOuts, applyRule settings g n ins' outs' = .ok (newIns,newOuts) ∧
      newIns.Under ins ∧ newOuts.Under outs := by
  obtain ⟨newIns,unifiedIns,lowIns⟩ := unifyEach_least underIns belowIns
  obtain ⟨mids,unifiedOuts,lowOuts⟩ := unifyEach_least underOuts belowOuts
  have lengthIns := belowIns.length_eq.trans underIns.length_eq.symm
  have lengthOuts := belowOuts.length_eq.trans underOuts.length_eq.symm
  have parts := @applyRule_of_parts g settings n ins' outs' newIns
  by_cases foldable : canFold settings g n newIns mids = true
  · obtain ⟨⟨⟨⟨folds,able⟩,computed⟩,constants⟩,-⟩ :
        (((settings.foldConstants = true ∧ n.operator.isFoldable = true) ∧ g.isInput n.id = false) ∧
          newIns.all (·.value.isSome) = true) ∧ mids.any (·.value.isNone) = true := by
      simpa only [canFold,Bool.and_eq_true,Bool.not_eq_true'] using foldable
    have same := values_below lowIns.below constants
    subst same
    obtain ⟨t,evaluated,rfl⟩ := folded folds able computed constants
    have itself : Facts.Below [.constant t] [.constant t] := .cons (Fact.below_refl _) .nil
    obtain ⟨newOuts,unified,low⟩ := unifyEach_least lowOuts itself
    refine ⟨newIns,newOuts,parts inferred lengthIns lengthOuts unifiedIns unifiedOuts ?_,lowIns,low⟩
    rw [if_pos foldable]
    exact ⟨[t],evaluated,unified⟩
  · refine ⟨newIns,mids,parts inferred lengthIns lengthOuts unifiedIns unifiedOuts ?_,lowIns,lowOuts⟩
    rw [if_neg foldable]

theorem outlets_operator {o : Op} (operator : n.operator = o.operator) : n.outlets = [⟨n.id,0⟩] := by
  unfold Node.outlets
  rw [operator]
  rfl

-- Nothing is open any more at a node: its rule has looked back wherever it can, and an output that
-- could be folded is what folding gives.
structure SettledAt (settings : AnalysisSettings) (g : Graph) (n : Node) (o : Op)
    (start ins outs : Facts) : Prop where
  rule : o.Settled start ins outs
  folds : settings.foldConstants = true → o.isFoldable = true → g.isInput n.id = false →
    ins.all (·.value.isSome) = true → ∀ t, (Facts.first outs).value = some t →
      o.eval (ins.filterMap (·.value)) = .ok [t]

theorem unifyEach_length {as bs cs : Facts} (lengths : bs.length = as.length)
    (unified : unifyEach as bs = .ok cs) : cs.length = as.length := by
  have zipped := (mapM_ok.mp unified).length_eq
  rw [List.length_zip] at zipped
  omega

theorem read_typed {os : List Outlet} {fs : Facts} (typed : Typed top) (read : os.mapM top.get = .ok fs) :
    ∀ f ∈ fs, f.Typed := by
  intro f member
  obtain ⟨o,-,found⟩ := forall₂_right (mapM_ok.mp read) f member
  exact typed o f (Table.get_ok.mp found)

theorem below_typed {fs' fs : Facts} (below : fs'.Below fs) (typed : ∀ f ∈ fs, f.Typed) :
    ∀ f ∈ fs', f.Typed := by
  intro f' member
  obtain ⟨f,other,low⟩ := forall₂_left below f' member
  exact low.typed (typed f other)

-- Operators of one output are folded to one constant.
theorem folded_parts {o : Op} {mids : Facts} (operator : n.operator = o.operator) (length : mids.length = 1)
    (folded : if canFold settings g n newIns mids then ∃ values,
        n.operator.eval (newIns.filterMap (·.value)) = .ok values ∧
          unifyEach mids (values.map .constant) = .ok newOuts
      else newOuts = mids) : newOuts.length = 1 ∧ ((∀ f ∈ newOuts, f.Typed) → mids.Below newOuts ∧
        (canFold settings g n newIns mids = true → ∃ v,
          n.operator.eval (newIns.filterMap (·.value)) = .ok [v] ∧ Facts.Below [.constant v] newOuts)) := by
  split at folded
  · obtain ⟨values,evaluated,unified⟩ := folded
    obtain ⟨v,rfl⟩ : ∃ v, values = [v] := by
      rw [operator] at evaluated
      exact Op.eval_single evaluated
    have one : [Fact.constant v].length = mids.length := length.symm
    refine ⟨(unifyEach_length one unified).trans length,fun typed => ?_⟩
    obtain ⟨kept,gained⟩ := unifyEach_bounds one unified typed
    exact ⟨kept,fun _ => ⟨v,evaluated,gained⟩⟩
  · rename_i idle
    subst folded
    exact ⟨length,fun typed => ⟨(Facts.Under.refl typed).below,fun foldable => absurd foldable idle⟩⟩

-- What a rule at rest gives, in parts.
theorem stable_parts {o : Op} (operator : n.operator = o.operator) (typed : Typed top)
    (stable : Stable settings g top n) : ∃ ins out ruleIns ruleOuts,
      n.inputs.mapM top.get = .ok ins ∧ n.outlets.mapM top.get = .ok [out] ∧
      o.infer ins [out] = .ok (ruleIns,ruleOuts) ∧ Facts.Rests (ruleIns,ruleOuts) ins [out] ∧
      ∀ start, SettledAt settings g n o start ins [out] → Folded settings g n ins [out] := by
  obtain ⟨ins,outs,newIns,newOuts,readIns,readOuts,applied,merged⟩ := visit_parts stable
  obtain ⟨more,equal,entered⟩ := merges_entered merged
  obtain ⟨-,quiet⟩ := entered.quiet (by simpa using equal.symm)
  obtain ⟨ruleIns,ruleOuts,mids,inferred,lengthIns,lengthOuts,unifiedIns,unifiedOuts,folded⟩ :=
    applyRule_parts applied
  rw [operator] at inferred
  obtain ⟨out,rfl⟩ : ∃ out, outs = [out] := by
    rw [outlets_operator operator] at readOuts
    cases mapM_ok.mp readOuts with
    | cons _ rest => cases rest; exact ⟨_,rfl⟩
  have each : ∀ p ∈ n.inputs.zip newIns ++ n.outlets.zip newOuts,
      ∃ f, top.get? p.1 = some f ∧ p.2.Below f := fun p member => quiet_below typed (quiet p member)
  obtain ⟨outLength,folded⟩ := folded_parts operator (unifyEach_length lengthOuts unifiedOuts) folded
  have restIns : newIns.Below ins := below_of_zip readIns (unifyEach_length lengthIns unifiedIns)
    fun p member => each p (List.mem_append_left _ member)
  have restOuts : newOuts.Below [out] := below_of_zip readOuts outLength
    fun p member => each p (List.mem_append_right _ member)
  have typedOuts := below_typed restOuts (read_typed typed readOuts)
  obtain ⟨keptIns,belowIns⟩ := unifyEach_bounds lengthIns unifiedIns
    (below_typed restIns (read_typed typed readIns))
  obtain ⟨keptMids,gained⟩ := folded typedOuts
  obtain ⟨-,belowOuts⟩ := unifyEach_bounds lengthOuts unifiedOuts (below_typed keptMids typedOuts)
  have restMids := keptMids.trans restOuts
  cases restIns.eq keptIns
  refine ⟨ins,out,ruleIns,ruleOuts,readIns,readOuts,inferred,
    ⟨belowIns,belowOuts.trans restMids⟩,?_⟩
  intro start settled folds able computed constants
  by_cases foldable : canFold settings g n ins mids = true
  · obtain ⟨v,evaluated,found⟩ := gained foldable
    cases Facts.Below.trans found restOuts with
    | cons low _ => exact ⟨v,evaluated,by rw [constant_below low]⟩
  · -- nothing is left to fold: the output is a constant, and it is the right one
    have filled : mids.all (·.value.isSome) = true := by
      simpa [canFold,folds,able,computed,constants,Option.isSome_iff_ne_none] using foldable
    have same : mids = [out] := values_below restMids filled
    rw [same] at filled
    obtain ⟨t,known⟩ := Option.isSome_iff_exists.mp (show out.value.isSome = true by simpa using filled)
    rw [operator] at able ⊢
    exact ⟨t,settled.folds folds able computed constants t known,by rw [Fact.eq_constant known]⟩

end

end TensorGraph.Analysis
