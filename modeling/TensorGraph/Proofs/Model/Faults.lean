import TensorGraph.Proofs.Model.Names
import TensorGraph.Proofs.Raises

namespace TensorGraph
open Outcome

namespace Graph

variable {g : Graph}

-- Faults of calls that grow a graph.
def Refused (k : Kind) : Prop := k = .invalidInput

theorem checkOutlet_refused (what : String) (o : Outlet) : Raises Refused (g.checkOutlet what o) := by
  unfold checkOutlet
  split
  · exact (raises_fail _).mpr rfl
  · split
    · exact raises_ok _
    · exact (raises_error _).mpr rfl

theorem addNode_refused (op : Operator) (sources : List Outlet) (label : Option String) :
    Raises Refused (g.addNode op sources label) := by
  unfold addNode
  refine Raises.bind (fun e failed => ?_) fun _ _ => ?_
  · obtain ⟨p,-,failed⟩ := forM_error failed
    exact checkOutlet_refused _ p.1 e failed
  · dsimp only
    split
    · exact (raises_fail _).mpr rfl
    · exact raises_ok _

theorem designateInput_refused (id : Int) (declared : Option Fact) : Raises Refused (g.designateInput id declared) := by
  unfold designateInput node
  refine Raises.bind ?_ fun n _ => ?_
  · split
    · exact raises_ok _
    · exact (raises_fail _).mpr rfl
  · dsimp only
    split
    · exact raises_ok _
    · exact (raises_error _).mpr rfl

theorem designateOutput_refused (o : Outlet) : Raises Refused (g.designateOutput o) :=
  (checkOutlet_refused _ o).bind fun _ _ => raises_ok _

-- An edge can also close a cycle.
theorem addEdge_refused (wired : g.Wired) (source : Outlet) (target : Inlet) :
    Raises (fun k => Refused k ∨ k = .cycle) (g.addEdge source target) := by
  unfold addEdge
  refine Raises.bind ((checkOutlet_refused _ source).mono fun _ => Or.inl) fun _ checked => ?_
  obtain ⟨p,there,-⟩ := checkOutlet_ok.mp checked
  obtain ⟨b,searched⟩ : ∃ b, g.reaches source.node target.node = .ok b :=
    reachesFrom_total wired _ (by simpa using ⟨p,there⟩)
  have stop {f : Fault} (kind : Refused f.kind ∨ f.kind = .cycle) :
      Raises (fun k => Refused k ∨ k = .cycle) (.error f : Outcome Graph) := (raises_error f).mpr kind
  split
  · refine stop ?_
    exact .inl rfl
  · dsimp only
    split
    · refine stop ?_
      exact .inl rfl
    · split
      · refine stop ?_
        exact .inl rfl
      · rw [searched,ok_bind]
        split
        · refine stop ?_
          exact .inr rfl
        · exact raises_ok _

end Graph

namespace Model
open Lowering

-- A constant as it is stored, and as its node holds it.
def Constant.read (c : Constant) : Outcome (Tensor × Tensor) := do
  if c.array.elementType = 0 then fail (.unworded .type)
  let dtype ← elementType c.array.elementType
  let array ← c.array.tensor
  return (array,← array.ofTensor (some dtype))

-- A tensor that a constant of the model stores under a name.
def Stores (m : Model) (x : String) (t : Tensor) : Prop := ∃ c ∈ m.constants, c.name = x ∧ ∃ held, c.read = .ok (t,held)

-- Constants that are held under names come from the model.
def Stocks (m : Model) (held : List (String × Tensor)) : Prop := ∀ x t, held.lookup x = some t → m.Stores x t

-- Attributes that the operator of a step is made with: what is read from the step, or with the axes that a second
-- input names as a constant.
inductive Supplied (m : Model) (s : Step) (read : Attributes) : Attributes → Prop where
  | own (other : ∀ x axes rest, s.inputs = x :: axes :: rest → takesAxes s.op = true → axes = "") : Supplied m s read read
  | axes {x axes : String} {rest : List String} {t : Tensor} (takes : takesAxes s.op = true)
      (listed : s.inputs = x :: axes :: rest) (named : axes ≠ "") (stored : m.Stores axes t) :
      Supplied m s read (("axes",.datum t.toDatum) :: read.filter (·.1 != "axes"))

-- All that keeps a model from having a graph. What a model holds may not be readable in itself, an operator may not
-- be made of what is read; all else is invalid, or closes a cycle.
inductive Rejection (m : Model) (r : Registry) (e : Fault) : Prop where
  | invalid (kind : e.kind = .invalidInput)
  | cyclic (kind : e.kind = .cycle)
  | constant (c : Constant) (member : c ∈ m.constants) (failed : c.read = .error e)
  | input (d : Declaration) (member : d ∈ m.inputs) (failed : d.fact = .error e)
  | attributes (s : Step) (member : s ∈ m.steps) (failed : operatorAttributes s = .error e)
  | operator (s : Step) (member : s ∈ m.steps) (op : String) (named : operators.lookup s.op = some op)
      (read as : Attributes) (parsed : operatorAttributes s = .ok read) (supplied : m.Supplied s read as)
      (failed : r.create (if isChained s.op && s.taken.length = 1 then "Identity" else op) as = .error e)

end Model

namespace Lowering
open TensorGraph.Graph Model

variable {l l' : Lowering} {r : Registry} {s : Step} {e : Fault} {row : Row}

theorem addConstant_read (l : Lowering) (c : Constant) : l.addConstant c = c.read >>= fun p =>
    l.graph.addNode (Op.const p.2).operator [] (some c.name) >>= fun q =>
      .ok { l.named q.1 q.2 c.name with constants := (c.name,p.1) :: l.constants } := by
  unfold addConstant Constant.read
  dsimp only
  split
  · rfl
  · simp only [bind_assoc]
    rfl

theorem addConstant_error {c : Constant} (failed : l.addConstant c = .error e) :
    Refused e.kind ∨ c.read = .error e := by
  rw [addConstant_read] at failed
  rcases bind_error.mp failed with unread | ⟨p,-,failed⟩
  · exact .inr unread
  · rcases bind_error.mp failed with refused | ⟨q,-,failed⟩
    · exact .inl (addNode_refused _ _ _ e refused)
    · cases failed

theorem addInput_error {d : Declaration} (failed : l.addInput d = .error e) : Refused e.kind ∨ d.fact = .error e := by
  unfold addInput at failed
  split at failed
  · cases failed
  · rcases bind_error.mp failed with unread | ⟨fact,-,failed⟩
    · exact .inr unread
    · refine .inl ?_
      rcases bind_error.mp failed with refused | ⟨⟨g,id⟩,-,failed⟩
      · exact addNode_refused _ _ _ e refused
      · rcases bind_error.mp failed with refused | ⟨q,-,failed⟩
        · exact designateInput_refused _ _ e refused
        · cases failed

theorem wire_refused (l : Lowering) (op : Operator) (sources : List String) (name : String) :
    Raises Refused (l.wire op sources name) := by
  unfold wire
  split
  · exact (addNode_refused _ _ _).bind fun _ _ => raises_ok _
  · exact (addNode_refused _ _ _).bind fun _ _ => raises_ok _

theorem append_refused (l : Lowering) (row : Row) : Raises Refused (l.append row) := by
  unfold append
  dsimp only
  split
  · exact (raises_fail _).mpr rfl
  · exact (wire_refused _ _ _ _).bind fun _ _ => raises_ok _

theorem splitInputs_refused (l : Lowering) (s : Step) (as : Attributes) : Raises Refused (l.splitInputs s as) := by
  have trimmed (names : List String) (as : Attributes) : Raises Refused (trim s names as) := by
    unfold trim
    dsimp only
    split
    · exact (raises_fail _).mpr rfl
    · exact raises_ok _
  unfold splitInputs
  split
  · split
    · exact trimmed _ _
    · split
      · exact trimmed _ _
      · exact (raises_fail _).mpr rfl
  · exact trimmed _ _

theorem appends_refused (l : Lowering) (rows : List Row) : Raises Refused (rows.foldlM append l) :=
  raises_foldlM (fun l row _ => append_refused l row) l

-- Without its operator a chain fails for that, unless the name of its first link is taken.
theorem chain_unmade {op : String} {as : Attributes} {name : String} {k : Nat} {a : String} {rest : List String}
    {raised : Fault} (unmade : r.create op as = .error raised)
    (failed : chain r op as name k l a rest = .error e) : Refused e.kind ∨ e = raised := by
  unfold chain at failed
  split at failed
  · dsimp only at failed
    split at failed
    · cases failed
      exact .inl rfl
    · rw [unmade] at failed
      cases failed
      exact .inr rfl
  · cases failed

theorem splitInputs_supplied {m : Model} {read as : Attributes} {names : List String} (stored : m.Stocks l.constants)
    (divided : l.splitInputs s read = .ok (names,as)) : m.Supplied s read as := by
  unfold splitInputs at divided
  split at divided
  · rename_i x axes rest takes listed
    split at divided
    · rename_i blank
      cases (trim_ok divided).2
      refine .own fun _ _ _ again _ => ?_
      cases listed.symm.trans again
      exact blank
    · rename_i named
      split at divided
      · rename_i t found
        cases (trim_ok divided).2
        exact .axes takes listed named (stored axes t found)
      · cases divided
  · rename_i other
    cases (trim_ok divided).2
    exact .own fun x axes rest listed takes => (other x axes rest takes listed).elim

-- A step fails with what cannot be read in it, or what its operator is refused for.
theorem addStep_error {m : Model} {index : Nat} (member : s ∈ m.steps) (stored : m.Stocks l.constants)
    (failed : l.addStep r s index = .error e) : Rejection m r e := by
  unfold addStep at failed
  split at failed
  · cases failed
    exact .invalid rfl
  · rename_i op known
    rcases bind_error.mp failed with unread | ⟨read,parsed,failed⟩
    · exact .attributes s member unread
    rcases bind_error.mp failed with refused | ⟨⟨names,as⟩,divided,failed⟩
    · exact .invalid (splitInputs_refused l s read e refused)
    have supplied := splitInputs_supplied stored divided
    cases splitInputs_taken divided
    have unmade {raised : Fault}
        (made : r.create (if isChained s.op && s.taken.length = 1 then "Identity" else op) as = .error raised)
        (reason : Refused e.kind ∨ e = raised) : Rejection m r e :=
      reason.elim .invalid fun same => .operator s member op known read as parsed supplied (made.trans (same ▸ rfl))
    dsimp only at failed
    generalize (if isChained s.op && s.taken.length = 1 then "Identity" else op) = op' at failed unmade
    cases made : r.create op' as with
    | error raised =>
      have stopped {k : Operator → Outcome Lowering} (failed : (r.create op' as >>= k) = .error e) : e = raised := by
        rw [made,error_bind] at failed
        exact (Except.error.inj failed).symm
      refine unmade made ?_
      split at failed
      · rcases bind_error.mp failed with unchained | ⟨p,-,failed⟩
        · exact chain_unmade made unchained
        · exact .inr (stopped failed)
      · rw [ok_bind] at failed
        exact .inr (stopped failed)
    | ok operator =>
      have rows := (block_made (l := { l with used := l.nameFor s index :: l.used }) made).symm.trans failed
      exact .invalid (appends_refused _ _ e rows)

theorem edges_built {final : List (String × Outlet)} {id : Nat} {g g' : Graph} {qs : List (String × Nat)}
    (built : Built g) (ran : qs.foldlM (edge final id) g = .ok g') : Built g' := by
  refine foldlM_keeps (P := Built) (fun g q g' _ built step => ?_) built ran
  unfold edge at step
  split at step
  · cases step
  · exact built.addEdge step

theorem connect_built {p : Nat × List String} (built : Built l.graph) (ran : l.connect p = .ok l') : Built l'.graph := by
  obtain ⟨id,names⟩ := p
  rw [connect_edges] at ran
  obtain ⟨g,edges,equal⟩ := bind_ok.mp ran
  cases equal
  exact edges_built built edges

theorem connects_built {ps : List (Nat × List String)} (built : Built l.graph) (ran : ps.foldlM connect l = .ok l') :
    Built l'.graph :=
  foldlM_keeps (P := fun l => Built l.graph) (fun _ _ _ _ built ran => connect_built built ran) built ran

theorem connect_error {p : Nat × List String} (built : Built l.graph) (failed : l.connect p = .error e) :
    Refused e.kind ∨ e.kind = .cycle := by
  obtain ⟨id,names⟩ := p
  rw [connect_edges] at failed
  rcases bind_error.mp failed with failed | ⟨g,-,failed⟩
  · obtain ⟨before,q,after,g,-,ran,stopped⟩ := foldlM_error failed
    have reached := edges_built built ran
    unfold edge at stopped
    split at stopped
    · cases stopped
      exact .inl rfl
    · exact addEdge_refused (built_wired reached) _ _ e stopped
  · cases failed

theorem addOutput_refused (l : Lowering) (d : Declaration) : Raises Refused (l.addOutput d) := by
  unfold addOutput
  split
  · exact (raises_fail _).mpr rfl
  · exact (designateOutput_refused _).bind fun _ _ => raises_ok _

theorem addConstant_built {c : Constant} (built : Built l.graph) (ran : l.addConstant c = .ok l') : Built l'.graph := by
  rw [addConstant_read] at ran
  obtain ⟨p,-,ran⟩ := bind_ok.mp ran
  obtain ⟨q,added,equal⟩ := bind_ok.mp ran
  cases equal
  exact built.addNode added

theorem addInput_built {d : Declaration} (built : Built l.graph) (ran : l.addInput d = .ok l') : Built l'.graph := by
  unfold addInput at ran
  split at ran
  · cases ran
    exact built
  · obtain ⟨fact,-,ran⟩ := bind_ok.mp ran
    obtain ⟨q,added,ran⟩ := bind_ok.mp ran
    obtain ⟨q',entered,equal⟩ := bind_ok.mp ran
    cases equal
    exact (built.addNode added).designateInput entered

theorem addInput_constants {d : Declaration} (ran : l.addInput d = .ok l') : l'.constants = l.constants := by
  unfold addInput at ran
  split at ran
  · cases ran
    rfl
  · obtain ⟨fact,-,ran⟩ := bind_ok.mp ran
    obtain ⟨q,-,ran⟩ := bind_ok.mp ran
    obtain ⟨q',-,equal⟩ := bind_ok.mp ran
    cases equal
    rfl

theorem addStep_built {index : Nat} (built : Built l.graph) (ran : l.addStep r s index = .ok l') : Built l'.graph := by
  obtain ⟨block,-,laid⟩ := addStep_lay.mp ran
  exact (lay_named built laid).1

theorem addSteps_built {qs : List (Step × Nat)} (built : Built l.graph)
    (ran : qs.foldlM (fun l q => l.addStep r q.1 q.2) l = .ok l') : Built l'.graph :=
  foldlM_keeps (P := fun l => Built l.graph) (fun _ _ _ _ built ran => addStep_built built ran) built ran

end Lowering

namespace Model
open Lowering TensorGraph.Graph

variable {m : Model} {r : Registry} {serial : Nat} {e : Fault}

theorem opened_built {start : Lowering} (ran : m.opened serial = .ok start) : Built start.graph := by
  obtain ⟨middle,constants,inputs⟩ := bind_ok.mp ran
  have first : Built middle.graph := foldlM_keeps (P := fun l => Built l.graph)
    (fun _ _ _ _ built ran => addConstant_built built ran) (.empty serial _) constants
  exact foldlM_keeps (P := fun l => Built l.graph) (fun _ _ _ _ built ran => addInput_built built ran) first inputs

theorem opened_rejection (failed : m.opened serial = .error e) : Rejection m r e := by
  rcases bind_error.mp failed with failed | ⟨middle,-,failed⟩
  · obtain ⟨before,c,after,l,whole,-,failed⟩ := foldlM_error failed
    rcases addConstant_error failed with refused | unread
    · exact .invalid refused
    · exact .constant c (by simp [whole]) unread
  · obtain ⟨before,d,after,l,whole,-,failed⟩ := foldlM_error failed
    rcases addInput_error failed with refused | unread
    · exact .invalid refused
    · exact .input d (by simp [whole]) unread

-- What is held as a constant is what the model stores, from the constants on through all steps.
theorem opened_stored {start : Lowering} (ran : m.opened serial = .ok start) : m.Stocks start.constants := by
  obtain ⟨middle,constants,inputs⟩ := bind_ok.mp ran
  have first : m.Stocks middle.constants := by
    refine foldlM_keeps (P := fun l => m.Stocks l.constants)
      (fun l c l' member stored added => ?_) (fun _ _ none => by cases none) constants
    rw [addConstant_read] at added
    obtain ⟨⟨array,held⟩,read,added⟩ := bind_ok.mp added
    obtain ⟨q,-,equal⟩ := bind_ok.mp added
    cases equal
    intro x t found
    dsimp only at found
    rw [List.lookup_cons] at found
    split at found
    · rename_i here
      cases found
      exact ⟨c,member,(beq_iff_eq.mp here).symm,held,read⟩
    · exact stored x t found
  refine foldlM_keeps (P := fun l => m.Stocks l.constants)
    (fun l d l' _ stored added => ?_) first inputs
  rw [addInput_constants added]
  exact stored

theorem steps_rejection {start : Lowering} (stored : m.Stocks start.constants)
    (failed : m.steps.zipIdx.foldlM (fun l p => l.addStep r p.1 p.2) start = .error e) : Rejection m r e := by
  obtain ⟨before,q,after,l,whole,ran,failed⟩ := foldlM_error failed
  have step : q.1 ∈ m.steps := List.fst_mem_of_mem_zipIdx (k := 0) (by simp [whole])
  refine addStep_error step ?_ failed
  refine foldlM_keeps (P := fun l => m.Stocks l.constants)
    (fun l p l' _ stored added => ?_) stored ran
  obtain ⟨block,-,laid⟩ := addStep_lay.mp added
  rw [(lay_used laid).1]
  exact stored

-- A model that has no graph is rejected for one of the reasons there are.
theorem toGraph_rejection (failed : m.toGraph r serial = .error e) : Rejection m r e := by
  rw [toGraph_eq] at failed
  rcases bind_error.mp failed with failed | ⟨start,opened,failed⟩
  · exact opened_rejection failed
  rcases bind_error.mp failed with failed | ⟨l,stepped,failed⟩
  · exact steps_rejection (opened_stored opened) failed
  have built := addSteps_built (opened_built opened) stepped
  rcases bind_error.mp failed with failed | ⟨l',connected,failed⟩
  · obtain ⟨before,p,after,middle,-,ran,failed⟩ := foldlM_error failed
    exact (connect_error (connects_built built ran) failed).elim .invalid .cyclic
  have built' := connects_built built connected
  rcases bind_error.mp failed with failed | ⟨l'',designated,failed⟩
  · exact .invalid (raises_foldlM (fun l d _ => addOutput_refused l d) l' e failed)
  rcases bind_error.mp failed with failed | ⟨u,-,failed⟩
  · obtain ⟨n,-,-,-,equal⟩ := validate_fault (built_invariant (addOutputs_built built' designated)) failed
    cases equal
    exact .invalid rfl
  · cases failed

end Model
end TensorGraph
