import TensorGraph.Proofs.Op.Folding
import TensorGraph.Proofs.Plan.Refinement

namespace TensorGraph
open Outcome

theorem Tensor.ofDatum_unread (d : Datum) (dtype : Option DType) : Unread (Tensor.ofDatum d dtype) := by
  unfold Tensor.ofDatum
  dsimp only
  split
  · exact (raises_mapM fun _ _ => Scalar.ofDatum_unread _ _).bind fun _ _ => raises_ok _
  · exact raises_stop rfl

theorem Tensor.ofTensor_unread (t : Tensor) (dtype : Option DType) : Unread (t.ofTensor dtype) := by
  unfold Tensor.ofTensor
  split
  · exact raises_ok _
  · split
    · exact raises_ok _
    · exact (t.cast_raises _).mono fun _ => And.left

theorem Attribute.toTensor_unread (value : Attribute) (dtype : Option DType) : Unread (value.toTensor dtype) := by
  unfold Attribute.toTensor
  split
  · exact Tensor.ofTensor_unread _ _
  · exact Tensor.ofTensor_unread _ _
  · exact Tensor.ofDatum_unread _ _
  · split
    · exact Tensor.ofDatum_unread _ _
    · exact (raises_fail _).mpr rfl

-- What a node fails with when a cause is found at it.
def Node.fault (n : Node) (c : Cause) : Fault := (c : Fault).at? (n.id : Int) (some n.name)

-- A tensor is turned down for a conflict with what is known of it.
theorem Fact.check_conflicts (f : Fact) (t : Tensor) : Raises (fun k => k.isA .factConflict = true) (f.check t) := by
  unfold check
  repeat' split
  all_goals first
    | exact raises_ok _
    | exact (raises_fail _).mpr rfl

namespace Plan

-- A key of the feeds names the node, and the value is what it gives.
def Supplied (g : Graph) (feeds : Feeds) (ref : NodeRef) (n : Node) (value : Attribute) : Prop :=
  (ref,value) ∈ Feeds.collapse feeds ∧ g.resolve ref = .ok n

-- What is reported of feeds: a key that names no node, no input or an input that another key names too, and a
-- value that does not become a tensor or that contradicts what is known of the input.
inductive Refused (p : Plan) (g : Graph) (feeds : Feeds) : Fault → Prop where
  | unknown : (ref,value) ∈ Feeds.collapse feeds → g.resolve ref = .error f → f.kind = .invalidInput →
      Refused p g feeds f
  | foreign : Supplied g feeds ref n value → g.isInput n.id = false → Refused p g feeds (n.fault .notGraphInput)
  | twice : Supplied g feeds ref n value → Supplied g feeds ref' n value' → ref ≠ ref' →
      Refused p g feeds (n.fault .suppliedTwice)
  | unreadable : Supplied g feeds ref n value → g.inputFact n.id = .ok declared →
      value.toTensor declared.dtype = .error e → e.isBadValue = true →
      Refused p g feeds (n.fault (.cannotConvert e.text))
  | rejected : Supplied g feeds ref n value → g.inputFact n.id = .ok declared →
      convert n declared.dtype value = .ok t → p.settings.validateInputs = true →
      p.inputFacts g n = .ok facts → fact ∈ facts → fact.check t = .error e → e.kind.isA .factConflict = true →
      Refused p g feeds (n.fault (.inputRejected e.kind (Cause.reasonText e.cause.message)))

-- What comes out although no one reports it: a number too large for the type it is converted to, an input that
-- the analysis does not know, and an output of a fed node that has no tensor.
inductive Escapes (p : Plan) (g : Graph) (feeds : Feeds) : Fault → Prop where
  | oversized : Supplied g feeds ref n value → g.isInput n.id = true → g.inputFact n.id = .ok declared →
      value.toTensor declared.dtype = .error e → e.kind = .overflow → Escapes p g feeds e
  | unanalysed : Supplied g feeds ref n value → g.isInput n.id = true → p.settings.validateInputs = true →
      p.analysis = some a → a.facts.get? ⟨n.id,0⟩ = none →
      Escapes p g feeds (Cause.outletMissing (Outlet.text ⟨n.id,0⟩) g.name)
  | starved : p.Starved g → Escapes p g feeds (Cause.unworded .key)

-- Required inputs that no key names are listed, in the order in which they are scheduled.
def Unsupplied (p : Plan) (g : Graph) (feeds : Feeds) (f : Fault) : Prop :=
  ∃ missing : List Node, missing ≠ [] ∧ f = (Cause.noValueSupplied (missing.map fun n => s!"#{(n.id : Int)} {n.name}")) ∧
    (missing.map fun n => (n.id : Int)).Sublist p.required ∧
    ∀ n, n ∈ missing ↔ (n.id : Int) ∈ p.required ∧ g.get? n.id = some n ∧ ∀ value, ¬ Gives g feeds n.id value

-- The report of an evaluation: it names the node, and it is one of shape or of type just when the operator's own
-- fault is. The operator may also return the wrong number of tensors.
structure Blames (n : Node) (args : List Tensor) (f : Fault) : Prop where
  kind : f.kind.isA .evaluation = true
  node : f.node = some (n.id : Int)
  name : f.nodeName = some n.name
  opType : f.opType = some n.opType
  cause : (∃ e, n.operator.eval args = .error e ∧ f.source = some e.kind) ∨
    ∃ ts, n.operator.eval args = .ok ts ∧ ts.length ≠ n.operator.outputCount
  shape : f.kind.isA .shapeMismatch = true ↔ ∃ e, n.operator.eval args = .error e ∧ e.kind.isA .shapeMismatch = true
  type : f.kind.isA .typeMismatch = true ↔ ∃ e, n.operator.eval args = .error e ∧ e.kind.isA .typeMismatch = true

-- The evaluation of a scheduled node has failed, on what its inputs stand for.
def Failed (p : Plan) (g : Graph) (bound : Bindings) (f : Fault) : Prop :=
  ∃ n args, (n.id : Int) ∈ p.schedule ∧ g.get? n.id = some n ∧ g.isInput n.id = false ∧ (n.id : Int) ∉ p.folded ∧
    List.Forall₂ (Value p g bound) n.inputs args ∧ Blames n args f

-- How runs end.
inductive Ends (p : Plan) (g : Graph) (refs : List OutletRef) (feeds : Feeds) : Outcome RunResult → Prop where
  | returned : p.bind g feeds = .ok bound → ¬ p.Starved g →
      List.Forall₂ (fun ref t => ∃ o, request g ref = .ok o ∧ Value p g bound o t) refs r.outputs →
      Ends p g refs feeds (.ok r)
  | refused : Refused p g feeds f → Ends p g refs feeds (.error f)
  | unsupplied : Unsupplied p g feeds f → Ends p g refs feeds (.error f)
  | failed : p.bind g feeds = .ok bound → Failed p g bound f → Ends p g refs feeds (.error f)
  | escaped : Escapes p g feeds f → Ends p g refs feeds (.error f)

variable {p : Plan} {g : Graph} {bound : Bindings} {feeds : Feeds} {f : Fault} {n : Node} {ref : NodeRef}
  {value : Attribute}

theorem refused_kind (refused : Refused p g feeds f) :
    f.kind = .invalidInput ∨ f.kind.isA .factConflict = true := by
  cases refused with
  | unknown _ _ kind => exact .inl kind
  | foreign | twice => exact .inl rfl
  | unreadable => exact .inr rfl
  | rejected _ _ _ _ _ _ _ kind => exact .inr kind

theorem collapse_distinct (feeds : Feeds) : ((Feeds.collapse feeds).map (·.1)).Nodup := by
  unfold Feeds.collapse
  apply List.foldlRecOn (motive := fun fs : Feeds => (fs.map Prod.fst).Nodup)
  · exact List.nodup_nil
  intro given distinct feed _
  dsimp only
  split
  · rw [List.map_map]
    exact distinct
  · rename_i fresh
    rw [List.map_append,List.map_singleton]
    refine List.Nodup.append distinct (List.nodup_singleton _) ?_
    simpa using fresh

theorem resolve_error (failed : g.resolve ref = .error f) : f.kind = .invalidInput := by
  cases ref with
  | id i =>
    change g.node i = .error f at failed
    unfold Graph.node at failed
    split at failed <;> cases failed
    rfl
  | name s =>
    change g.nodeNamed s = .error f at failed
    unfold Graph.nodeNamed at failed
    split at failed <;> cases failed
    rfl

theorem inputFact_designated {id : Int} (designated : g.isInput id = true) : ∃ declared, g.inputFact id = .ok declared := by
  unfold Graph.inputFact
  cases found : g.inputFacts.lookup id with
  | some declared => exact ⟨declared,rfl⟩
  | none =>
    obtain ⟨⟨i,fact⟩,member,rfl⟩ := List.mem_map.mp (mem_inputs.mp designated)
    exact absurd rfl (bne_iff_ne.mp (List.lookup_eq_none_iff.mp found _ member))

theorem rejected_conflict {e : Fault} (conflict : e.kind.isA .factConflict = true) :
    rejected n e = n.fault (.inputRejected e.kind (Cause.reasonText e.cause.message)) := by
  unfold rejected
  rw [if_pos conflict]
  rfl

-- A value that does not become a tensor is reported, unless it is too large for the type.
theorem convert_fault (supplied : Supplied g feeds ref n value) (designated : g.isInput n.id = true)
    (fact : g.inputFact n.id = .ok declared) (failed : convert n declared.dtype value = .error f) :
    Refused p g feeds f ∨ Escapes p g feeds f := by
  unfold convert at failed
  split at failed
  · cases failed
  · split at failed
    · cases failed
    · rename_i unread
      split at failed
      · rename_i bad
        cases failed
        exact .inl (.unreadable supplied fact unread bad)
      · rename_i other
        cases failed
        have kind := value.toTensor_unread declared.dtype _ unread
        refine .inr (.oversized supplied designated fact unread ?_)
        unfold Kind.isUnread at kind
        unfold Fault.isBadValue at other
        simpa [other] using kind

-- What is known of a designated input is there, unless the analysis does not know its outlet.
theorem inputFacts_fault (fact : g.inputFact n.id = .ok declared) (failed : p.inputFacts g n = .error f) :
    ∃ a, p.analysis = some a ∧ a.facts.get? ⟨n.id,0⟩ = none ∧
      f = Cause.outletMissing (Outlet.text ⟨n.id,0⟩) g.name := by
  unfold inputFacts at failed
  rw [fact,ok_bind] at failed
  split at failed
  · rename_i a analysed
    rcases bind_error.mp failed with missing | ⟨_,-,failed⟩
    · unfold Analysis.fact at missing
      split at missing
      · cases missing
      · rename_i none
        cases missing
        exact ⟨a,analysed,none,rfl⟩
    · cases failed
  · cases failed

-- A value that is not received is refused, unless it is too large or the analysis does not know the input.
theorem receive_fault (supplied : Supplied g feeds ref n value) (designated : g.isInput n.id = true)
    (failed : p.receive g n value = .error f) : Refused p g feeds f ∨ Escapes p g feeds f := by
  obtain ⟨declared,fact⟩ := inputFact_designated designated
  unfold receive at failed
  rw [fact,ok_bind] at failed
  rcases bind_error.mp failed with conversion | ⟨t,converted,failed⟩
  · exact convert_fault supplied designated fact conversion
  dsimp only at failed
  split at failed
  · rename_i validates
    rcases bind_error.mp failed with unknown | ⟨facts,found,failed⟩
    · obtain ⟨a,analysed,none,rfl⟩ := inputFacts_fault fact unknown
      exact .inr (.unanalysed supplied designated validates analysed none)
    · rcases bind_error.mp failed with checked | ⟨_,-,failed⟩
      · obtain ⟨known,member,checked⟩ := forM_error checked
        obtain ⟨e,conflict,equal⟩ := mapError_error.mp checked
        have kind := known.check_conflicts t e conflict
        rw [rejected_conflict kind] at equal
        subst equal
        exact .inl (.rejected supplied fact converted validates found member conflict kind)
      · cases failed
  · cases failed

-- The key of a feed is unknown, or its node cannot be fed or has been, or the value is not received.
theorem bindOne_fault (numbered : g.Numbered) {before after : Feeds} {feed : NodeRef × Attribute}
    (split : Feeds.collapse feeds = before ++ feed :: after) (ran : before.foldlM (p.bindOne g) [] = .ok bound)
    (failed : p.bindOne g bound feed = .error f) : Refused p g feeds f ∨ Escapes p g feeds f := by
  obtain ⟨ref,value⟩ := feed
  have member : (ref,value) ∈ Feeds.collapse feeds := by rw [split]; simp
  unfold bindOne at failed
  rcases bind_error.mp failed with unknown | ⟨n,resolved,failed⟩
  · exact .inl (.unknown member unknown (resolve_error unknown))
  dsimp only at failed
  simp only [Int.ofNat_eq_natCast] at failed
  have supplied : Supplied g feeds ref n value := ⟨member,resolved⟩
  split at failed
  · rename_i designated
    split at failed
    · rename_i again
      cases failed
      obtain ⟨t,found⟩ := Option.isSome_iff_exists.mp again
      rcases (foldlM_bindOne ran _ t).mp found with none | ⟨⟨ref',value'⟩,earlier,m,resolved',number,designated',-⟩
      · cases none
      · have here : g.get? m.id = some m := resolve_known numbered resolved'
        rw [number,resolve_known numbered resolved] at here
        cases here
        have distinct := collapse_distinct feeds
        rw [split,List.map_append,List.map_cons] at distinct
        have apart := (List.nodup_append.mp distinct).2.2 ref' (List.mem_map_of_mem earlier) ref List.mem_cons_self
        exact .inl (.twice supplied ⟨by rw [split]; exact List.mem_append_left _ earlier,resolved'⟩ apart.symm)
    · rcases bind_error.mp failed with refused | ⟨_,-,failed⟩
      · exact receive_fault supplied designated refused
      · cases failed
  · rename_i other
    cases failed
    exact .inl (.foreign supplied (by simpa using other))

-- What a key names has a tensor once all feeds are bound.
theorem gives_bound {given : Feeds} (ran : given.foldlM (p.bindOne g) [] = .ok bound) {feed : NodeRef × Attribute}
    (member : feed ∈ given) (resolved : g.resolve feed.1 = .ok n) : (bound.lookup (n.id : Int)).isSome = true := by
  refine foldlM_establishes (Q := fun feed (s : Bindings) => ∀ n, g.resolve feed.1 = .ok n →
    (s.lookup (n.id : Int)).isSome = true) ?_ ?_ ran feed member n resolved
  · intro s feed s' step n resolved
    obtain ⟨m,t,resolved',-,free,-,rfl⟩ := bindOne_ok.mp step
    rw [resolved] at resolved'
    cases resolved'
    simp [List.lookup_append,free]
  · intro s feed s' other step known n resolved
    obtain ⟨m,t,-,-,-,-,rfl⟩ := bindOne_ok.mp step
    obtain ⟨u,found⟩ := Option.isSome_iff_exists.mp (known n resolved)
    simp [List.lookup_append,found]

-- No tensor is bound to a node just when no key that names it gives one.
theorem lookup_none (ran : (Feeds.collapse feeds).foldlM (p.bindOne g) [] = .ok bound) {id : Int} :
    bound.lookup id = none ↔ ∀ value, ¬ Gives g feeds id value := by
  rw [Option.eq_none_iff_forall_ne_some]
  constructor
  · rintro unbound value ⟨ref,m,given,resolved,rfl⟩
    obtain ⟨t,found⟩ := Option.isSome_iff_exists.mp (gives_bound ran given resolved)
    exact unbound t found
  · intro none t entry
    rcases (foldlM_bindOne ran _ t).mp entry with old | ⟨⟨ref,value⟩,given,m,resolved,number,-,-⟩
    · cases old
    · exact none value ⟨ref,m,given,resolved,number⟩

-- The names of nodes of the graph can be listed.
theorem nodes_named (numbered : g.Numbered) {ids : List Int} {nodes : List Node}
    (found : List.Forall₂ (fun id n => g.get? id = some n) ids nodes) :
    ids.mapM (fun id => do
      let n ← g.node id
      return s!"#{id} {n.name}") = (.ok (nodes.map fun n => s!"#{(n.id : Int)} {n.name}") : Outcome (List String)) := by
  rw [mapM_ok,List.forall₂_map_right_iff]
  refine found.imp fun id n here => ?_
  rw [Graph.node_ok.mpr here,numbered.id_eq here]
  rfl

theorem bind_fault (wired : g.Wired) (laid : p.Laid g refs) (failed : p.bind g feeds = .error f) :
    Refused p g feeds f ∨ Unsupplied p g feeds f ∨ Escapes p g feeds f := by
  unfold bind at failed
  rcases bind_error.mp failed with stuck | ⟨bound,ran,failed⟩
  · obtain ⟨before,feed,after,bound,split,ran,stuck⟩ := foldlM_error stuck
    rcases bindOne_fault wired.numbered split ran stuck with refused | escapes
    · exact .inl refused
    · exact .inr (.inr escapes)
  dsimp only at failed
  split at failed
  · cases failed
  rename_i incomplete
  obtain ⟨absent,list⟩ : ∃ ids, ids = p.required.filter fun id => (bound.lookup id).isNone := ⟨_,rfl⟩
  have lacks : ∀ id, id ∈ absent ↔ id ∈ p.required ∧ ∀ value, ¬ Gives g feeds id value := fun id => by
    rw [list,List.mem_filter,Option.isNone_iff_eq_none,lookup_none ran]
  rw [←list] at failed incomplete
  have known : ∀ id ∈ absent, ∃ n, g.get? id = some n := fun id member => by
    have required := ((lacks id).mp member).1
    rw [laid.required] at required
    exact laid.schedule.known id (List.mem_filter.mp required).1
  obtain ⟨missing,nodes⟩ := exists_forall₂ known
  have numbers : missing.map (fun n => (n.id : Int)) = absent := by
    rw [←List.forall₂_eq_eq_eq,List.forall₂_map_left_iff]
    exact nodes.flip.imp fun n id found => wired.numbered.id_eq found
  rw [nodes_named wired.numbered nodes,ok_bind] at failed
  cases failed
  refine .inr (.inl ⟨missing,?_,rfl,?_,fun n => ⟨fun member => ?_,?_⟩⟩)
  · rintro rfl
    exact incomplete (by rw [←numbers]; rfl)
  · rw [numbers,list]
    exact List.filter_sublist
  · obtain ⟨id,absence,found⟩ := forall₂_right nodes n member
    obtain rfl := wired.numbered.id_eq found
    obtain ⟨required,unsupplied⟩ := (lacks _).mp absence
    exact ⟨required,found,unsupplied⟩
  · rintro ⟨required,found,unsupplied⟩
    obtain ⟨m,member,here⟩ := forall₂_left nodes (n.id : Int) ((lacks _).mpr ⟨required,unsupplied⟩)
    cases found.symm.trans here
    exact member

-- What is kept at any time stands for what the outlet stands for.
def Held (p : Plan) (g : Graph) (bound : Bindings) (s : Progress) : Prop :=
  ∀ o t, s.cache.get? o = some t → Value p g bound o t

theorem get_error {α : Type} {table : Table α} {o : Outlet} (failed : table.get o = .error f) :
    f = (Cause.unworded .key : Fault) := by
  unfold Table.get at failed
  split at failed
  · cases failed
  · cases failed
    rfl

theorem gets_error {α : Type} {table : Table α} {os : List Outlet} (failed : os.mapM table.get = .error f) :
    f = (Cause.unworded .key : Fault) := by
  obtain ⟨o,-,failed⟩ := mapM_error failed
  exact get_error failed

theorem keep_found {s : Progress} {produced : List (Outlet × Tensor)} {o : Outlet} {t : Tensor}
    (kept : (p.keep s produced).get? o = some t) : s.cache.get? o = some t ∨ (o,t) ∈ produced := by
  unfold keep at kept
  generalize s.cache = cache at kept ⊢
  induction produced generalizing cache with
  | nil => exact .inl kept
  | cons e produced ih =>
    rcases ih _ kept with before | later
    · dsimp only at before
      split at before
      · rw [Table.get?_set] at before
        split at before
        · rename_i here
          cases before
          subst here
          exact .inr List.mem_cons_self
        · exact .inl before
      · exact .inl before
    · exact .inr (List.mem_cons_of_mem _ later)

theorem release_held {s s' : Progress} {o : Outlet} (held : Held p g bound s) (released : p.release s o = .ok s') :
    Held p g bound s' := by
  unfold release at released
  obtain ⟨uses,-,released⟩ := bind_ok.mp released
  dsimp only at released
  split at released
  · obtain ⟨_,-,equal⟩ := bind_ok.mp released
    cases equal
    intro q t kept
    dsimp only at kept
    rw [Table.get?_erase] at kept
    split at kept
    · cases kept
    · exact held q t kept
  · cases released
    exact held

theorem release_fault {s : Progress} {o : Outlet} (failed : p.release s o = .error f) :
    f = (Cause.unworded .key : Fault) := by
  unfold release at failed
  rcases bind_error.mp failed with missing | ⟨uses,-,failed⟩
  · exact get_error missing
  dsimp only at failed
  split at failed
  · rcases bind_error.mp failed with missing | ⟨_,-,failed⟩
    · exact get_error missing
    · cases failed
  · cases failed

theorem gets_value {s : Progress} {os : List Outlet} {ts : List Tensor} (held : Held p g bound s)
    (taken : os.mapM s.cache.get = .ok ts) : List.Forall₂ (Value p g bound) os ts :=
  (mapM_ok.mp taken).imp fun o t found => held o t (Table.get_ok.mp found)

-- What a step computes is what its node stands for.
theorem compute_means (laid : p.Laid g refs) {s : Progress} {ts : List Tensor} {flag : Bool} (held : Held p g bound s)
    (found : g.get? n.id = some n) (computed : p.compute bound s n = .ok (ts,flag)) : Means p g bound n.id ts := by
  unfold compute at computed
  simp only [Int.ofNat_eq_natCast] at computed
  split at computed
  · rename_i t fed
    cases computed
    exact .fed fed
  · rename_i unbound
    split at computed
    · rename_i folded
      have folded : (n.id : Int) ∈ p.folded := by simpa using folded
      obtain ⟨values,taken,equal⟩ := bind_ok.mp computed
      cases equal
      obtain ⟨a,analysed,-⟩ := laid.folded _ folded
      refine .folded unbound folded found analysed ((forall₂_mem (mapM_ok.mp taken)).imp fun o t ⟨outlet,entry⟩ => ?_)
      obtain ⟨f,u,fact,value,held⟩ := laid.constants _ folded a analysed n found o outlet
      rw [Table.get_ok,held] at entry
      cases entry
      exact ⟨f,fact,value⟩
    · rename_i computes
      obtain ⟨args,taken,computed⟩ := bind_ok.mp computed
      obtain ⟨values,evaluated,equal⟩ := bind_ok.mp computed
      cases equal
      exact (means_evaluated unbound (by simpa using computes) found).mpr ⟨args,gets_value held taken,evaluated⟩

-- Either the evaluation of the node fails, or a tensor that is taken is not there.
theorem compute_fault {s : Progress} (held : Held p g bound s) (found : g.get? n.id = some n)
    (failed : p.compute bound s n = .error f) : Fails p g bound n.id f ∨ f = (Cause.unworded .key : Fault) := by
  unfold compute at failed
  simp only [Int.ofNat_eq_natCast] at failed
  split at failed
  · cases failed
  · rename_i unbound
    split at failed
    · rcases bind_error.mp failed with missing | ⟨_,-,failed⟩
      · exact .inr (gets_error missing)
      · cases failed
    · rename_i computes
      rcases bind_error.mp failed with missing | ⟨args,taken,failed⟩
      · exact .inr (gets_error missing)
      · rcases bind_error.mp failed with stuck | ⟨_,-,failed⟩
        · exact .inl ⟨unbound,by simpa using computes,n,args,found,gets_value held taken,stuck⟩
        · cases failed

theorem step_held (wired : g.Wired) (laid : p.Laid g refs) {s s' : Progress} {id : Int} (held : Held p g bound s)
    (stepped : p.step g bound s id = .ok s') : Held p g bound s' := by
  unfold step at stepped
  obtain ⟨n,found,stepped⟩ := bind_ok.mp stepped
  obtain ⟨⟨ts,flag⟩,computed,stepped⟩ := bind_ok.mp stepped
  have found := Graph.node_ok.mp found
  obtain rfl := wired.numbered.id_eq found
  have means := compute_means laid held found computed
  have kept : ∀ stats, Held p g bound ⟨p.keep s (n.outlets.zip ts),s.remaining,stats⟩ := by
    intro stats o t entry
    rcases keep_found entry with old | new
    · exact held o t old
    · obtain ⟨outlet,at_⟩ := mem_zip_outlets.mp new
      obtain ⟨here,low,-⟩ := Node.mem_outlets.mp outlet
      exact (value_of_node means here).mpr ⟨low,at_⟩
  dsimp only at stepped
  split at stepped
  · cases stepped
    exact kept _
  · obtain ⟨after,released,equal⟩ := bind_ok.mp stepped
    cases equal
    have left : Held p g bound after :=
      foldlM_keeps (P := Held p g bound) (fun _ _ _ _ held released => release_held held released) (kept _) released
    exact left

theorem step_fault (wired : g.Wired) {s : Progress} {id : Int} (held : Held p g bound s) (known : g.Known id)
    (failed : p.step g bound s id = .error f) : Fails p g bound id f ∨ f = (Cause.unworded .key : Fault) := by
  obtain ⟨n,found⟩ := known
  obtain rfl := wired.numbered.id_eq found
  unfold step at failed
  rw [Graph.node_ok.mpr found,ok_bind] at failed
  rcases bind_error.mp failed with stuck | ⟨⟨ts,flag⟩,-,failed⟩
  · exact compute_fault held found stuck
  dsimp only at failed
  split at failed
  · cases failed
  · rcases bind_error.mp failed with missing | ⟨_,-,failed⟩
    · obtain ⟨_,_,_,_,-,-,missing⟩ := foldlM_error missing
      exact .inr (release_fault missing)
    · cases failed

theorem steps_held (wired : g.Wired) (laid : p.Laid g refs) {ids : List Int} {s : Progress}
    (ran : ids.foldlM (p.step g bound) p.start = .ok s) : Held p g bound s :=
  foldlM_keeps (P := Held p g bound) (fun _ _ _ _ held stepped => step_held wired laid held stepped)
    (fun o t kept => by simp [start] at kept) ran

-- A fed node stands for one tensor.
theorem fed_value {o : Outlet} {t : Tensor} (fed : (bound.lookup o.node).isSome = true) (value : Value p g bound o t) :
    o.slot = 0 := by
  obtain ⟨low,ts,means,at_⟩ := value
  obtain ⟨u,fed⟩ := Option.isSome_iff_exists.mp fed
  obtain rfl := (Means.fed fed).unique means
  have within := (List.getElem?_eq_some_iff.mp at_).1
  rw [List.length_singleton] at within
  omega

-- An output without a tensor is missed, at the latest when the outputs are collected.
theorem starved_never (wired : g.Wired) (entered : g.Entered) (laid : p.Laid g refs) (accepted : p.bind g feeds = .ok bound)
    (starved : p.Starved g) {s : Progress} (ran : p.schedule.foldlM (p.step g bound) p.start = .ok s) (ts : List Tensor) :
    p.outputs.mapM s.cache.get ≠ .ok ts := by
  intro collected
  obtain ⟨o,designated,other,used⟩ := starved
  have supplied : o.node ∈ p.schedule → (bound.lookup o.node).isSome = true := fun scheduled => by
    refine bind_required accepted _ ?_
    rw [laid.required]
    exact List.mem_filter.mpr ⟨scheduled,designated⟩
  rcases used with asked | source
  · obtain ⟨t,-,value⟩ := forall₂_left (gets_value (steps_held wired laid ran) collected) o asked
    exact other (fed_value (supplied (laid.schedule.targets o asked)) value)
  · obtain ⟨id,scheduled,computes,n,found,source⟩ := mem_taken.mp source
    obtain rfl := wired.numbered.id_eq found
    obtain ⟨before,after,split⟩ := List.append_of_mem scheduled
    have earlier := laid.schedule.after before _ after n split computes found o source
    rw [split,List.foldlM_append] at ran
    obtain ⟨middle,reached,ran⟩ := bind_ok.mp ran
    rw [List.foldlM_cons] at ran
    obtain ⟨next,stepped,-⟩ := bind_ok.mp ran
    unfold step at stepped
    rw [Graph.node_ok.mpr found,ok_bind] at stepped
    obtain ⟨⟨us,flag⟩,computed,-⟩ := bind_ok.mp stepped
    have means := compute_means laid (steps_held wired laid reached) found computed
    cases means with
    | fed given =>
      have entry := ((bind_lookup wired accepted _ _).mp given).1
      obtain ⟨m,found',bare⟩ := entered _ (mem_inputs.mp entry)
      rw [found] at found'
      cases found'
      rw [bare] at source
      cases source
    | folded _ folded => exact computes folded
    | evaluated _ _ found' sources args =>
      rw [found] at found'
      cases found'
      obtain ⟨t,-,low,at_⟩ := forall₂_left args o source
      refine other (fed_value (supplied ?_) ⟨low,_,sources o source,at_⟩)
      rw [split]
      exact List.mem_append_left _ earlier

theorem evaluating_kind (e : Fault) (node : Int) (name opType : String) :
    (e.evaluating node name opType).kind.isA .evaluation = true ∧
      (e.evaluating node name opType).kind.isA .shapeMismatch = e.kind.isA .shapeMismatch ∧
      (e.evaluating node name opType).kind.isA .typeMismatch = e.kind.isA .typeMismatch := by
  have kind : (e.evaluating node name opType).kind =
      if e.kind.isA .shapeMismatch then Kind.shapeEvaluation
      else if e.kind.isA .typeMismatch then Kind.typeEvaluation else Kind.evaluation := rfl
  rw [kind]
  cases e.kind <;> exact ⟨rfl,rfl,rfl⟩

-- What a node's evaluation fails with says so, and whether it was a matter of shape or of type.
theorem evaluate_blames {args : List Tensor} (failed : evaluate n args = .error f) : Blames n args f := by
  unfold evaluate at failed
  cases evaluated : n.operator.eval args with
  | error e =>
    rw [evaluated] at failed
    cases failed
    obtain ⟨kind,shape,type⟩ := evaluating_kind e n.id n.name n.opType
    exact ⟨kind,rfl,rfl,rfl,.inl ⟨e,evaluated,rfl⟩,by simp [evaluated,shape],by simp [evaluated,type]⟩
  | ok ts =>
    rw [evaluated] at failed
    simp only [Except.mapError,ok_bind] at failed
    split at failed
    · cases failed
    · rename_i count
      cases failed
      have plain : ∀ k : Kind, Kind.evaluation.isA k = false → (Kind.evaluation.isA k = true ↔
          ∃ e, n.operator.eval args = .error e ∧ e.kind.isA k = true) := fun k other => by simp [evaluated,other]
      exact ⟨rfl,rfl,rfl,rfl,.inr ⟨ts,evaluated,count⟩,plain _ rfl,plain _ rfl⟩

theorem fails_failed (wired : g.Wired) (laid : p.Laid g refs) (accepted : p.bind g feeds = .ok bound) {id : Int}
    (scheduled : id ∈ p.schedule) (fails : Fails p g bound id f) : Failed p g bound f := by
  obtain ⟨n,args,found,values,failed⟩ := fails.evaluates
  obtain rfl := wired.numbered.id_eq found
  refine ⟨n,args,scheduled,found,?_,fails.computed,values,evaluate_blames failed⟩
  refine Bool.eq_false_iff.mpr fun designated => ?_
  have given := bind_required accepted (n.id : Int) (by rw [laid.required]; exact List.mem_filter.mpr ⟨scheduled,designated⟩)
  rw [fails.unbound] at given
  cases given

-- Any run of any plan ends in one of these ways.
theorem execute_ends (built : g.Built) (made : make config g refs known = .ok p) (feeds : Feeds) :
    Ends p g (refs.getD (g.outputs.map .outlet)) feeds (p.execute g feeds) := by
  have wired := Graph.built_wired built
  have laid := (make_laid wired made).1
  cases accepted : p.bind g feeds with
  | error f =>
    have stuck : p.execute g feeds = .error f := by
      unfold execute
      rw [accepted]
      rfl
    rw [stuck]
    rcases bind_fault wired laid accepted with refused | unsupplied | escapes
    · exact .refused refused
    · exact .unsupplied unsupplied
    · exact .escaped escapes
  | ok bound =>
    by_cases starved : p.Starved g
    · have executes : p.execute g feeds = (do
          let s ← p.schedule.foldlM (p.step g bound) p.start
          return ⟨← p.outputs.mapM s.cache.get,s.stats⟩) := by
        unfold execute
        rw [accepted]
        rfl
      rw [executes]
      cases ran : p.schedule.foldlM (p.step g bound) p.start with
      | error f =>
        obtain ⟨before,id,after,s,split,reached,failed⟩ := foldlM_error ran
        have scheduled : id ∈ p.schedule := by rw [split]; simp
        rcases step_fault wired (steps_held wired laid reached) (laid.schedule.known id scheduled) failed with fails | rfl
        · exact .failed accepted (fails_failed wired laid accepted scheduled fails)
        · exact .escaped (.starved starved)
      | ok s =>
        rw [ok_bind]
        cases collected : p.outputs.mapM s.cache.get with
        | error f =>
          obtain rfl := gets_error collected
          exact .escaped (.starved starved)
        | ok ts => exact absurd collected (starved_never wired (Graph.built_entered built) laid accepted starved ran ts)
    · have ready := ready_of_fed wired made accepted starved
      by_cases meaning : ∀ id ∈ p.schedule, ∃ ts, Means p g bound id ts
      · obtain ⟨r,ran,values,-⟩ := execute_returns ready accepted meaning
        rw [ran]
        exact .returned accepted starved (forall₂_trans laid.outputs values fun r o t named value => ⟨o,named,value⟩)
      · obtain ⟨before,id,after,f,split,-,fails,failed⟩ := execute_fails ready accepted meaning
        rw [failed]
        exact .failed accepted (fails_failed wired laid accepted (by rw [split]; simp) fails)

theorem execute_ends_relayed : Analysis.relayed.Built ∧
    make ⟨true,true⟩ Analysis.relayed none (some Analysis.relayedAnalysis) = .ok relayedPlan ∧
    Ends relayedPlan Analysis.relayed [.outlet ⟨3,0⟩] [(.name "x",.tensor Analysis.pair)]
      (relayedPlan.execute Analysis.relayed [(.name "x",.tensor Analysis.pair)]) :=
  ⟨relayed_built,relayed_make,execute_ends relayed_built relayed_make _⟩

-- An input of small integers, which is asked for as it is.
def octet : Fact := .outline (some .u8) (some [])

def octetPart : Graph := ⟨0,"octet",[⟨0,"x",(Op.placeholder octet).operator,[]⟩],[],[]⟩

def echo : Graph := { octetPart with inputFacts := [(0,octet)], outputs := [⟨0,0⟩] }

theorem echo_built : echo.Built := by
  have x : octetPart.Built := .addNode (.empty 0 "octet")
    (show (Graph.empty 0 "octet").addNode (Op.placeholder octet).operator [] (some "x") = .ok (octetPart,0) from rfl)
  have fed : ({ octetPart with inputFacts := [(0,octet)] } : Graph).Built := .designateInput x
    (show octetPart.designateInput 0 none = .ok (_,octet) from rfl)
  exact .designateOutput fed
    (show Graph.designateOutput { octetPart with inputFacts := [(0,octet)] } ⟨0,0⟩ = .ok echo from rfl)

def echoPlan : Plan where
  graph := 0
  settings := ⟨true,true⟩
  analysis := none
  outputs := [⟨0,0⟩]
  schedule := [0]
  folded := []
  constants := .empty
  uses := .empty
  required := [0]

theorem echo_order : echo.topologicalOrder (some [⟨0,0⟩]) [] = .ok [0] :=
  Graph.topologicalOrder_walked [0] rfl (by decide) rfl rfl rfl

theorem echo_make : make ⟨true,true⟩ echo none none = .ok echoPlan :=
  make_ok.mpr ⟨nofun,[⟨0,0⟩],[],[0],_,_,rfl,nofun,rfl,echo_order,rfl,rfl,rfl⟩

-- An integer beyond the range of its type is no fault of the graph or of its use.
theorem execute_unreported : ¬ ∀ (g : Graph) config refs known p feeds, g.Built → make config g refs known = .ok p →
    (∃ r, p.execute g feeds = .ok r) ∨ ∃ f, p.execute g feeds = .error f ∧ f.kind.isLocal = true := by
  intro claim
  have ran : echoPlan.execute echo [(.name "x",.datum (.int 300))] = .error (Cause.unworded .overflow : Fault) := rfl
  rcases claim echo _ _ _ echoPlan [(.name "x",.datum (.int 300))] echo_built echo_make with ⟨r,other⟩ | ⟨f,other,is_local⟩
  · cases ran.symm.trans other
  · cases ran.symm.trans other
    cases is_local

end Plan

end TensorGraph
