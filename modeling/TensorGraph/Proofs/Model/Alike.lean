import TensorGraph.Proofs.Model.Names

namespace TensorGraph
open Outcome
open Relation (TransGen)

namespace Graph
open Lowering (collect)

variable {g g' : Graph} {i i' j' : Int} {o o' : Outlet}

-- An outlet told by the name of its node.
def endpoint (g : Graph) (o : Outlet) : Option String × Int := ((g.get? o.node).map (·.name),o.slot)

-- Graphs with the same nodes, whatever the numbers of these: names tell which belongs to which.
structure Alike (g g' : Graph) : Prop where
  name : g.name = g'.name
  unique : g.Named ∧ g'.Named
  named : ∀ s, (∃ n ∈ g.nodes, n.name = s) ↔ ∃ n ∈ g'.nodes, n.name = s
  nodes : ∀ n ∈ g.nodes, ∀ n' ∈ g'.nodes, n.name = n'.name →
    n.operator = n'.operator ∧ n.inputs.map g.endpoint = n'.inputs.map g'.endpoint
  entries : g.inputFacts.map (fun p => ((g.get? p.1).map (·.name),p.2)) =
    g'.inputFacts.map fun p => ((g'.get? p.1).map (·.name),p.2)
  exits : g.outputs.map g.endpoint = g'.outputs.map g'.endpoint

-- Nodes of two graphs with one name and operator.
def Twin (g g' : Graph) (i i' : Int) : Prop := ∃ n n', g.get? i = some n ∧ g'.get? i' = some n' ∧
  n.name = n'.name ∧ n.operator = n'.operator

structure Twins (g g' : Graph) (o o' : Outlet) : Prop where
  node : Twin g g' o.node o'.node
  slot : o.slot = o'.slot

theorem Twin.symm (twin : Twin g g' i i') : Twin g' g i' i := by
  obtain ⟨n,n',found,found',name,operator⟩ := twin
  exact ⟨n',n,found',found,name.symm,operator.symm⟩

theorem Twin.unique (numbered : g'.Numbered) (named : g'.Named) (first : Twin g g' i i') (second : Twin g g' i j') :
    i' = j' := by
  obtain ⟨n,m,found,found',name,-⟩ := first
  obtain ⟨n₂,m₂,found₂,found₂',name₂,-⟩ := second
  cases found.symm.trans found₂
  have same : m = m₂ := List.inj_on_of_nodup_map named (get?_mem found') (get?_mem found₂') (name.symm.trans name₂)
  rw [← numbered.id_eq found',← numbered.id_eq found₂',same]

theorem Twins.symm (twins : Twins g g' o o') : Twins g' g o' o := ⟨twins.node.symm,twins.slot.symm⟩

theorem Twins.endpoint (twins : Twins g g' o o') : g.endpoint o = g'.endpoint o' := by
  obtain ⟨⟨n,n',found,found',name,-⟩,slot⟩ := twins
  simp [Graph.endpoint,found,found',name,slot]

theorem Twins.outlet (twins : Twins g g' o o') (has : g.HasOutlet o) : g'.HasOutlet o' := by
  obtain ⟨⟨n,n',found,found',-,operator⟩,slot⟩ := twins
  obtain ⟨m,here,low,high⟩ := has
  cases found.symm.trans here
  exact ⟨n',found',slot ▸ low,by rw [← slot,← operator]; exact high⟩

theorem Twins.unique {p : Outlet} (numbered : g'.Numbered) (named : g'.Named) (first : Twins g g' o o')
    (second : Twins g g' o p) : o' = p := by
  have node := first.node.unique numbered named second.node
  have slot := first.slot.symm.trans second.slot
  cases o'
  cases p
  cases node
  cases slot
  rfl

-- A loop in one graph would be one in the other.
theorem acyclic_of_twins (numbered : g.Numbered) (named : g.Named) (acyclic : g.Acyclic)
    (known : ∀ a', g'.Known a' → ∃ a, Twin g g' a a')
    (follows : ∀ a a' b', Twin g g' a a' → g'.Needs a' b' → ∃ b, g.Needs a b ∧ Twin g g' b b') : g'.Acyclic := by
  have path {a a' b'} (twin : Twin g g' a a') (needs : TransGen g'.Needs a' b') :
      ∃ b, TransGen g.Needs a b ∧ Twin g g' b b' := by
    induction needs with
    | single first =>
      obtain ⟨b,needs,twin⟩ := follows _ _ _ twin first
      exact ⟨b,.single needs,twin⟩
    | tail _ last ih =>
      obtain ⟨b,before,between⟩ := ih
      obtain ⟨c,needs,twin⟩ := follows _ _ _ between last
      exact ⟨c,before.tail needs,twin⟩
  intro id loop
  obtain ⟨b,first,-⟩ := TransGen.head'_iff.mp loop
  obtain ⟨n,found,-⟩ := needs_iff.mp first
  obtain ⟨a,twin⟩ := known id ⟨n,found⟩
  obtain ⟨c,back,again⟩ := path twin loop
  rw [again.symm.unique numbered named twin.symm] at back
  exact acyclic a back

theorem twins_collect {os os' more more' : List Outlet} (numbered : g.Numbered) (named : g.Named)
    (numbered' : g'.Numbered) (named' : g'.Named) (start : List.Forall₂ (Twins g g') os os')
    (later : List.Forall₂ (Twins g g') more more') :
    List.Forall₂ (Twins g g') (more.foldl collect os) (more'.foldl collect os') := by
  induction later generalizing os os' with
  | nil => exact start
  | @cons o o' more more' twins _ ih =>
    refine ih ?_
    have same : o ∈ os ↔ o' ∈ os' := by
      constructor
      · intro member
        obtain ⟨p,there,other⟩ := forall₂_left start o member
        rwa [twins.unique numbered' named' other]
      · intro member
        obtain ⟨p,there,other⟩ := forall₂_right start o' member
        rwa [twins.symm.unique numbered named other.symm]
    unfold collect
    by_cases member : o ∈ os
    · simpa [member,same.mp member] using start
    · simpa [member,mt same.mpr member] using List.rel_append start (.cons twins .nil)

-- Of two graphs that are alike both are valid or neither is.
theorem Alike.valid (alike : g.Alike g') (inv : g.Invariant) (inv' : g'.Invariant) (valid : g.validate = .ok ()) :
    g'.validate = .ok () := by
  rw [validate_ok_iff inv] at valid
  rw [validate_ok_iff inv']
  intro n' member'
  obtain ⟨n,member,name⟩ := (alike.named n'.name).mpr ⟨n',member',rfl⟩
  obtain ⟨operator,inputs⟩ := alike.nodes n member n' member' name
  refine (valid n member).imp (fun input => ?_) fun arity => ?_
  · simp only [isInput,Graph.inputs,List.contains_eq_mem,decide_eq_true_eq,List.mem_map] at input ⊢
    obtain ⟨p,entered,number⟩ := input
    have there := List.mem_map_of_mem (f := fun p => ((g.get? p.1).map (·.name),p.2)) entered
    rw [alike.entries] at there
    obtain ⟨p',entered',same⟩ := List.mem_map.mp there
    refine ⟨p',entered',?_⟩
    rw [number,inv.numbered.get?_id member] at same
    obtain ⟨m,found,named⟩ := Option.map_eq_some_iff.mp (Prod.mk.inj same).1
    have unique : m = n' := List.inj_on_of_nodup_map alike.unique.2 (get?_mem found) member' (named.trans name)
    rw [← inv'.numbered.id_eq found,unique]
  · have count := congrArg List.length inputs
    rw [List.length_map,List.length_map] at count
    rwa [← operator,← count]

end Graph

namespace Lowering
open TensorGraph.Graph Model

variable {start start' : Lowering} {rows rows' : List Row} {row : Row} {names : List String} {i : Int} {k : Nat}
  {n : Node} {x : String} {o : Outlet}

-- The same rows in another order, after the same constants and inputs.
structure Rearranged (start start' : Lowering) (rows rows' : List Row) : Prop where
  name : start'.graph.name = start.graph.name
  nodes : start'.graph.nodes = start.graph.nodes
  entries : start'.graph.inputFacts = start.graph.inputFacts
  values : start'.values = start.values
  perm : rows.Perm rows'

theorem Rearranged.symm (moved : Rearranged start start' rows rows') : Rearranged start' start rows' rows :=
  ⟨moved.name.symm,moved.nodes.symm,moved.entries.symm,moved.values.symm,moved.perm.symm⟩

theorem Rearranged.keys (moved : Rearranged start start' rows rows') (distinct : ((given start rows).map (·.1)).Nodup) :
    ((given start' rows').map (·.1)).Nodup := by
  rw [given_keys,moved.values]
  rw [given_keys] at distinct
  refine (List.Perm.nodup_iff ?_).mp distinct
  have same := moved.perm.flatMap_right fun row => row.results.map (·.1)
  exact ((List.reverse_perm _).trans (same.trans (List.reverse_perm _).symm)).append_right _

theorem Rearranged.titles (moved : Rearranged start start' rows rows') :
    ((drawn start rows).nodes.map (·.name)).Perm ((drawn start' rows').nodes.map (·.name)) := by
  rw [drawn_nodes,drawn_nodes,frame_names,frame_names,moved.nodes]
  exact (moved.perm.map _).append_left _

theorem Rearranged.place (moved : Rearranged start start' rows rows') (member : row ∈ rows) :
    ∃ k : Nat, (row,k) ∈ rows'.zipIdx start'.graph.nodes.length :=
  exists_place (moved.perm.subset member) _

theorem Rearranged.twin (moved : Rearranged start start' rows rows') (known : (drawn start rows).Known i) :
    ∃ i', Twin (drawn start rows) (drawn start' rows') i i' := by
  obtain ⟨n,found⟩ := known
  rcases drawn_at found with ⟨k,rfl,base⟩ | ⟨row,k,place,rfl,rfl⟩
  · exact ⟨k,n,n,found,drawn_base (moved.nodes ▸ base),rfl,rfl⟩
  · obtain ⟨k',place'⟩ := moved.place (List.fst_mem_of_mem_zipIdx place)
    exact ⟨k',_,_,found,drawn_row place',rfl,rfl⟩

-- Names stand for the same outputs of the same nodes.
theorem Rearranged.lookup (moved : Rearranged start start' rows rows') (opened : Opened names start)
    (distinct : ((given start rows).map (·.1)).Nodup) (found : (given start rows).lookup x = some o) :
    ∃ o', (given start' rows').lookup x = some o' ∧ Twins (drawn start rows) (drawn start' rows') o o' := by
  rcases List.mem_append.mp ((lookup_mem distinct).mp found) with new | old
  · obtain ⟨⟨row,k⟩,place,slot,result,rfl⟩ := mem_bound.mp (List.mem_reverse.mp new)
    obtain ⟨k',place'⟩ := moved.place (List.fst_mem_of_mem_zipIdx place)
    refine ⟨⟨Int.ofNat k',Int.ofNat slot⟩,(lookup_mem (moved.keys distinct)).mpr ?_,?_,rfl⟩
    · exact List.mem_append_left _ (List.mem_reverse.mpr (mem_bound.mpr ⟨_,place',slot,result,rfl⟩))
    · exact ⟨_,_,drawn_row place,drawn_row place',rfl,rfl⟩
  · refine ⟨o,(lookup_mem (moved.keys distinct)).mpr (List.mem_append_right _ (moved.values ▸ old)),?_,rfl⟩
    rw [opened.values,List.mem_reverse] at old
    obtain ⟨p,place,equal⟩ := List.mem_map.mp old
    cases equal
    have inside : p.2 < start.graph.nodes.length := by
      have count : start.graph.nodes.length = names.length := by rw [← opened.named,List.length_map]
      rw [count]
      exact (List.getElem?_eq_some_iff.mp (List.mem_zipIdx_iff_getElem?.mp place)).1
    obtain ⟨n,base⟩ : ∃ n, start.graph.nodes[p.2]? = some n := ⟨_,List.getElem?_eq_getElem inside⟩
    exact ⟨n,n,drawn_base base,drawn_base (moved.nodes ▸ base),rfl,rfl⟩

variable {r : Registry}

-- What a node needs, its twin needs too, up to twins.
theorem Rearranged.follows (moved : Rearranged start start' rows rows') (opened' : Opened names start')
    (feasible : Feasible start rows) (distinct : ((given start rows).map (·.1)).Nodup)
    {a a' b' : Int} (twin : Twin (drawn start rows) (drawn start' rows') a a') (needs : (drawn start' rows').Needs a' b') :
    ∃ b, (drawn start rows).Needs a b ∧ Twin (drawn start rows) (drawn start' rows') b b' := by
  obtain ⟨n,m,found,found',name,-⟩ := twin
  obtain ⟨m',again,producer⟩ := needs_iff.mp needs
  cases found'.symm.trans again
  obtain ⟨o',edge,rfl⟩ := List.mem_map.mp producer
  rcases drawn_at found' with ⟨k,rfl,base⟩ | ⟨row,k,place,rfl,rfl⟩
  · rw [opened'.bare m (List.mem_of_getElem? base)] at edge
    cases edge
  · obtain ⟨k',place'⟩ := moved.symm.place (List.fst_mem_of_mem_zipIdx place)
    have here := drawn_row place'
    have same := List.inj_on_of_nodup_map feasible.named (get?_mem found) (get?_mem here) name
    subst same
    obtain ⟨x,source,known⟩ := List.mem_filterMap.mp edge
    obtain ⟨o,known',twins⟩ := moved.symm.lookup opened' (moved.keys distinct) known
    refine ⟨o.node,needs_iff.mpr ⟨_,found,List.mem_map.mpr ⟨o,?_,rfl⟩⟩,twins.node.symm⟩
    exact List.mem_filterMap.mpr ⟨x,source,known'⟩

-- What some rows need they still have in another order.
theorem Rearranged.feasible (moved : Rearranged start start' rows rows') (opened : Opened names start)
    (opened' : Opened names start') (distinct : ((given start rows).map (·.1)).Nodup) (feasible : Feasible start rows) :
    Feasible start' rows' := by
  refine ⟨moved.titles.nodup_iff.mp feasible.named,fun row member x source => ?_,?_⟩
  · obtain ⟨o,found,has⟩ := feasible.resolved row (moved.perm.symm.subset member) x source
    obtain ⟨o',found',twins⟩ := moved.lookup opened distinct found
    exact ⟨o',found',twins.outlet has⟩
  · have numbered : (drawn start rows).Numbered := drawn_numbered (built_wired opened.built).numbered
    refine acyclic_of_twins numbered feasible.named feasible.acyclic (fun a' known => ?_) fun a a' b' => ?_
    · obtain ⟨a,twin⟩ := moved.symm.twin known
      exact ⟨a,twin.symm⟩
    · exact moved.follows opened' feasible distinct

-- Nodes with one name have one operator and take from the same places.
theorem Rearranged.alike (moved : Rearranged start start' rows rows') (opened : Opened names start)
    (distinct : ((given start rows).map (·.1)).Nodup) (feasible : Feasible start rows) {n n' : Node}
    (member : n ∈ (drawn start rows).nodes) (member' : n' ∈ (drawn start' rows').nodes) (name : n.name = n'.name) :
    n.operator = n'.operator ∧
      n.inputs.map (drawn start rows).endpoint = n'.inputs.map (drawn start' rows').endpoint := by
  have numbered : (drawn start rows).Numbered := drawn_numbered (built_wired opened.built).numbered
  have only {p : Node} (there : p ∈ (drawn start' rows').nodes) (same : p.name = n.name) : n' = p :=
    List.inj_on_of_nodup_map (moved.titles.nodup_iff.mp feasible.named) member' there (name.symm.trans same.symm)
  rcases drawn_at (numbered.get?_id member) with ⟨k,-,base⟩ | ⟨row,k,place,-,rfl⟩
  · obtain rfl := only (get?_mem (drawn_base (moved.nodes ▸ base))) rfl
    rw [opened.bare _ (List.mem_of_getElem? base)]
    exact ⟨rfl,rfl⟩
  · obtain ⟨k',place'⟩ := moved.place (List.fst_mem_of_mem_zipIdx place)
    obtain rfl := only (get?_mem (drawn_row place')) rfl
    refine ⟨rfl,?_⟩
    dsimp only [rowNode]
    rw [List.map_filterMap,List.map_filterMap]
    refine List.filterMap_congr fun x source => ?_
    obtain ⟨o,found,-⟩ := feasible.resolved row (List.fst_mem_of_mem_zipIdx place) x source
    obtain ⟨o',found',twins⟩ := moved.lookup opened distinct found
    rw [found,found',Option.map_some,Option.map_some,twins.endpoint]

theorem Rearranged.outputs (moved : Rearranged start start' rows rows') (opened : Opened names start)
    (distinct : ((given start rows).map (·.1)).Nodup) {ds : List Declaration} {os os' : List Outlet}
    (each : List.Forall₂ (fun d o => (given start rows).lookup d.name = some o) ds os)
    (each' : List.Forall₂ (fun d o => (given start' rows').lookup d.name = some o) ds os') :
    List.Forall₂ (Twins (drawn start rows) (drawn start' rows')) os os' := by
  induction each generalizing os' with
  | nil =>
    cases each'
    exact .nil
  | cons found _ ih =>
    obtain _ | ⟨found',rest⟩ := each'
    obtain ⟨o,there,twins⟩ := moved.lookup opened distinct found
    cases there.symm.trans found'
    exact .cons twins (ih rest)

-- The graphs of the same rows in another order are alike.
theorem Rearranged.realized (moved : Rearranged start start' rows rows') (opened : Opened names start)
    (distinct : ((given start rows).map (·.1)).Nodup) {outputs : List Declaration} {g g' : Graph}
    (graph : Realized start rows outputs g) (graph' : Realized start' rows' outputs g') : g.Alike g' := by
  obtain ⟨built,feasible,os,each,rfl⟩ := graph
  obtain ⟨built',feasible',os',each',rfl⟩ := graph'
  have numbered : (drawn start rows).Numbered := (built_wired built).numbered
  have numbered' : (drawn start' rows').Numbered := (built_wired built').numbered
  refine ⟨moved.name.symm,⟨feasible.named,feasible'.named⟩,fun s => ?_,?_,?_,?_⟩
  · have same := moved.titles.mem_iff (a := s)
    rwa [List.mem_map,List.mem_map] at same
  · exact fun n member n' member' => moved.alike opened distinct feasible member member'
  · dsimp only [drawn]
    rw [moved.entries]
    refine List.map_congr_left fun p input => ?_
    obtain ⟨n,found,-⟩ := built_entered opened.built p.1 (List.mem_map_of_mem input)
    obtain ⟨k,number,base⟩ := get?_some.mp found
    have first : (drawn start rows).get? k = some n := drawn_base base
    have second : (drawn start' rows').get? k = some n := drawn_base (moved.nodes ▸ base)
    rw [number]
    exact congrArg (fun m : Option Node => (m.map (·.name),p.2)) (first.trans second.symm)
  · have twins := moved.outputs opened distinct (each.imp fun _ _ => And.left) (each'.imp fun _ _ => And.left)
    have exits := twins_collect numbered feasible.named numbered' feasible'.named .nil twins
    have same := exits.imp fun _ _ => Twins.endpoint
    rwa [← List.forall₂_map_right_iff,← List.forall₂_map_left_iff (f := (drawn start rows).endpoint),
      List.forall₂_eq_eq_eq] at same

end Lowering
end TensorGraph
