import TensorGraph.Proofs.Model.Draft

namespace TensorGraph.Lowering
open Outcome TensorGraph.Graph

variable {start l l' : Lowering} {rows : List Row} {row : Row} {final : List (String × Outlet)} {waiting : List Nat}
  {pending : List (Nat × List String)} {id : Nat}

-- The graph of rows once every node takes what it takes.
def drawn (start : Lowering) (rows : List Row) : Graph :=
  { start.graph with nodes := frame start.graph.nodes rows (taken (given start rows) []) }

-- All rows have their nodes, and some of these still wait for their inputs.
structure Linked (start : Lowering) (rows : List Row) (waiting : List Nat) (l : Lowering) : Prop where
  built : Built l.graph
  graph : l.graph = { start.graph with nodes := frame start.graph.nodes rows (taken (given start rows) waiting) }
  values : l.values = given start rows

theorem Drafted.linked (drafted : Drafted start final rows l) (whole : final = given start rows) :
    Linked start rows (l.pending.map (·.1)) l := ⟨drafted.built,whole ▸ drafted.graph,drafted.values⟩

-- Nodes that wait are those of some of the rows, each once.
structure Waits (start : Lowering) (rows : List Row) (pending : List (Nat × List String)) : Prop where
  rows : ∀ p ∈ pending, ∃ row, (row,p.1) ∈ rows.zipIdx start.graph.nodes.length ∧ p.2 = row.sources
  distinct : (pending.map (·.1)).Nodup

theorem Drafted.waits (drafted : Drafted start final rows l) : Waits start rows l.pending :=
  ⟨drafted.waiting,drafted.distinct⟩

theorem Waits.head {p : Nat × List String} (waits : Waits start rows (p :: pending)) :
    p.1 ∉ pending.map (·.1) ∧ Waits start rows pending := by
  obtain ⟨-,rest⟩ := List.forall_mem_cons.mp waits.rows
  obtain ⟨fresh,distinct⟩ := List.nodup_cons.mp waits.distinct
  exact ⟨fresh,rest,distinct⟩

theorem taken_waiting : taken final (id :: waiting) = put id [] (taken final waiting) := by
  funext i row
  unfold taken put
  by_cases here : i = id
  · simp [here]
  · simp [here]

theorem put_taken {base : List Node} {os : List Outlet} (place : (row,id) ∈ rows.zipIdx base.length) (fresh : id ∉ waiting)
    (takes : List.Forall₂ (fun x o => final.lookup x = some o) row.sources os) :
    frame base rows (put id os (taken final waiting)) = frame base rows (taken final waiting) := by
  refine frame_congr fun p member => ?_
  unfold put
  split
  · rename_i here
    obtain ⟨row',i⟩ := p
    subst here
    rw [zipIdx_unique member place,taken_met fresh takes]
  · rfl

-- A node is connected: it takes what its row takes, and waits no longer.
theorem connect_linked (numbered : start.graph.Numbered) (place : (row,id) ∈ rows.zipIdx start.graph.nodes.length)
    (fresh : id ∉ waiting) (linked : Linked start rows (id :: waiting) l) (ran : l.connect (id,row.sources) = .ok l') :
    Linked start rows waiting l' ∧ ∀ x ∈ row.sources, ∃ o, (given start rows).lookup x = some o := by
  rw [connect_edges,linked.values] at ran
  obtain ⟨g,edges,equal⟩ := bind_ok.mp ran
  cases equal
  have nodes : l.graph.nodes = frame start.graph.nodes rows (put id [] (taken (given start rows) waiting)) := by
    rw [← taken_waiting,linked.graph]
  obtain ⟨os,takes,built,whole⟩ := edges_frame linked.built numbered place nodes edges
  rw [List.nil_append,put_taken place fresh takes,linked.graph] at whole
  refine ⟨⟨built,whole,rfl⟩,fun x source => ?_⟩
  obtain ⟨o,-,found⟩ := forall₂_left takes x source
  exact ⟨o,found⟩

theorem connects_linked (numbered : start.graph.Numbered) (waits : Waits start rows pending)
    (linked : Linked start rows (pending.map (·.1)) l) (ran : pending.foldlM connect l = .ok l') :
    Linked start rows [] l' ∧ ∀ p ∈ pending, ∀ x ∈ p.2, ∃ o, (given start rows).lookup x = some o := by
  induction pending generalizing l with
  | nil =>
    cases ran
    exact ⟨linked,fun _ member => absurd member List.not_mem_nil⟩
  | cons p pending ih =>
    rw [List.foldlM_cons] at ran
    obtain ⟨middle,first,rest⟩ := bind_ok.mp ran
    obtain ⟨row,place,sources⟩ := waits.rows p List.mem_cons_self
    obtain ⟨id,names⟩ := p
    obtain rfl : names = row.sources := sources
    obtain ⟨fresh,waits⟩ := waits.head
    obtain ⟨linked',resolved⟩ := connect_linked numbered place fresh linked first
    obtain ⟨done,others⟩ := ih waits linked' rest
    exact ⟨done,List.forall_mem_cons.mpr ⟨resolved,others⟩⟩

theorem drawn_nodes : (drawn start rows).nodes = frame start.graph.nodes rows fun _ row =>
    row.sources.filterMap fun x => (given start rows).lookup x := by
  refine frame_congr fun p _ => ?_
  rw [taken,if_neg List.not_mem_nil]

-- The node of a row once it takes all that it takes.
def rowNode (start : Lowering) (rows : List Row) (id : Nat) (row : Row) : Node :=
  ⟨id,row.name,row.operator,row.sources.filterMap fun x => (given start rows).lookup x⟩

theorem drawn_base {k : Nat} {n : Node} (at_ : start.graph.nodes[k]? = some n) : (drawn start rows).get? k = some n := by
  rw [get?_natCast,drawn_nodes,frame_base (List.getElem?_eq_some_iff.mp at_).1]
  exact at_

theorem drawn_row {k : Nat} (place : (row,k) ∈ rows.zipIdx start.graph.nodes.length) :
    (drawn start rows).get? k = some (rowNode start rows k row) := by
  rw [get?_natCast,drawn_nodes]
  exact frame_row place

-- Where all that a row takes is found, its node takes it in the order of the row.
theorem drawn_taken {k : Nat} {os : List Outlet} (place : (row,k) ∈ rows.zipIdx start.graph.nodes.length)
    (takes : List.Forall₂ (fun x o => (given start rows).lookup x = some o) row.sources os) :
    (drawn start rows).get? k = some ⟨k,row.name,row.operator,os⟩ := by
  rw [drawn_row place,rowNode,filterMap_eq takes]

theorem drawn_at {i : Int} {n : Node} (found : (drawn start rows).get? i = some n) :
    (∃ k : Nat, i = k ∧ start.graph.nodes[k]? = some n) ∨ ∃ row, ∃ k : Nat,
      (row,k) ∈ rows.zipIdx start.graph.nodes.length ∧ i = k ∧ n = rowNode start rows k row := by
  obtain ⟨k,rfl,at_⟩ := get?_some.mp found
  rw [drawn_nodes] at at_
  rcases frame_at at_ with base | ⟨row,place,rfl⟩
  · exact .inl ⟨k,rfl,base⟩
  · exact .inr ⟨row,k,place,rfl,rfl⟩

theorem drawn_numbered (numbered : start.graph.Numbered) : (drawn start rows).Numbered := by
  intro i n at_
  rw [← get?_natCast] at at_
  rcases drawn_at at_ with ⟨k,equal,base⟩ | ⟨row,k,-,equal,rfl⟩
  · rw [numbered k n base]
    omega
  · dsimp only [rowNode]
    omega

-- What rows need for their graph to be drawn, in whatever order they come.
structure Feasible (start : Lowering) (rows : List Row) : Prop where
  named : (drawn start rows).Named
  resolved : ∀ row ∈ rows, ∀ x ∈ row.sources, ∃ o,
    (given start rows).lookup x = some o ∧ (drawn start rows).HasOutlet o
  acyclic : (drawn start rows).Acyclic

theorem exists_place (member : row ∈ rows) (b : Nat) : ∃ id, (row,id) ∈ rows.zipIdx b := by
  rw [← List.zipIdx_map_fst b rows] at member
  obtain ⟨p,place,rfl⟩ := List.mem_map.mp member
  exact ⟨p.2,place⟩

-- A run that comes to its end draws the graph of its rows, and nothing they take is missing.
theorem joined (numbered : start.graph.Numbered) (drafted : Drafted start (given start rows) rows l)
    (connected : l.pending.foldlM connect l = .ok l') :
    Linked start rows [] l' ∧ Feasible start rows := by
  obtain ⟨linked,waited⟩ := connects_linked numbered drafted.waits (drafted.linked rfl) connected
  have whole : l'.graph = drawn start rows := linked.graph
  have built : Built (drawn start rows) := whole ▸ linked.built
  refine ⟨linked,built_named built,?_,built_acyclic built⟩
  intro row member x source
  obtain ⟨id,place⟩ := exists_place member start.graph.nodes.length
  have found : ∃ o, (given start rows).lookup x = some o := by
    by_cases waits : id ∈ l.pending.map (·.1)
    · obtain ⟨p,waiting,same⟩ := List.mem_map.mp waits
      obtain ⟨row',place',sources⟩ := drafted.waiting p waiting
      cases zipIdx_unique (same ▸ place') place
      exact waited p waiting x (sources ▸ source)
    · exact drafted.resolved _ place waits x source
  obtain ⟨o,found⟩ := found
  have there : (⟨id,row.name,row.operator,row.sources.filterMap fun x => (given start rows).lookup x⟩ : Node) ∈
      (drawn start rows).nodes := by
    rw [drawn_nodes]
    exact mem_frame.mpr (.inr ⟨_,place,rfl⟩)
  exact ⟨o,found,(built_wired built).sources _ there o (List.mem_filterMap.mpr ⟨x,source,found⟩)⟩

-- Nodes of rows come after the inputs of the graph.
theorem row_free (entered : start.graph.Entered) (place : (row,id) ∈ rows.zipIdx start.graph.nodes.length) :
    start.graph.isInput id = false := by
  have beyond := zipIdx_beyond place
  simp only [isInput,List.contains_eq_mem,decide_eq_false_iff_not]
  intro input
  obtain ⟨n,found,-⟩ := entered _ input
  rw [get?_natCast] at found
  have inside := (List.getElem?_eq_some_iff.mp found).1
  omega

-- Where rows have what they need, every waiting node can be connected.
theorem connect_total (feasible : Feasible start rows) (numbered : start.graph.Numbered) (entered : start.graph.Entered)
    (place : (row,id) ∈ rows.zipIdx start.graph.nodes.length) (linked : Linked start rows (id :: waiting) l) :
    ∃ l', l.connect (id,row.sources) = .ok l' := by
  have resolved := feasible.resolved row (List.fst_mem_of_mem_zipIdx place)
  obtain ⟨os,takes⟩ : ∃ os, List.Forall₂ (fun x o => (given start rows).lookup x = some o) row.sources os :=
    exists_forall₂ fun x source => (resolved x source).imp fun o found => found.1
  have nodes : l.graph.nodes = frame start.graph.nodes rows (put id [] (taken (given start rows) waiting)) := by
    rw [← taken_waiting,linked.graph]
  have free : l.graph.isInput id = false := by
    rw [linked.graph]
    exact row_free entered place
  have exist : ∀ o ∈ os, (drawn start rows).HasOutlet o := by
    intro o member
    obtain ⟨x,source,found⟩ := forall₂_right takes o member
    obtain ⟨o',found',has⟩ := resolved x source
    cases found.symm.trans found'
    exact has
  have less : ∀ p ∈ rows.zipIdx start.graph.nodes.length, ∀ o ∈ taken (given start rows) waiting p.2 p.1,
      o ∈ p.1.sources.filterMap fun x => (given start rows).lookup x := by
    intro p _ o takes
    unfold taken at takes
    split at takes
    · cases takes
    · exact takes
  obtain ⟨g,ran⟩ := edges_total linked.built numbered place nodes drawn_nodes feasible.acyclic free less
    (by rw [filterMap_eq takes]; exact fun _ member => member) exist takes
  refine ⟨{ l with graph := g },?_⟩
  rw [connect_edges,linked.values]
  exact bind_ok.mpr ⟨g,ran,rfl⟩

theorem connects_total (feasible : Feasible start rows) (numbered : start.graph.Numbered) (entered : start.graph.Entered)
    (waits : Waits start rows pending) (linked : Linked start rows (pending.map (·.1)) l) :
    ∃ l', pending.foldlM connect l = .ok l' := by
  induction pending generalizing l with
  | nil => exact ⟨l,rfl⟩
  | cons p pending ih =>
    obtain ⟨row,place,sources⟩ := waits.rows p List.mem_cons_self
    obtain ⟨id,names⟩ := p
    obtain rfl : names = row.sources := sources
    obtain ⟨fresh,waits⟩ := waits.head
    obtain ⟨middle,first⟩ := connect_total feasible numbered entered place linked
    obtain ⟨l',rest⟩ := ih waits (connect_linked numbered place fresh linked first).1
    exact ⟨l',by rw [List.foldlM_cons,first]; exact rest⟩

-- Outputs as they are designated: each once, in the order in which they first come.
def collect (os : List Outlet) (o : Outlet) : List Outlet := if os.contains o then os else os ++ [o]

theorem addOutput_ok {d : Model.Declaration} : l.addOutput d = .ok l' ↔ ∃ o, l.values.lookup d.name = some o ∧
    l.graph.HasOutlet o ∧ l' = { l with graph := { l.graph with outputs := collect l.graph.outputs o } } := by
  have collected (o : Outlet) : (if l.graph.outputs.contains o then l.graph
      else { l.graph with outputs := l.graph.outputs ++ [o] }) = { l.graph with outputs := collect l.graph.outputs o } := by
    unfold collect
    split <;> rfl
  unfold addOutput
  split
  · rename_i missing
    simp [missing]
  · rename_i o found
    rw [bind_ok]
    constructor
    · rintro ⟨g,designated,equal⟩
      obtain ⟨has,rfl⟩ := designateOutput_ok.mp designated
      cases equal
      exact ⟨o,found,has,by rw [← collected]⟩
    · rintro ⟨o',found',has,rfl⟩
      cases found.symm.trans found'
      exact ⟨_,designateOutput_ok.mpr ⟨has,(collected o).symm⟩,rfl⟩

theorem addOutputs_ok {ds : List Model.Declaration} : ds.foldlM addOutput l = .ok l' ↔
    ∃ os, List.Forall₂ (fun d o => l.values.lookup d.name = some o ∧ l.graph.HasOutlet o) ds os ∧
      l' = { l with graph := { l.graph with outputs := os.foldl collect l.graph.outputs } } := by
  induction ds generalizing l with
  | nil =>
    constructor
    · intro ran
      cases ran
      exact ⟨[],.nil,rfl⟩
    · rintro ⟨os,none,rfl⟩
      cases none
      rfl
  | cons d ds ih =>
    rw [List.foldlM_cons,bind_ok]
    constructor
    · rintro ⟨middle,first,rest⟩
      obtain ⟨o,found,has,rfl⟩ := addOutput_ok.mp first
      obtain ⟨os,later,rfl⟩ := ih.mp rest
      exact ⟨o :: os,.cons ⟨found,has⟩ later,rfl⟩
    · rintro ⟨os,each,rfl⟩
      cases each with
      | cons first later => exact ⟨_,addOutput_ok.mpr ⟨_,first.1,first.2,rfl⟩,ih.mpr ⟨_,later,rfl⟩⟩

theorem addOutputs_built {ds : List Model.Declaration} (built : Built l.graph) (ran : ds.foldlM addOutput l = .ok l') :
    Built l'.graph := by
  refine foldlM_keeps (P := fun l => Built l.graph) (fun l d l' _ built step => ?_) built ran
  unfold addOutput at step
  split at step
  · cases step
  · obtain ⟨g,designated,equal⟩ := bind_ok.mp step
    cases equal
    exact built.designateOutput designated

end TensorGraph.Lowering
