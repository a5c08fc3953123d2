import TensorGraph.Proofs.Graph.Growth
import TensorGraph.Proofs.Model.Rows

namespace TensorGraph
open Outcome
open Relation (TransGen ReflTransGen)

namespace Graph
open Lowering (Row)

variable {g g' : Graph} {base : List Node} {rows : List Row} {fill fill' : Nat → Row → List Outlet}

-- Some nodes, then one for each row, with the inputs that `fill` gives it.
def frame (base : List Node) (rows : List Row) (fill : Nat → Row → List Outlet) : List Node :=
  base ++ (rows.zipIdx base.length).map fun p => ⟨p.2,p.1.name,p.1.operator,fill p.2 p.1⟩

theorem frame_nil : frame base [] fill = base := by simp [frame]

theorem frame_concat (row : Row) : frame base (rows ++ [row]) fill = frame base rows fill ++
    [⟨base.length + rows.length,row.name,row.operator,fill (base.length + rows.length) row⟩] := by
  simp [frame,List.zipIdx_append]

theorem frame_length : (frame base rows fill).length = base.length + rows.length := by simp [frame]

theorem frame_names : (frame base rows fill).map (·.name) = base.map (·.name) ++ rows.map (·.name) := by
  have names : rows.map (·.name) = (rows.zipIdx base.length).map (·.1.name) := by
    conv => lhs; rw [← List.zipIdx_map_fst base.length rows,List.map_map]
    rfl
  rw [names,frame,List.map_append,List.map_map]
  rfl

theorem frame_congr (same : ∀ p ∈ rows.zipIdx base.length, fill p.2 p.1 = fill' p.2 p.1) :
    frame base rows fill = frame base rows fill' := by
  unfold frame
  refine congrArg _ (List.map_congr_left fun p member => ?_)
  rw [same p member]

theorem mem_frame {n : Node} : n ∈ frame base rows fill ↔ n ∈ base ∨
    ∃ p ∈ rows.zipIdx base.length, n = ⟨p.2,p.1.name,p.1.operator,fill p.2 p.1⟩ := by
  simp only [frame,List.mem_append,List.mem_map,eq_comm]

theorem frame_base {i : Nat} (inside : i < base.length) : (frame base rows fill)[i]? = base[i]? :=
  List.getElem?_append_left inside

theorem frame_row {p : Row × Nat} (member : p ∈ rows.zipIdx base.length) :
    (frame base rows fill)[p.2]? = some ⟨p.2,p.1.name,p.1.operator,fill p.2 p.1⟩ := by
  obtain ⟨i,at_⟩ := List.mem_iff_getElem?.mp member
  have number : p.2 = base.length + i := by
    rw [List.getElem?_zipIdx,Option.map_eq_some_iff] at at_
    obtain ⟨_,-,rfl⟩ := at_
    rfl
  unfold frame
  rw [List.getElem?_append_right (by omega),List.getElem?_map,show p.2 - base.length = i by omega,at_]
  rfl

theorem frame_at {i : Nat} {n : Node} (at_ : (frame base rows fill)[i]? = some n) :
    base[i]? = some n ∨ ∃ row, (row,i) ∈ rows.zipIdx base.length ∧ n = ⟨i,row.name,row.operator,fill i row⟩ := by
  rcases Nat.lt_or_ge i base.length with inside | beyond
  · exact .inl (frame_base inside ▸ at_)
  · refine .inr ?_
    unfold frame at at_
    rw [List.getElem?_append_right beyond,List.getElem?_map,List.getElem?_zipIdx,Option.map_map,
      Option.map_eq_some_iff] at at_
    obtain ⟨row,found,rfl⟩ := at_
    have number : base.length + (i - base.length) = i := by omega
    refine ⟨row,?_,?_⟩
    · rw [List.mem_zipIdx_iff_le_and_getElem?_sub]
      exact ⟨beyond,found⟩
    · simp [number]

-- What a row's node is given in place of what `fill` gives it.
def put (id : Nat) (os : List Outlet) (fill : Nat → Row → List Outlet) (i : Nat) (row : Row) : List Outlet :=
  if i = id then os else fill i row

theorem zipIdx_beyond {p : Row × Nat} (member : p ∈ rows.zipIdx base.length) : base.length ≤ p.2 :=
  (List.mem_zipIdx_iff_le_and_getElem?_sub.mp member).1

theorem zipIdx_unique {row row' : Row} {i b : Nat} (first : (row,i) ∈ rows.zipIdx b) (second : (row',i) ∈ rows.zipIdx b) :
    row = row' := by
  rw [List.mem_zipIdx_iff_le_and_getElem?_sub] at first second
  exact Option.some.inj (first.2.symm.trans second.2)

-- An edge into the next input of a row's node.
theorem setInput_frame {row : Row} {id : Nat} {os : List Outlet} {o : Outlet}
    (numbered : ∀ (i : Nat) n, base[i]? = some n → n.id = i) (member : (row,id) ∈ rows.zipIdx base.length)
    (nodes : g.nodes = frame base rows (put id os fill)) :
    (g.setInput o id os.length).nodes = frame base rows (put id (os ++ [o]) fill) := by
  have beyond : base.length ≤ id := zipIdx_beyond member
  unfold setInput
  dsimp only
  rw [nodes,frame,List.map_append,List.map_map]
  refine congrArg₂ (· ++ ·) ?_ (List.map_congr_left fun p _ => ?_)
  · refine (List.map_congr_left fun n there => ?_).trans (List.map_id _)
    obtain ⟨i,at_⟩ := List.mem_iff_getElem?.mp there
    have small := (List.getElem?_eq_some_iff.mp at_).1
    rw [if_neg (by rw [numbered i n at_]; omega)]
    rfl
  · dsimp only [Function.comp_apply,put]
    split
    · rw [if_pos rfl]
    · rfl

-- Rows whose nodes take more need more.
theorem frame_needs {a b : Int} (nodes : g.nodes = frame base rows fill) (nodes' : g'.nodes = frame base rows fill')
    (more : ∀ p ∈ rows.zipIdx base.length, ∀ o ∈ fill p.2 p.1, o ∈ fill' p.2 p.1) (needs : g.Needs a b) :
    g'.Needs a b := by
  obtain ⟨n,found,producer⟩ := needs_iff.mp needs
  obtain ⟨i,rfl,at_⟩ := get?_some.mp found
  have there := at_
  rw [nodes] at at_
  rcases frame_at at_ with old | ⟨row,member,rfl⟩
  · refine needs_iff.mpr ⟨n,get?_some.mpr ⟨i,rfl,?_⟩,producer⟩
    rw [nodes',frame_base (List.getElem?_eq_some_iff.mp old).1]
    exact old
  · refine needs_iff.mpr ⟨_,get?_some.mpr ⟨i,rfl,nodes' ▸ frame_row member⟩,?_⟩
    obtain ⟨o,edge,rfl⟩ := List.mem_map.mp producer
    exact List.mem_map.mpr ⟨o,more _ member o edge,rfl⟩

-- Which outlets there are does not depend on what the nodes take.
theorem frame_outlet {all : List Row} {o : Outlet} (nodes : g.nodes = frame base all fill)
    (nodes' : g'.nodes = frame base rows fill') (early : rows <+: all) (has : g.HasOutlet o)
    (inside : o.node < base.length + rows.length) : g'.HasOutlet o := by
  obtain ⟨n,found,low,high⟩ := has
  obtain ⟨i,equal,at_⟩ := get?_some.mp found
  rw [nodes] at at_
  rcases frame_at at_ with old | ⟨row,member,rfl⟩
  · refine ⟨n,get?_some.mpr ⟨i,equal,?_⟩,low,high⟩
    rw [nodes',frame_base (List.getElem?_eq_some_iff.mp old).1]
    exact old
  · have place : (row,i) ∈ rows.zipIdx base.length := by
      obtain ⟨more,rfl⟩ := early
      rw [List.mem_zipIdx_iff_le_and_getElem?_sub] at member ⊢
      refine ⟨member.1,?_⟩
      rw [← member.2,List.getElem?_append_left (by omega)]
    have there : (frame base rows fill')[i]? = some _ := frame_row place
    rw [← nodes'] at there
    exact ⟨_,get?_some.mpr ⟨i,equal,there⟩,low,high⟩

theorem frame_inside {o : Outlet} (nodes : g.nodes = frame base rows fill) (has : g.HasOutlet o) :
    o.node < base.length + rows.length := by
  obtain ⟨n,found,-⟩ := has
  obtain ⟨i,equal,at_⟩ := get?_some.mp found
  have inside := (List.getElem?_eq_some_iff.mp at_).1
  rw [nodes,frame_length] at inside
  omega

end Graph

namespace Lowering
open TensorGraph.Graph

variable {start l l' : Lowering} {rows : List Row} {row : Row} {final : List (String × Outlet)}

-- Names with the outlets they are given by rows whose nodes are numbered from `b`.
def bound (b : Nat) (rows : List Row) : List (String × Outlet) := (rows.zipIdx b).flatMap fun p => p.1.bindings p.2

theorem bound_append (b : Nat) (rows rows' : List Row) :
    bound b (rows ++ rows') = bound b rows ++ bound (b + rows.length) rows' := by
  simp [bound,List.zipIdx_append]

theorem bound_concat (b : Nat) (rows : List Row) (row : Row) :
    bound b (rows ++ [row]) = bound b rows ++ row.bindings (b + rows.length) := by
  rw [bound_append]
  simp [bound]

theorem mem_bound {b : Nat} {x : String} {o : Outlet} : (x,o) ∈ bound b rows ↔
    ∃ p ∈ rows.zipIdx b, ∃ slot : Nat, (x,slot) ∈ p.1.results ∧ o = ⟨Int.ofNat p.2,Int.ofNat slot⟩ := by
  unfold bound Row.bindings
  simp only [List.mem_flatMap,List.mem_map,Prod.mk.injEq,Prod.exists]
  constructor
  · rintro ⟨row,i,member,_,slot,result,rfl,rfl⟩
    exact ⟨row,i,member,slot,result,rfl⟩
  · rintro ⟨row,i,member,slot,result,rfl⟩
    exact ⟨row,i,member,x,slot,result,rfl,rfl⟩

-- All names that are ever given, the latest first.
def given (start : Lowering) (rows : List Row) : List (String × Outlet) :=
  (bound start.graph.size rows).reverse ++ start.values

theorem given_concat : given start (rows ++ [row]) = (row.bindings (start.graph.size + rows.length)).reverse ++
    given start rows := by
  simp [given,bound_concat]

theorem given_suffix (more : List Row) : given start rows <:+ given start (rows ++ more) := by
  induction more generalizing rows with
  | nil => exact (List.append_nil rows).symm ▸ List.suffix_refl _
  | cons row more ih =>
    have first : given start rows <:+ given start (rows ++ [row]) := given_concat ▸ List.suffix_append _ _
    rw [List.append_cons]
    exact first.trans ih

theorem given_early {all : List Row} (early : rows <+: all) : given start rows <:+ given start all := by
  obtain ⟨more,rfl⟩ := early
  exact given_suffix more

theorem lookup_mem (distinct : (final.map (·.1)).Nodup) {x : String} {o : Outlet} :
    final.lookup x = some o ↔ (x,o) ∈ final := by
  induction final with
  | nil => simp
  | cons p final ih =>
    obtain ⟨y,q⟩ := p
    obtain ⟨fresh,rest⟩ := List.nodup_cons.mp distinct
    rw [List.lookup_cons,List.mem_cons,← ih rest]
    by_cases same : x = y
    · subst same
      have later : final.lookup x ≠ some o := by
        intro found
        exact fresh (List.mem_map.mpr ⟨_,(ih rest).mp found,rfl⟩)
      simp [later,eq_comm]
    · have other : (x == y) = false := by simpa using same
      rw [other]
      simp [same]

theorem lookup_missing {x : String} (missing : x ∉ final.map (·.1)) : final.lookup x = none := by
  refine List.lookup_eq_none_iff.mpr fun p member => ?_
  simpa using fun same : x = p.1 => missing (List.mem_map.mpr ⟨p,member,same.symm⟩)

theorem lookup_suffix {names : List (String × Outlet)} (distinct : (final.map (·.1)).Nodup) (early : names <:+ final)
    {x : String} {o : Outlet} (found : names.lookup x = some o) : final.lookup x = some o :=
  (lookup_mem distinct).mpr (early.mem ((lookup_mem (distinct.sublist (early.sublist.map _))).mp found))

-- What a row's node takes: nothing while it waits, in the end the outlets that have the names.
def taken (final : List (String × Outlet)) (waiting : List Nat) (id : Nat) (row : Row) : List Outlet :=
  if id ∈ waiting then [] else row.sources.filterMap fun x => final.lookup x

-- A graph in the making once the rows have their nodes. Only the nodes that do not wait have taken
-- all that they take.
structure Drafted (start : Lowering) (final : List (String × Outlet)) (rows : List Row) (l : Lowering) : Prop where
  built : Built l.graph
  graph : l.graph = { start.graph with nodes := frame start.graph.nodes rows (taken final (l.pending.map (·.1))) }
  values : l.values = given start rows
  waiting : ∀ p ∈ l.pending, ∃ row, (row,p.1) ∈ rows.zipIdx start.graph.size ∧ p.2 = row.sources
  distinct : (l.pending.map (·.1)).Nodup
  resolved : ∀ p ∈ rows.zipIdx start.graph.size, p.2 ∉ l.pending.map (·.1) →
    ∀ x ∈ p.1.sources, ∃ o, final.lookup x = some o
  constants : l.constants = start.constants

theorem wire_ok {op : Operator} {sources : List String} {name : String} {id : Nat} :
    l.wire op sources name = .ok (l',id) ↔ ∃ os, (∀ o ∈ os, l.graph.HasOutlet o) ∧
      (∀ n ∈ l.graph.nodes, n.name ≠ name) ∧ id = l.graph.size ∧
      let g := { l.graph with nodes := l.graph.nodes ++ [⟨l.graph.size,name,op,os⟩] }
      (sources.mapM (fun x => l.values.lookup x) = some os ∧ l' = { l with graph := g } ∨
        sources.mapM (fun x => l.values.lookup x) = none ∧ os = [] ∧
          l' = { l with graph := g, pending := l.pending ++ [(id,sources)] }) := by
  unfold wire
  split
  · rename_i os found
    rw [bind_ok]
    constructor
    · rintro ⟨⟨g,number⟩,added,equal⟩
      obtain ⟨exist,fresh,rfl,rfl⟩ := addNode_ok.mp added
      cases equal
      exact ⟨os,exist,fresh,rfl,.inl ⟨found,rfl⟩⟩
    · rintro ⟨os',exist,fresh,rfl,⟨same,rfl⟩ | ⟨missing,-⟩⟩
      · cases found.symm.trans same
        exact ⟨_,addNode_ok.mpr ⟨exist,fresh,rfl,rfl⟩,rfl⟩
      · cases found.symm.trans missing
  · rename_i missing
    rw [bind_ok]
    constructor
    · rintro ⟨⟨g,number⟩,added,equal⟩
      obtain ⟨exist,fresh,rfl,rfl⟩ := addNode_ok.mp added
      cases equal
      exact ⟨[],exist,fresh,rfl,.inr ⟨missing,rfl,rfl⟩⟩
    · rintro ⟨os',exist,fresh,rfl,⟨same,-⟩ | ⟨-,rfl,rfl⟩⟩
      · cases missing.symm.trans same
      · exact ⟨_,addNode_ok.mpr ⟨exist,fresh,rfl,rfl⟩,rfl⟩

theorem append_ok : l.append row = .ok l' ↔
    ¬ (row.link && (l.used.contains row.name || l.hasValue row.name)) = true ∧
      ∃ m id, ({ l with used := if row.link then row.name :: l.used else l.used } : Lowering).wire
        row.operator row.sources row.name = .ok (m,id) ∧
        l' = { m with values := (row.bindings id).reverse ++ m.values } := by
  unfold append
  dsimp only
  by_cases taken : (row.link && (l.used.contains row.name || l.hasValue row.name)) = true
  · rw [if_pos taken]
    simp only [fail_bind,fail_ne_ok,taken,not_true,false_and]
  · rw [if_neg taken,bind_ok]
    simp only [Prod.exists,pure_eq_ok,Except.ok.injEq]
    constructor
    · rintro ⟨m,id,wired,rfl⟩
      exact ⟨taken,m,id,wired,rfl⟩
    · rintro ⟨-,m,id,wired,rfl⟩
      exact ⟨m,id,wired,rfl⟩

theorem filterMap_eq {f : α → Option β} {xs : List α} {ys : List β}
    (related : List.Forall₂ (fun x y => f x = some y) xs ys) : xs.filterMap f = ys := by
  induction related with
  | nil => rfl
  | cons first _ ih => rw [List.filterMap_cons,first,ih]

theorem mem_zipIdx_concat {b : Nat} {p : Row × Nat} :
    p ∈ (rows ++ [row]).zipIdx b ↔ p ∈ rows.zipIdx b ∨ p = (row,b + rows.length) := by
  simp [List.zipIdx_append]

theorem zipIdx_lt {b : Nat} {p : Row × Nat} (member : p ∈ rows.zipIdx b) : p.2 < b + rows.length := by
  obtain ⟨low,at_⟩ := List.mem_zipIdx_iff_le_and_getElem?_sub.mp member
  have inside := (List.getElem?_eq_some_iff.mp at_).1
  omega

theorem Drafted.size (drafted : Drafted start final rows l) : l.graph.size = start.graph.size + rows.length := by
  unfold Graph.size
  rw [drafted.graph]
  exact frame_length

theorem Drafted.waiting_lt (drafted : Drafted start final rows l) {i : Nat} (waits : i ∈ l.pending.map (·.1)) :
    i < l.graph.size := by
  obtain ⟨p,member,rfl⟩ := List.mem_map.mp waits
  obtain ⟨row,place,-⟩ := drafted.waiting p member
  rw [drafted.size]
  exact zipIdx_lt place

theorem hasValue_iff {x : String} : l.hasValue x = true ↔ x ∈ l.values.map (·.1) := by
  unfold hasValue
  rw [Option.isSome_iff_ne_none,ne_eq,not_iff_comm]
  constructor
  · exact lookup_missing
  · intro missing member
    obtain ⟨p,inside,rfl⟩ := List.mem_map.mp member
    simpa using List.lookup_eq_none_iff.mp missing p inside

-- A row appended.
def appended (l : Lowering) (row : Row) : Lowering :=
  let found := row.sources.mapM fun x => l.values.lookup x
  { graph := { l.graph with nodes := l.graph.nodes ++ [⟨l.graph.size,row.name,row.operator,found.getD []⟩] }
    values := (row.bindings l.graph.size).reverse ++ l.values
    constants := l.constants
    used := if row.link then row.name :: l.used else l.used
    pending := if found.isSome then l.pending else l.pending ++ [(l.graph.size,row.sources)] }

theorem append_iff : l.append row = .ok l' ↔
    (row.link = true → row.name ∉ l.used ∧ l.values.lookup row.name = none) ∧
      (∀ n ∈ l.graph.nodes, n.name ≠ row.name) ∧
      (∀ o ∈ (row.sources.mapM fun x => l.values.lookup x).getD [], l.graph.HasOutlet o) ∧ l' = l.appended row := by
  have open_ : ¬ (row.link && (l.used.contains row.name || l.hasValue row.name)) = true ↔
      (row.link = true → row.name ∉ l.used ∧ l.values.lookup row.name = none) := by
    rw [Bool.and_eq_true,not_and,Bool.or_eq_true,not_or,List.contains_iff_mem,hasValue,
      Option.not_isSome_iff_eq_none]
  rw [append_ok,open_]
  refine and_congr_right fun _ => ?_
  unfold appended
  constructor
  · rintro ⟨m,id,wired,rfl⟩
    obtain ⟨os,exist,fresh,rfl,⟨found,rfl⟩ | ⟨found,rfl,rfl⟩⟩ := wire_ok.mp wired
    · refine ⟨fresh,?_,?_⟩ <;> dsimp only at found ⊢ <;> rw [found]
      · exact exist
      · rfl
    · refine ⟨fresh,?_,?_⟩ <;> dsimp only at found ⊢ <;> rw [found]
      · exact exist
      · rfl
  · rintro ⟨fresh,exist,rfl⟩
    cases found : row.sources.mapM fun x => l.values.lookup x with
    | some os =>
      rw [found] at exist
      exact ⟨_,_,wire_ok.mpr ⟨os,exist,fresh,rfl,.inl ⟨found,rfl⟩⟩,rfl⟩
    | none =>
      exact ⟨_,_,wire_ok.mpr ⟨[],List.forall_mem_nil _,fresh,rfl,.inr ⟨found,rfl,rfl⟩⟩,rfl⟩

theorem append_parts (ran : l.append row = .ok l') : ∃ os,
    l.graph.addNode row.operator os (some row.name) = .ok (l'.graph,l.graph.size) ∧
    l'.values = (row.bindings l.graph.size).reverse ++ l.values ∧ l'.constants = l.constants ∧
    (row.sources.mapM (fun x => l.values.lookup x) = some os ∧ l'.pending = l.pending ∨
      os = [] ∧ l'.pending = l.pending ++ [(l.graph.size,row.sources)]) := by
  obtain ⟨-,fresh,exist,rfl⟩ := append_iff.mp ran
  refine ⟨_,addNode_ok.mpr ⟨exist,fresh,rfl,rfl⟩,rfl,rfl,?_⟩
  unfold appended
  cases found : row.sources.mapM fun x => l.values.lookup x with
  | some os => exact .inl ⟨rfl,rfl⟩
  | none => exact .inr ⟨rfl,rfl⟩

theorem taken_met {waiting : List Nat} {id : Nat} {os : List Outlet} (ready : id ∉ waiting)
    (takes : List.Forall₂ (fun x o => final.lookup x = some o) row.sources os) : taken final waiting id row = os := by
  rw [taken,if_neg ready,filterMap_eq takes]

theorem taken_wait {base : List Node} {waiting : List Nat} {id : Nat} (fresh : ∀ p ∈ rows.zipIdx base.length, p.2 ≠ id) :
    frame base rows (taken final waiting) = frame base rows (taken final (waiting ++ [id])) :=
  frame_congr fun p member => by simp only [taken,List.mem_append,List.mem_singleton,fresh p member,or_false]

-- A row is appended: its node comes last, and its names count first.
theorem append_drafted (distinct : (final.map (·.1)).Nodup) (early : given start rows <:+ final)
    (drafted : Drafted start final rows l) (ran : l.append row = .ok l') : Drafted start final (rows ++ [row]) l' := by
  obtain ⟨os,added,values,same,found⟩ := append_parts ran
  obtain ⟨-,-,-,grown⟩ := addNode_ok.mp added
  have size : l.graph.size = start.graph.nodes.length + rows.length := drafted.size
  have last : l.graph.size ∉ l.pending.map (·.1) := fun waits => Nat.lt_irrefl _ (drafted.waiting_lt waits)
  have built := drafted.built.addNode added
  have names : l'.values = given start (rows ++ [row]) := by rw [values,given_concat,drafted.values,drafted.size]
  have constants := same.trans drafted.constants
  have later {p : Row × Nat} (member : p ∈ rows.zipIdx start.graph.size) :
      p ∈ (rows ++ [row]).zipIdx start.graph.size := mem_zipIdx_concat.mpr (.inl member)
  rcases found with ⟨resolved,pending⟩ | ⟨rfl,pending⟩
  · have takes : List.Forall₂ (fun x o => final.lookup x = some o) row.sources os :=
      (mapM_some.mp resolved).imp fun x o found => lookup_suffix distinct (drafted.values ▸ early) found
    refine ⟨built,?_,names,?_,pending ▸ drafted.distinct,?_,constants⟩
    · rw [grown,frame_concat,pending,← size,taken_met last takes]
      rw [drafted.graph]
    · intro p waits
      obtain ⟨row',place,sources⟩ := drafted.waiting p (pending ▸ waits)
      exact ⟨row',later place,sources⟩
    · rw [pending]
      intro p member done
      rcases mem_zipIdx_concat.mp member with old | rfl
      · exact drafted.resolved p old done
      · intro x source
        obtain ⟨o,-,found⟩ := forall₂_left takes x source
        exact ⟨o,found⟩
  · have ids : l'.pending.map (·.1) = l.pending.map (·.1) ++ [l.graph.size] := by rw [pending]; simp
    refine ⟨built,?_,names,?_,?_,?_,constants⟩
    · have fresh : ∀ p ∈ rows.zipIdx start.graph.nodes.length, p.2 ≠ l.graph.size := fun p member => by
        have small := zipIdx_lt member
        omega
      rw [grown,frame_concat,ids,← taken_wait fresh,← size,taken,if_pos (by simp)]
      rw [drafted.graph]
    · rw [pending]
      intro p waits
      rcases List.mem_append.mp waits with old | new
      · obtain ⟨row',place,sources⟩ := drafted.waiting p old
        exact ⟨row',later place,sources⟩
      · rw [List.mem_singleton.mp new]
        exact ⟨row,mem_zipIdx_concat.mpr (.inr (by rw [drafted.size])),rfl⟩
    · rw [ids,← List.concat_eq_append]
      exact List.Nodup.concat last drafted.distinct
    · rw [ids]
      intro p member done
      rcases mem_zipIdx_concat.mp member with old | rfl
      · exact drafted.resolved p old fun waits => done (List.mem_append_left _ waits)
      · exact absurd (by simp [drafted.size]) done

theorem appends_drafted {more : List Row} (distinct : (final.map (·.1)).Nodup) (early : given start (rows ++ more) <:+ final)
    (drafted : Drafted start final rows l) (ran : more.foldlM append l = .ok l') :
    Drafted start final (rows ++ more) l' := by
  induction more generalizing rows l with
  | nil =>
    cases ran
    rw [List.append_nil]
    exact drafted
  | cons row more ih =>
    rw [List.foldlM_cons] at ran
    obtain ⟨middle,first,rest⟩ := bind_ok.mp ran
    rw [List.append_cons] at early ⊢
    exact ih early (append_drafted distinct ((given_suffix [row]).trans ((given_suffix more).trans early)) drafted first) rest

-- A row can be appended if its name is free and the outlets that have its names already exist.
theorem append_total (fresh : ∀ n ∈ l.graph.nodes, n.name ≠ row.name)
    (free : row.link = true → row.name ∉ l.used ∧ l.values.lookup row.name = none)
    (exist : ∀ x ∈ row.sources, ∀ o, l.values.lookup x = some o → l.graph.HasOutlet o) :
    ∃ l', l.append row = .ok l' := by
  refine ⟨_,append_iff.mpr ⟨free,fresh,fun o member => ?_,rfl⟩⟩
  cases found : row.sources.mapM fun x => l.values.lookup x with
  | some os =>
    rw [found] at member
    obtain ⟨x,source,at_⟩ := forall₂_right (mapM_some.mp found) o member
    exact exist x source o at_
  | none =>
    rw [found] at member
    cases member

-- One more input of a node that had to wait.
def edge (final : List (String × Outlet)) (id : Nat) (g : Graph) (p : String × Nat) : Outcome Graph :=
  match final.lookup p.1 with
  | none => .error ((Cause.valueNeverProduced p.1 : Fault).at? id none)
  | some o => g.addEdge o ⟨Int.ofNat id,Int.ofNat p.2⟩

theorem connect_edges (id : Nat) (names : List String) : l.connect (id,names) =
    names.zipIdx.foldlM (edge l.values id) l.graph >>= fun g => .ok { l with graph := g } := rfl

section Edges
variable {g g' : Graph} {base : List Node} {fill full : Nat → Row → List Outlet} {id : Nat} {names : List String}
  {os more : List Outlet}

-- The inputs are connected one by one, each after the last.
theorem edges_frame (built : Built g) (start : ∀ (i : Nat) n, base[i]? = some n → n.id = i)
    (member : (row,id) ∈ rows.zipIdx base.length) (nodes : g.nodes = frame base rows (put id os fill))
    (ran : (names.zipIdx os.length).foldlM (edge final id) g = .ok g') :
    ∃ more, List.Forall₂ (fun x o => final.lookup x = some o) names more ∧ Built g' ∧
      g' = { g with nodes := frame base rows (put id (os ++ more) fill) } := by
  induction names generalizing g os with
  | nil =>
    cases ran
    exact ⟨[],.nil,built,by rw [List.append_nil,← nodes]⟩
  | cons x names ih =>
    rw [List.zipIdx_cons,List.foldlM_cons] at ran
    obtain ⟨middle,first,rest⟩ := bind_ok.mp ran
    unfold edge at first
    split at first
    · cases first
    · rename_i o found
      obtain ⟨-,n,target,-,-,equal⟩ := addEdge_parts first
      have here : g.get? (Int.ofNat id) = some _ := (get?_natCast g id).trans (nodes ▸ frame_row member)
      cases target.symm.trans here
      have next : middle.nodes = frame base rows (put id (os ++ [o]) fill) := equal ▸ setInput_frame start member nodes
      have count : (os ++ [o]).length = os.length + 1 := by simp
      obtain ⟨more,resolved,built',whole⟩ := ih (built.addEdge first) next (count ▸ rest)
      rw [List.append_assoc] at whole
      exact ⟨o :: more,.cons found resolved,built',by rw [whole,equal]; rfl⟩

-- Nothing stands in the way of an edge that the whole graph has, as long as the whole has no loops.
theorem edges_total {whole : Graph} (built : Built g) (start : ∀ (i : Nat) n, base[i]? = some n → n.id = i)
    (member : (row,id) ∈ rows.zipIdx base.length) (nodes : g.nodes = frame base rows (put id os fill))
    (ends : whole.nodes = frame base rows full) (acyclic : whole.Acyclic) (free : g.isInput id = false)
    (less : ∀ p ∈ rows.zipIdx base.length, ∀ o ∈ fill p.2 p.1, o ∈ full p.2 p.1)
    (all : ∀ o ∈ os ++ more, o ∈ full id row) (exist : ∀ o ∈ more, whole.HasOutlet o)
    (resolved : List.Forall₂ (fun x o => final.lookup x = some o) names more) :
    ∃ g', (names.zipIdx os.length).foldlM (edge final id) g = .ok g' := by
  induction resolved generalizing g os with
  | nil => exact ⟨g,rfl⟩
  | @cons x o names more found rest ih =>
    obtain ⟨has,later⟩ := List.forall_mem_cons.mp exist
    have here : g.get? (Int.ofNat id) = some _ := (get?_natCast g id).trans (nodes ▸ frame_row member)
    have part : ∀ p ∈ rows.zipIdx base.length, ∀ q ∈ put id os fill p.2 p.1, q ∈ full p.2 p.1 := by
      rintro ⟨row',i⟩ place q taken
      dsimp only [put] at taken
      split at taken
      · rename_i same
        subst same
        cases zipIdx_unique place member
        exact all q (List.mem_append_left _ taken)
      · exact less _ place q taken
    have apart : ¬ ReflTransGen g.Needs o.node (Int.ofNat id) := by
      intro path
      have back : whole.Needs (Int.ofNat id) o.node := by
        refine needs_iff.mpr ⟨_,(get?_natCast whole id).trans (ends ▸ frame_row member),?_⟩
        exact List.mem_map.mpr ⟨o,all o (by simp),rfl⟩
      exact acyclic _ (.head' back (ReflTransGen.mono (fun _ _ => frame_needs nodes ends part) _ _ path))
    have known := frame_outlet ends nodes (List.prefix_refl _) has (frame_inside ends has)
    have last : (os.length : Int) ≤ (put id os fill id row).length := by rw [put,if_pos rfl]
    have first : g.addEdge o ⟨Int.ofNat id,Int.ofNat os.length⟩ = .ok (g.setInput o id os.length) :=
      addEdge_ok (n := ⟨id,row.name,row.operator,put id os fill id row⟩) (built_wired built) known here free
        (Int.natCast_nonneg _) last apart
    have count : (os ++ [o]).length = os.length + 1 := by simp
    obtain ⟨g',ran⟩ := ih (built.addEdge first) (setInput_frame start member nodes) free
      (by rw [List.append_assoc]; exact all) later
    refine ⟨g',?_⟩
    rw [List.zipIdx_cons,List.foldlM_cons,edge,found]
    dsimp only
    rw [first,← count]
    exact ran

end Edges

end Lowering
end TensorGraph
