import TensorGraph.Proofs.Model.Titles
import TensorGraph.Proofs.Plan.Meaning

namespace TensorGraph
open Outcome

theorem Op.binary_ok {kind : BinaryKind} {t u v : Tensor} :
    (binary kind).eval [t,u] = .ok [v] ↔ kind.eval t u = .ok v := by
  refine map_ok.trans ⟨?_,fun evaluated => ⟨v,evaluated,rfl⟩⟩
  rintro ⟨w,evaluated,equal⟩
  cases equal
  exact evaluated

namespace Graph

-- From node `k` on each takes what has come so far and the next of the outlets. What a node before the last
-- gives is taken by the next node and by none behind it.
def Chain (g : Graph) (operator : Operator) : Nat → Outlet → List Outlet → Prop
  | k, a, b :: c :: rest => (∃ name, g.get? k = some ⟨k,name,operator,[a,b]⟩) ∧ ⟨k,0⟩ ∉ c :: rest ∧
      g.Chain operator (k + 1) ⟨k,0⟩ (c :: rest)
  | k, a, os => ∃ name, g.get? k = some ⟨k,name,operator,a :: os⟩

-- Nodes are evaluated one after the other, from tensors of what they take from elsewhere.
def evaluate (g : Graph) (ids : List Nat) (tensors : Table Tensor) : Outcome (Table Tensor) :=
  ids.foldlM (fun (tensors : Table Tensor) (id : Nat) => do
    let n ← g.node id
    let values ← Plan.evaluate n (← n.inputs.mapM tensors.get)
    return (n.outlets.zip values).foldl (fun t e => t.set e.1 e.2) tensors) tensors

variable {g : Graph} {op : Op} {kind : BinaryKind} {k : Nat} {name : String} {a b : Outlet} {os : List Outlet}
  {tensors : Table Tensor} {args ts : List Tensor} {t u v : Tensor}

theorem drop_node {n : Node} (found : g.get? k = some n) : g.nodes.drop k = n :: g.nodes.drop (k + 1) := by
  rw [get?_natCast] at found
  obtain ⟨low,at_⟩ := List.getElem?_eq_some_iff.mp found
  rw [List.drop_eq_getElem_cons low,at_]

-- A chain has a node for each of its outlets but the first.
theorem chain_operators {operator : Operator} (chain : g.Chain operator k a (b :: os)) :
    ((g.nodes.drop k).take (os.length + 1)).map (·.operator) = List.replicate (os.length + 1) operator := by
  induction os generalizing k a b with
  | nil =>
    obtain ⟨name,found⟩ := chain
    rw [drop_node found]
    rfl
  | cons c os ih =>
    obtain ⟨⟨name,found⟩,-,chain⟩ := chain
    rw [List.length_cons,drop_node found,List.take_succ_cons,List.map_cons,ih chain]
    rfl

-- The first node is evaluated, and what it gives is there for the others.
theorem evaluate_head (found : g.get? k = some ⟨k,name,op.operator,os⟩)
    (read : List.Forall₂ (fun o t => tensors.get? o = some t) os args) {ids : List Nat}
    {f : Table Tensor → Outcome β} {r : β} : (g.evaluate (k :: ids) tensors >>= f) = .ok r ↔
      ∃ w, op.eval args = .ok [w] ∧ (g.evaluate ids (tensors.set ⟨k,0⟩ w) >>= f) = .ok r := by
  have inputs : os.mapM tensors.get = .ok args := mapM_ok.mpr (read.imp fun _ _ => Table.get_ok.mpr)
  unfold evaluate
  rw [List.foldlM_cons,node_ok.mpr found,ok_bind,inputs,ok_bind,bind_assoc,bind_assoc,bind_ok]
  constructor
  · rintro ⟨values,evaluated,rest⟩
    obtain ⟨evaluated,count⟩ := Plan.evaluate_ok.mp evaluated
    obtain ⟨w,rfl⟩ := List.length_eq_one_iff.mp count
    exact ⟨w,evaluated,rest⟩
  · rintro ⟨w,evaluated,rest⟩
    exact ⟨[w],Plan.evaluate_ok.mpr ⟨evaluated,rfl⟩,rest⟩

theorem evaluate_binary (found : g.get? k = some ⟨k,name,(Op.binary kind).operator,[a,b]⟩)
    (first : tensors.get? a = some t) (second : tensors.get? b = some u) {ids : List Nat} {f : Table Tensor → Outcome β}
    {r : β} : (g.evaluate (k :: ids) tensors >>= f) = .ok r ↔
      ∃ w, kind.eval t u = .ok w ∧ (g.evaluate ids (tensors.set ⟨k,0⟩ w) >>= f) = .ok r :=
  (evaluate_head found (.cons first (.cons second .nil))).trans
    (exists_congr fun _ => and_congr_left fun _ => Op.binary_ok)

theorem evaluate_last {o : Outlet} {w : Tensor} :
    (g.evaluate [] (tensors.set o w) >>= (·.get o)) = .ok v ↔ w = v := by
  rw [evaluate,List.foldlM_nil,pure_eq_ok,ok_bind,Table.get_ok,Table.get?_set,if_pos rfl,Option.some.injEq]

theorem evaluate_alone (chain : g.Chain Op.identity.operator k a []) (first : tensors.get? a = some t) :
    (g.evaluate [k] tensors >>= (·.get ⟨k,0⟩)) = .ok v ↔ t = v := by
  obtain ⟨name,found⟩ := chain
  rw [evaluate_head found (.cons first .nil)]
  constructor
  · rintro ⟨w,evaluated,last⟩
    cases evaluated
    exact evaluate_last.mp last
  · exact fun same => ⟨t,rfl,evaluate_last.mpr same⟩

-- A chain evaluates to the fold from the left.
theorem evaluate_chain (chain : g.Chain (Op.binary kind).operator k a (b :: os)) (first : tensors.get? a = some t)
    (read : List.Forall₂ (fun o t => tensors.get? o = some t) (b :: os) ts) :
    (g.evaluate (List.range' k (os.length + 1)) tensors >>= (·.get ⟨Int.ofNat (k + os.length),0⟩)) = .ok v ↔
      ts.foldlM kind.eval t = .ok v := by
  induction os generalizing k a b tensors t ts with
  | nil =>
    obtain ⟨name,found⟩ := chain
    obtain _ | @⟨_,u,_,us,second,none⟩ := read
    cases none
    rw [List.range'_succ,evaluate_binary found first second,List.foldlM_cons,bind_ok]
    refine exists_congr fun w => and_congr_right fun _ => evaluate_last.trans ?_
    rw [List.foldlM_nil,pure_eq_ok,Except.ok.injEq]
  | cons c os ih =>
    obtain ⟨⟨name,found⟩,apart,chain⟩ := chain
    obtain _ | @⟨_,u,_,us,second,rest⟩ := read
    rw [List.range'_succ,evaluate_binary found first second,List.foldlM_cons,bind_ok]
    refine exists_congr fun w => and_congr_right fun _ => ?_
    have here : (tensors.set ⟨k,0⟩ w).get? ⟨k,0⟩ = some w := by rw [Table.get?_set,if_pos rfl]
    have kept : List.Forall₂ (fun o t => (tensors.set ⟨k,0⟩ w).get? o = some t) (c :: os) us := by
      refine (forall₂_mem rest).imp fun o x later => ?_
      have other : o ≠ ⟨k,0⟩ := fun same => apart (same ▸ later.1)
      rw [Table.get?_set,if_neg other]
      exact later.2
    rw [List.length_cons,← ih chain here kept,Nat.add_right_comm,Nat.add_assoc]

end Graph

namespace Plan
open TensorGraph.Graph

variable {p : Plan} {g : Graph} {bound : Bindings} {op : Op} {kind : BinaryKind} {k : Nat} {name : String} {a b : Outlet}
  {os : List Outlet} {v : Tensor}

-- What an output is that is neither fed nor taken from an analysis.
theorem value_node (found : g.get? k = some ⟨k,name,op.operator,os⟩) (unbound : bound.lookup (k : Int) = none)
    (computed : (k : Int) ∉ p.folded) : Value p g bound ⟨k,0⟩ v ↔
      ∃ args, List.Forall₂ (Value p g bound) os args ∧ op.eval args = .ok [v] := by
  unfold Value
  simp only [means_evaluated unbound computed found,evaluate_ok]
  constructor
  · rintro ⟨-,ts,⟨args,values,evaluated,count⟩,at_⟩
    obtain ⟨w,rfl⟩ := List.length_eq_one_iff.mp count
    cases at_
    exact ⟨args,values,evaluated⟩
  · rintro ⟨args,values,evaluated⟩
    exact ⟨le_refl _,[v],⟨args,values,evaluated,rfl⟩,rfl⟩

theorem value_binary (found : g.get? k = some ⟨k,name,(Op.binary kind).operator,[a,b]⟩)
    (unbound : bound.lookup (k : Int) = none) (computed : (k : Int) ∉ p.folded) :
    Value p g bound ⟨k,0⟩ v ↔ ∃ t u, Value p g bound a t ∧ Value p g bound b u ∧ kind.eval t u = .ok v := by
  rw [value_node found unbound computed]
  constructor
  · rintro ⟨args,values,evaluated⟩
    obtain _ | @⟨_,t,_,_,first,rest⟩ := values
    obtain _ | @⟨_,u,_,_,second,none⟩ := rest
    cases none
    exact ⟨t,u,first,second,Op.binary_ok.mp evaluated⟩
  · rintro ⟨t,u,first,second,evaluated⟩
    exact ⟨[t,u],.cons first (.cons second .nil),Op.binary_ok.mpr evaluated⟩

theorem value_alone (chain : g.Chain Op.identity.operator k a []) (unbound : bound.lookup (k : Int) = none)
    (computed : (k : Int) ∉ p.folded) : Value p g bound ⟨k,0⟩ v ↔ Value p g bound a v := by
  obtain ⟨name,found⟩ := chain
  rw [value_node found unbound computed]
  constructor
  · rintro ⟨args,values,evaluated⟩
    obtain _ | @⟨_,t,_,_,first,none⟩ := values
    cases none
    cases evaluated
    exact first
  · exact fun first => ⟨[v],.cons first .nil,rfl⟩

-- In a run a chain has a value just where its outlets have theirs and the fold of these succeeds.
theorem value_chain (chain : g.Chain (Op.binary kind).operator k a (b :: os))
    (unbound : ∀ i ≤ os.length, bound.lookup (Int.ofNat (k + i)) = none)
    (computed : ∀ i ≤ os.length, Int.ofNat (k + i) ∉ p.folded) :
    Value p g bound ⟨Int.ofNat (k + os.length),0⟩ v ↔ ∃ t u us, Value p g bound a t ∧ Value p g bound b u ∧
      List.Forall₂ (Value p g bound) os us ∧ (u :: us).foldlM kind.eval t = .ok v := by
  induction os generalizing k a b with
  | nil =>
    obtain ⟨name,found⟩ := chain
    refine (value_binary found (unbound 0 (Nat.zero_le _)) (computed 0 (Nat.zero_le _))).trans ?_
    constructor
    · rintro ⟨t,u,first,second,evaluated⟩
      exact ⟨t,u,[],first,second,.nil,bind_ok.mpr ⟨v,evaluated,rfl⟩⟩
    · rintro ⟨t,u,us,first,second,none,folded⟩
      cases none
      obtain ⟨w,evaluated,last⟩ := bind_ok.mp folded
      cases last
      exact ⟨t,u,first,second,evaluated⟩
  | cons c os ih =>
    obtain ⟨⟨name,found⟩,-,chain⟩ := chain
    have next (i : Nat) : k + 1 + i = k + (i + 1) := by omega
    have head {w : Tensor} := value_binary (v := w) found (unbound 0 (Nat.zero_le _)) (computed 0 (Nat.zero_le _))
    have tail := ih chain (fun i low => next i ▸ unbound (i + 1) (Nat.succ_le_succ low))
      (fun i low => next i ▸ computed (i + 1) (Nat.succ_le_succ low))
    rw [List.length_cons,← next,tail]
    constructor
    · rintro ⟨w,x,xs,link,third,rest,folded⟩
      obtain ⟨t,u,first,second,evaluated⟩ := head.mp link
      exact ⟨t,u,x :: xs,first,second,.cons third rest,bind_ok.mpr ⟨w,evaluated,folded⟩⟩
    · rintro ⟨t,u,us,first,second,others,folded⟩
      obtain _ | @⟨_,x,_,xs,third,rest⟩ := others
      obtain ⟨w,evaluated,folded⟩ := bind_ok.mp folded
      exact ⟨w,x,xs,head.mpr ⟨t,u,first,second,evaluated⟩,third,rest,folded⟩

end Plan

namespace Registry

-- A name of an operator without attributes leads to that operator.
theorem create_plain {name : String} {o : Op} {as : Attributes} {operator : Operator}
    (known : builtin.get? name = some fun as => (Op.plain o as).map Op.operator)
    (made : builtin.create name as = .ok operator) : operator = o.operator := by
  obtain ⟨make,known',built⟩ := create_made made
  cases known.symm.trans known'
  obtain ⟨_,plain,rfl⟩ := map_ok.mp built
  obtain ⟨-,-,equal⟩ := bind_ok.mp plain
  cases equal
  rfl

end Registry

namespace Lowering
open TensorGraph.Graph Model

variable {start : Lowering} {rows : List Row} {row : Row} {names : List String} {x : String} {o : Outlet} {k : Nat}
  {r : Registry} {g : Graph} {qs qs' : List (Step × Nat)} {q : Step × Nat} {ps : List (String × List Row)}

-- Outlets of a row's node have the names that the row gives them.
theorem given_row {entries : List String} (opened : Opened entries start) (member : (x,o) ∈ given start rows)
    (place : (row,k) ∈ rows.zipIdx start.graph.size) (here : o.node = k) : x ∈ row.results.map (·.1) := by
  rcases List.mem_append.mp member with new | old
  · obtain ⟨⟨other,i⟩,place',slot,result,rfl⟩ := mem_bound.mp (List.mem_reverse.mp new)
    obtain rfl : i = k := Int.ofNat.inj here
    cases zipIdx_unique place' place
    exact List.mem_map.mpr ⟨_,result,rfl⟩
  · have inside := given_inside opened (show (x,o) ∈ given start [] from old)
    have beyond := zipIdx_beyond place
    rw [List.length_nil] at inside
    omega

-- The nodes of a step that folds its inputs are a chain, since no input is called like a link.
theorem folded_chain {entries : List String} (opened : Opened entries start)
    (same : ∀ i, g.get? i = (drawn start rows).get? i) (distinct : ((given start rows).map (·.1)).Nodup)
    {operator : Operator} {title a : String} {outputs : List (String × Nat)} {first : Outlet} {os : List Outlet} (j : Nat)
    (places : ∀ p ∈ (folded operator title outputs j a names).zipIdx k, p ∈ rows.zipIdx start.graph.size)
    (plain : ∀ x ∈ names, '/' ∉ x.toList) (head : (given start rows).lookup a = some first)
    (tail : List.Forall₂ (fun x o => (given start rows).lookup x = some o) names os) :
    g.Chain operator k first os := by
  induction names generalizing j k a first os with
  | nil =>
    cases tail
    exact ⟨title,(same k).trans (drawn_taken (places _ List.mem_cons_self) (.cons head .nil))⟩
  | cons b names ih =>
    obtain _ | @⟨_,o,_,os,second,rest⟩ := tail
    cases names with
    | nil =>
      cases rest
      exact ⟨title,(same k).trans (drawn_taken (places _ List.mem_cons_self) (.cons head (.cons second .nil)))⟩
    | cons c names =>
      rw [folded,List.zipIdx_cons] at places
      obtain ⟨place,later⟩ := List.forall_mem_cons.mp places
      have node := (same k).trans (drawn_taken place (.cons head (.cons second .nil)))
      have link : (given start rows).lookup (linkName title j) = some ⟨k,0⟩ :=
        (lookup_mem distinct).mpr (List.mem_append_left _ (List.mem_reverse.mpr
          (mem_bound.mpr ⟨_,place,0,List.mem_singleton_self _,rfl⟩)))
      have plain' := (List.forall_mem_cons.mp plain).2
      have apart : (⟨k,0⟩ : Outlet) ∉ os := by
        intro member
        obtain ⟨x,source,found⟩ := forall₂_right rest _ member
        have named := given_row opened ((lookup_mem distinct).mp found) place rfl
        rw [List.mem_singleton.mp named] at source
        exact linkName_ne plain' title j source
      obtain _ | @⟨_,o',_,os',third,others⟩ := rest
      exact ⟨⟨_,node⟩,apart,ih (j + 1) later plain' link (.cons third others)⟩

-- The rows of one of the steps stand together.
theorem rows_split (found : List.Forall₂ (fun q p => start.rows r q.1 p.1 = .ok p.2) (qs ++ q :: qs') ps) :
    ∃ title block early late, start.rows r q.1 title = .ok block ∧ ps.flatMap (·.2) = early ++ (block ++ late) ∧
      early.length = (qs.map (·.1.width)).sum := by
  induction qs generalizing ps with
  | nil =>
    obtain _ | @⟨_,p,_,ps,first,rest⟩ := found
    exact ⟨p.1,p.2,[],ps.flatMap (·.2),first,rfl,rfl⟩
  | cons q' qs ih =>
    obtain _ | @⟨_,p,_,ps,first,rest⟩ := found
    obtain ⟨title,block,early,late,here,whole,count⟩ := ih rest
    refine ⟨title,block,p.2 ++ early,late,here,?_,?_⟩
    · rw [List.flatMap_cons,whole,List.append_assoc]
    · rw [List.length_append,count,rows_width first,List.map_cons,List.sum_cons]

end Lowering

namespace Model
open Lowering TensorGraph.Graph

variable {m : Model} {serial : Nat} {g : Graph} {s : Step} {before after : List Step} {kind : BinaryKind}

-- Nodes that fold outlets from the left. One outlet is passed on; of several each but the first has a node.
structure Folded (g : Graph) (kind : BinaryKind) (b width : Nat) (os : List Outlet) : Prop where
  operators : ((g.nodes.drop b).take width).map (·.operator) = if os.length = 1 then [Op.identity.operator]
    else List.replicate (os.length - 1) (Op.binary kind).operator
  evaluated : ∀ (tensors : Table Tensor) t ts, List.Forall₂ (fun o t => tensors.get? o = some t) os (t :: ts) →
    ∀ v, (g.evaluate (List.range' b width) tensors >>= (·.get ⟨Int.ofNat (b + (width - 1)),0⟩)) = .ok v ↔
      ts.foldlM kind.eval t = .ok v
  meant : ∀ (p : Plan) (bound : Plan.Bindings), (∀ i < width, bound.lookup (Int.ofNat (b + i)) = none) →
    (∀ i < width, Int.ofNat (b + i) ∉ p.folded) →
      ∀ v, Plan.Value p g bound ⟨Int.ofNat (b + (width - 1)),0⟩ v ↔
        ∃ t ts, List.Forall₂ (Plan.Value p g bound) os (t :: ts) ∧ ts.foldlM kind.eval t = .ok v

theorem folded_alone {b : Nat} {o : Outlet} (chain : g.Chain Op.identity.operator b o []) : Folded g kind b 1 [o] := by
  refine ⟨?_,?_,?_⟩
  · obtain ⟨name,found⟩ := chain
    rw [drop_node found]
    rfl
  · intro tensors t ts read v
    obtain _ | ⟨first,none⟩ := read
    cases none
    rw [List.foldlM_nil,pure_eq_ok,Except.ok.injEq]
    exact evaluate_alone chain first
  · intro p bound unbound computed v
    refine (Plan.value_alone chain (unbound 0 Nat.one_pos) (computed 0 Nat.one_pos)).trans ?_
    constructor
    · exact fun value => ⟨v,[],.cons value .nil,rfl⟩
    · rintro ⟨t,ts,values,folded⟩
      obtain _ | ⟨first,none⟩ := values
      cases none
      cases folded
      exact first

theorem folded_several {b : Nat} {o o' : Outlet} {os : List Outlet}
    (chain : g.Chain (Op.binary kind).operator b o (o' :: os)) : Folded g kind b (os.length + 1) (o :: o' :: os) := by
  refine ⟨?_,?_,?_⟩
  · rw [if_neg (by simp)]
    exact chain_operators chain
  · intro tensors t ts read v
    obtain _ | ⟨first,rest⟩ := read
    exact evaluate_chain chain first rest
  · intro p bound unbound computed v
    refine (Plan.value_chain chain (fun i low => unbound i (Nat.lt_succ_of_le low))
      fun i low => computed i (Nat.lt_succ_of_le low)).trans ?_
    constructor
    · rintro ⟨t,u,us,first,second,rest,folded⟩
      exact ⟨t,u :: us,.cons first (.cons second rest),folded⟩
    · rintro ⟨t,ts,values,folded⟩
      obtain _ | ⟨first,rest⟩ := values
      obtain _ | @⟨_,u,_,us,second,rest⟩ := rest
      exact ⟨t,u,us,first,second,rest,folded⟩

-- What an operator for any number of inputs becomes.
theorem variadic_operator (variadic : (s.op,kind) ∈ [("Max",BinaryKind.maximum),("Min",.minimum)]) :
    isChained s.op = true ∧ operators.lookup s.op = some kind.opType ∧
      Registry.builtin.get? kind.opType = some fun as => (Op.plain (.binary kind) as).map Op.operator := by
  simp only [List.mem_cons,Prod.mk.injEq,List.not_mem_nil,or_false] at variadic
  rcases variadic with ⟨op,rfl⟩ | ⟨op,rfl⟩
  · rw [op]
    exact ⟨rfl,rfl,rfl⟩
  · rw [op]
    exact ⟨rfl,rfl,rfl⟩

theorem rows_variadic {start : Lowering} {title x : String} {names : List String} {block : List Row}
    (variadic : (s.op,kind) ∈ [("Max",BinaryKind.maximum),("Min",.minimum)]) (taken : s.taken = x :: names)
    (found : start.rows .builtin s title = .ok block) : ∃ outputs,
      block = folded (if names = [] then Op.identity else .binary kind).operator title outputs 1 x names := by
  obtain ⟨op,as,operator,known,made,rfl⟩ := rows_found found
  obtain ⟨chained,same,plain⟩ := variadic_operator variadic
  cases known.symm.trans same
  have made : operator = (if names = [] then Op.identity else .binary kind).operator := by
    rw [chained,taken] at made
    cases names with
    | nil => exact Registry.create_plain rfl made
    | cons y names =>
      rw [if_neg (by simp)] at made
      exact Registry.create_plain plain made
  rw [chained,taken,← made]
  exact ⟨_,rfl⟩

theorem produced_result {b : Nat} {y : String} (first : s.outputs.head? = some y) (named : y ≠ "") :
    (y,⟨Int.ofNat (b + (before.map Step.width).sum + (s.width - 1)),0⟩) ∈ produced b (before ++ s :: after) := by
  induction before generalizing b with
  | nil =>
    have here : (y,0) ∈ s.outputs.zipIdx :=
      List.mem_zipIdx_iff_getElem?.mpr (List.head?_eq_getElem? ▸ first)
    exact List.mem_append_left _ (List.mem_map.mpr ⟨_,List.mem_filter.mpr ⟨here,by simpa using named⟩,rfl⟩)
  | cons s' before ih =>
    have later := ih (b := b + s'.width)
    rw [Nat.add_assoc b] at later
    exact List.mem_append_right _ later

section Steps
variable {T : Step × Nat → String → Prop} {start : Lowering} {ps : List (String × List Row)} {title : String}
  {block early late : List Row} {os : List Outlet}

-- All that a step takes is found among the names.
theorem Laid.taken {r : Registry} (laid : Laid m r T start ps g) (found : start.rows r s title = .ok block)
    (whole : ps.flatMap (·.2) = early ++ (block ++ late)) :
    ∃ os, List.Forall₂ (fun x o => (given start (ps.flatMap (·.2))).lookup x = some o) s.taken os := by
  refine exists_forall₂ fun x source => ?_
  obtain ⟨j,at_⟩ := List.mem_iff_getElem?.mp source
  obtain ⟨row,place,takes⟩ := rows_seat found at_
  have inside : row ∈ ps.flatMap (·.2) := by
    rw [whole]
    exact List.mem_append_right _ (List.mem_append_left _ (List.mem_of_getElem? place))
  obtain ⟨o,known,-⟩ := laid.realized.feasible.resolved row inside x (List.mem_of_getElem? takes)
  exact ⟨o,known⟩

-- The rows of a step for any number of inputs lead to nodes that fold what the step takes.
theorem Laid.folds (opened : Opened m.entries start) (laid : Laid m .builtin T start ps g)
    (variadic : (s.op,kind) ∈ [("Max",BinaryKind.maximum),("Min",.minimum)])
    (found : start.rows .builtin s title = .ok block) (whole : ps.flatMap (·.2) = early ++ (block ++ late))
    (some_ : s.taken ≠ []) (plain : ∀ x ∈ s.taken, '/' ∉ x.toList)
    (lookups : List.Forall₂ (fun x o => (given start (ps.flatMap (·.2))).lookup x = some o) s.taken os) :
    Folded g kind (start.graph.size + early.length) s.width os := by
  obtain ⟨x,names,taken⟩ := List.exists_cons_of_ne_nil some_
  obtain ⟨outputs,rfl⟩ := rows_variadic variadic taken found
  rw [taken] at lookups plain
  obtain _ | @⟨_,o,_,os,head,tail⟩ := lookups
  have same : ∀ i, g.get? i = (drawn start (ps.flatMap (·.2))).get? i := by
    obtain ⟨-,-,_,-,rfl⟩ := laid.realized
    exact fun _ => rfl
  have chain := folded_chain (k := start.graph.size + early.length) opened same laid.distinct 1
    (fun p member => by
      rw [whole,List.zipIdx_append,List.zipIdx_append]
      exact List.mem_append_right _ (List.mem_append_left _ member))
    (List.forall_mem_cons.mp plain).2 head tail
  rw [width_chained (variadic_operator variadic).1 taken,tail.length_eq]
  cases tail with
  | nil => exact folded_alone chain
  | @cons _ o' _ os second rest =>
    rw [List.length_cons,Nat.add_sub_cancel,Nat.add_comm 1]
    exact folded_several chain

end Steps

-- A step for any number of inputs becomes nodes that fold them from the left, in the order in which the step lists
-- them and wherever they come from. The last node has the name that the step gives its output.
theorem toGraph_folds (values : m.valueNames.Nodup) (plain : ∀ x ∈ m.valueNames ++ m.usedNames, '/' ∉ x.toList)
    (ran : m.toGraph .builtin serial = .ok g) (steps : m.steps = before ++ s :: after)
    (variadic : (s.op,kind) ∈ [("Max",BinaryKind.maximum),("Min",.minimum)]) (some_ : s.taken ≠ []) :
    ∃ b os, b = m.entries.length + (before.map Step.width).sum ∧
      List.Forall₂ (fun x o => (x,o) ∈ m.declared) s.taken os ∧ Folded g kind b s.width os ∧
      ∀ y, s.outputs.head? = some y → y ≠ "" → (y,⟨Int.ofNat (b + (s.width - 1)),0⟩) ∈ m.declared := by
  have hygienic : Hygienic m := ⟨values,fun _ _ _ title _ k _ _ => linkName_ne plain title k⟩
  obtain ⟨start,ps,opened,laid⟩ := toGraph_titled hygienic ran
  have found := laid.found.imp fun _ _ => And.right
  rw [steps,List.zipIdx_append,List.zipIdx_cons] at found
  obtain ⟨title,block,early,late,here,whole,count⟩ := rows_split found
  have place : start.graph.size + early.length = m.entries.length + (before.map Step.width).sum := by
    have size : start.graph.size = m.entries.length := by rw [← opened.named,List.length_map]; rfl
    have widths : (before.zipIdx.map (·.1.width)).sum = (before.map Step.width).sum := by
      conv => rhs; rw [← List.zipIdx_map_fst 0 before,List.map_map]
      rfl
    rw [size,count,widths]
  have used : ∀ x ∈ s.taken, x ∈ m.usedNames := fun x member =>
    List.mem_append_left _ (List.mem_flatMap.mpr ⟨s,by rw [steps]; simp,member⟩)
  obtain ⟨os,lookups⟩ := laid.taken here whole
  refine ⟨_,os,rfl,(forall₂_mem lookups).imp fun x o known => ?_,?_,fun y first named => ?_⟩
  · exact Laid.declared hygienic opened laid (used x known.1) known.2
  · rw [← place]
    exact laid.folds opened variadic here whole some_
      (fun x member => plain x (List.mem_append_right _ (used x member))) lookups
  · refine List.mem_append_right _ ?_
    rw [steps]
    exact produced_result first named

-- The second input of the first step comes from the last step, so that both nodes of the first step wait for it.
def deferred : Model := ⟨"",[],[⟨"x",1,some [some 2]⟩,⟨"y",1,some [some 2]⟩],[⟨"top",1,none⟩],
  [⟨"Max",["x","late","y"],["top"],"most",[]⟩,⟨"Relu",["x"],["late"],"last",[]⟩]⟩

theorem toGraph_folds_deferred : ∃ g os, deferred.toGraph .builtin 0 = .ok g ∧
    List.Forall₂ (fun x o => (x,o) ∈ deferred.declared) ["x","late","y"] os ∧ Folded g .maximum 2 2 os := by
  obtain ⟨g,ran⟩ : ∃ g, deferred.toGraph .builtin 0 = .ok g := ok_of_isSome (by decide +kernel)
  have first : deferred.steps = [] ++ ⟨"Max",["x","late","y"],["top"],"most",[]⟩ :: deferred.steps.tail := rfl
  have variadic : ("Max",BinaryKind.maximum) ∈ [("Max",BinaryKind.maximum),("Min",.minimum)] := List.mem_cons_self
  obtain ⟨b,os,rfl,declared,folded,-⟩ := toGraph_folds (by decide) (by decide) ran first variadic (by decide)
  exact ⟨g,os,ran,declared,folded⟩

end Model

end TensorGraph
