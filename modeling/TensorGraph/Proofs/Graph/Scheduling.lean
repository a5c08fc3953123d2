import Mathlib.Data.List.Lex
import Mathlib.Order.Preorder.Finite
import TensorGraph.Proofs.Graph.Loops
import TensorGraph.Proofs.Plan.Layout

namespace TensorGraph.Graph
open Outcome
open Relation (TransGen ReflTransGen)

variable {g : Graph} {stop wanted waiting settled : List Int} {targets : Option (List Outlet)}

-- One node takes from the other, and is not at the boundary, behind which nothing is followed.
def Follows (g : Graph) (stop : List Int) (a b : Int) : Prop := a ∉ stop ∧ g.Needs a b

-- The nodes that an order is about: what is met from the targets, or every node.
def Wanted (g : Graph) (stop : List Int) : Option (List Outlet) → Int → Prop
  | none, id => g.Known id
  | some outlets, id => ∃ o ∈ outlets, ReflTransGen (g.Follows stop) o.node id

-- The edges into wanted nodes before the boundary close no loop.
def Unlooped (g : Graph) (targets : Option (List Outlet)) (stop : List Int) : Prop :=
  ∀ id, ¬ TransGen (fun a b => g.Wanted stop targets a ∧ g.Follows stop a b) id id

-- An order of the wanted nodes: each once, and after all that it takes from.
structure Arranged (g : Graph) (targets : Option (List Outlet)) (stop order : List Int) : Prop where
  nodup : order.Nodup
  members : ∀ id, id ∈ order ↔ g.Wanted stop targets id
  after : ∀ before id rest, order = before ++ id :: rest → ∀ m, g.Follows stop id m → m ∈ before

-- A walk meets nothing that does not lie behind where it started.
theorem walk_reached (rooted : g.Rooted) {fuel : Nat} {seen stack found : List Int}
    (known : ∀ id ∈ stack, g.Known id) (ran : g.walk stop fuel seen stack = .ok found) :
    ∀ id ∈ found, id ∈ seen ∨ ∃ start ∈ stack, ReflTransGen (g.Follows stop) start id := by
  induction fuel generalizing seen stack with
  | zero => cases stack <;> cases ran <;> exact fun _ => .inl
  | succ fuel ih =>
    cases stack with
    | nil =>
      simp only [walk] at ran
      cases ran
      exact fun _ => .inl
    | cons id stack =>
      obtain ⟨⟨n,here⟩,later⟩ := List.forall_mem_cons.mp known
      unfold walk at ran
      have entered : ∀ p, p ∈ id :: seen ∨ (∃ start ∈ stack, ReflTransGen (g.Follows stop) start p) →
          p ∈ seen ∨ ∃ start ∈ id :: stack, ReflTransGen (g.Follows stop) start p := by
        rintro p (met | ⟨start,waits,path⟩)
        · rcases List.mem_cons.mp met with rfl | old
          · exact .inr ⟨p,List.mem_cons_self,.refl⟩
          · exact .inl old
        · exact .inr ⟨start,List.mem_cons_of_mem _ waits,path⟩
      split at ran
      · exact fun p member => entered p ((ih later ran p member).imp_left (List.mem_cons_of_mem _))
      split at ran
      · exact fun p member => entered p (ih later ran p member)
      · rename_i open_
        rw [referred_known here] at ran
        intro p member
        rcases ih (rooted.pushed_known here later) ran p member with met | ⟨start,waits,path⟩
        · exact entered p (.inl met)
        · rcases List.mem_append.mp waits with new | old
          · have first : g.Follows stop id start :=
              ⟨by simpa using open_,needs_iff.mpr ⟨n,here,List.mem_reverse.mp new⟩⟩
            exact .inr ⟨id,List.mem_cons_self,.head first path⟩
          · exact .inr ⟨start,List.mem_cons_of_mem _ old,path⟩

-- What the targets lead to, in ascending order.
theorem reachable_wanted (stop : List Int) (rooted : g.Rooted) {outlets : List Outlet}
    (known : ∀ o ∈ outlets, g.Known o.node) : ∃ found, g.reachable outlets stop = .ok found ∧
      found.Pairwise (· < ·) ∧ ∀ id, id ∈ found ↔ g.Wanted stop (some outlets) id := by
  obtain ⟨found,reached,-,met,-,closed⟩ := reachable_parts stop rooted known
  obtain ⟨start,resolved,rest⟩ := bind_ok.mp reached
  obtain ⟨walked,ran,equal⟩ := bind_ok.mp rest
  cases equal
  have origins : ∀ id ∈ start, ∃ o ∈ outlets, o.node = id := by
    intro id member
    obtain ⟨o,target,resolved⟩ := forall₂_right (mapM_ok.mp resolved) id member
    obtain ⟨n,there,equal⟩ := bind_ok.mp resolved
    cases equal
    exact ⟨o,target,(rooted.numbered.id_eq (node_ok.mp there)).symm⟩
  refine ⟨_,reached,ascending_sorted _,fun id => ⟨fun member => ?_,?_⟩⟩
  · have entries : ∀ id ∈ start.reverse, g.Known id := by
      intro id member
      obtain ⟨o,target,rfl⟩ := origins id (List.mem_reverse.mp member)
      exact known o target
    rcases walk_reached rooted entries ran id (mem_ascending.mp member) with none | ⟨first,entry,path⟩
    · cases none
    · obtain ⟨o,target,rfl⟩ := origins first (List.mem_reverse.mp entry)
      exact ⟨o,target,path⟩
  · rintro ⟨o,target,path⟩
    induction path with
    | refl => exact met o target
    | tail _ step ih =>
      obtain ⟨n,found,producer⟩ := needs_iff.mp step.2
      exact (closed _ ih step.1 n found _ producer).resolve_right nofun

-- An order is what settles of the wanted nodes, if all of them do.
theorem topologicalOrder_settles (stop : List Int) (rooted : g.Rooted)
    (known : ∀ outlets, targets = some outlets → ∀ o ∈ outlets, g.Known o.node) :
    ∃ wanted, wanted.Pairwise (· < ·) ∧ (∀ id, id ∈ wanted ↔ g.Wanted stop targets id) ∧
      g.topologicalOrder targets stop =
        if (settle (needed g stop wanted) wanted.length wanted []).length = wanted.length
        then .ok (settle (needed g stop wanted) wanted.length wanted [])
        else TensorGraph.fail .cyclicGraph := by
  cases targets with
  | none =>
    refine ⟨g.ids,g.ids_sorted,fun _ => mem_ids,?_⟩
    unfold topologicalOrder
    dsimp only
    rw [ok_bind,needs_known fun _ => mem_ids.mp,ok_bind,drain_collected stop g.ids_sorted]
    rfl
  | some outlets =>
    obtain ⟨wanted,reached,equal⟩ := topologicalOrder_eq stop rooted (known outlets rfl)
    obtain ⟨found,again,sorted,members⟩ := reachable_wanted stop rooted (known outlets rfl)
    cases reached.symm.trans again
    exact ⟨wanted,sorted,members,equal⟩

-- Nodes that a wanted node takes from are wanted.
theorem Wanted.producer (rooted : g.Rooted) {a b : Int} (wants : g.Wanted stop targets a)
    (follows : g.Follows stop a b) : g.Wanted stop targets b := by
  cases targets with
  | none =>
    obtain ⟨n,found,producer⟩ := needs_iff.mp follows.2
    exact rooted.producers_known found b producer
  | some outlets =>
    obtain ⟨o,target,path⟩ := wants
    exact ⟨o,target,path.tail follows⟩

theorem mem_needed_iff (rooted : g.Rooted) (members : ∀ id, id ∈ wanted ↔ g.Wanted stop targets id) {a b : Int}
    (wants : a ∈ wanted) : b ∈ needed g stop wanted a ↔ g.Follows stop a b := by
  rw [mem_needed]
  constructor
  · rintro ⟨open_,-,taken⟩
    exact ⟨open_,needs_iff.mpr taken⟩
  · intro follows
    exact ⟨follows.1,(members b).mpr (((members a).mp wants).producer rooted follows),needs_iff.mp follows.2⟩

-- In a list that no relation leads around in, something leads nowhere within the list.
theorem exists_least {r : Int → Int → Prop} {left : List Int} (unlooped : ∀ id, ¬ TransGen r id id) (some : left ≠ []) :
    ∃ id ∈ left, ∀ m ∈ left, ¬ r id m := by
  let below (a b : {id // id ∈ left}) : Prop := TransGen r b a
  have : IsTrans _ below := ⟨fun _ _ _ ab bc => bc.trans ab⟩
  have : Std.Irrefl below := ⟨fun a => unlooped a⟩
  obtain ⟨head,member⟩ := List.exists_mem_of_ne_nil left some
  obtain ⟨least,-,low⟩ := (Finite.wellFounded_of_trans_of_irrefl below).has_min Set.univ ⟨⟨head,member⟩,trivial⟩
  exact ⟨least,least.2,fun m there step => low ⟨m,there⟩ trivial (.single step)⟩

theorem settle_unlooped (rooted : g.Rooted) (unlooped : g.Unlooped targets stop)
    (members : ∀ id, id ∈ wanted ↔ g.Wanted stop targets id) :
    (settle (needed g stop wanted) wanted.length wanted []).length = wanted.length := by
  have complete : (settle (needed g stop wanted) wanted.length wanted []).length = 0 + wanted.length :=
    settle_total wanted.length wanted [] (Nat.le_refl _) (fun id _ m need => .inr (mem_needed.mp need).2.1) fun left inside some => ?_
  · simpa using complete
  · obtain ⟨id,member,least⟩ := exists_least unlooped some
    refine ⟨id,member,fun m need waits => least m waits ⟨(members id).mp (inside member),?_⟩⟩
    exact (mem_needed_iff rooted members (inside member)).mp need

theorem settle_arranged (rooted : g.Rooted) (sorted : wanted.Pairwise (· < ·))
    (members : ∀ id, id ∈ wanted ↔ g.Wanted stop targets id)
    (complete : (settle (needed g stop wanted) wanted.length wanted []).length = wanted.length) :
    g.Arranged targets stop (settle (needed g stop wanted) wanted.length wanted []) := by
  have perm := settle_perm complete
  refine ⟨perm.nodup_iff.mpr (sorted.imp fun low => ne_of_lt low),fun id => perm.mem_iff.trans (members id),?_⟩
  intro before id rest split m follows
  have member : id ∈ wanted := perm.mem_iff.mp (by rw [split]; simp)
  exact (settle_parts wanted.length wanted (fun _ _ _ equal => by simp at equal)).1 before id rest split m
    ((mem_needed_iff rooted members member).mpr follows)

-- Along a loop every node would come before itself.
theorem Arranged.unlooped {order : List Int} (arranged : g.Arranged targets stop order) : g.Unlooped targets stop := by
  have earlier {a b : Int} (wants : g.Wanted stop targets a) (follows : g.Follows stop a b) :
      order.idxOf b < order.idxOf a :=
    idxOf_lt ((arranged.members a).mpr wants) fun before rest split => arranged.after before a rest split b follows
  have descends {a b : Int} (path : TransGen (fun a b => g.Wanted stop targets a ∧ g.Follows stop a b) a b) :
      order.idxOf b < order.idxOf a := by
    induction path with
    | single step => exact earlier step.1 step.2
    | tail _ step ih => exact (earlier step.1 step.2).trans ih
  exact fun id loop => lt_irrefl _ (descends loop)

theorem settle_extends (needs : Int → List Int) (fuel : Nat) (waiting settled : List Int) :
    ∃ more, settle needs fuel waiting settled = settled.reverse ++ more := by
  induction fuel generalizing waiting settled with
  | zero => exact ⟨[],(List.append_nil _).symm⟩
  | succ fuel ih =>
    unfold settle
    split
    · exact ⟨[],(List.append_nil _).symm⟩
    · rename_i id _
      obtain ⟨more,equal⟩ := ih (waiting.erase id) (id :: settled)
      exact ⟨id :: more,by simp [equal]⟩

-- As long as another order has settled the same nodes, the node it settles next is ready, and the one
-- settled here is the least of those that are.
theorem settle_least {needs : Int → List Int} (fuel : Nat) {rest : List Int} (sorted : waiting.Pairwise (· < ·))
    (enough : waiting.length ≤ fuel) (others : rest.Perm waiting) (ordered : Ordered needs (settled.reverse ++ rest)) :
    settle needs fuel waiting settled = settled.reverse ++ rest ∨
      List.Lex (· < ·) (settle needs fuel waiting settled) (settled.reverse ++ rest) := by
  induction fuel generalizing waiting settled rest with
  | zero =>
    have none := List.length_eq_zero_iff.mp (Nat.le_zero.mp enough)
    subst none
    rw [List.perm_nil.mp others,List.append_nil]
    exact .inl rfl
  | succ fuel ih =>
    cases rest with
    | nil =>
      rw [List.nil_perm.mp others,List.append_nil]
      exact .inl rfl
    | cons next rest =>
      have waits : next ∈ waiting := others.mem_iff.mp List.mem_cons_self
      have ready : (needs next).all settled.contains = true := by
        simpa using ordered settled.reverse next rest rfl
      unfold settle
      split
      · rename_i stuck
        exact absurd ready (by simpa using List.find?_eq_none.mp stuck next waits)
      · rename_i id found
        obtain ⟨holds,before,after,split,passed⟩ := List.find?_eq_some_iff_append.mp found
        have least : id = next ∨ id < next := by
          rw [split] at waits sorted
          rcases List.mem_append.mp waits with early | late
          · have skipped : (needs next).all settled.contains = false := by simpa using passed next early
            cases ready.symm.trans skipped
          · rcases List.mem_cons.mp late with rfl | late
            · exact .inl rfl
            · exact .inr ((List.pairwise_cons.mp (List.pairwise_append.mp sorted).2.1).1 next late)
        rcases least with rfl | less
        · have left : rest.Perm (waiting.erase id) := List.Perm.cons_inv (others.trans (List.perm_cons_erase waits))
          have count := List.length_erase_of_mem waits
          have later : Ordered needs ((id :: settled).reverse ++ rest) := by simpa using ordered
          simpa using ih (sorted.erase id) (by omega) left later
        · obtain ⟨more,equal⟩ := settle_extends needs fuel (waiting.erase id) (id :: settled)
          refine .inr ?_
          rw [equal,List.reverse_cons,List.append_assoc]
          exact List.Lex.append_left _ (.rel less) _

theorem Arranged.perm {order : List Int} (arranged : g.Arranged targets stop order) (sorted : wanted.Pairwise (· < ·))
    (members : ∀ id, id ∈ wanted ↔ g.Wanted stop targets id) : order.Perm wanted :=
  (List.perm_ext_iff_of_nodup arranged.nodup (sorted.imp fun low => ne_of_lt low)).mpr fun id =>
    (arranged.members id).trans (members id).symm

theorem Arranged.ordered {order : List Int} (rooted : g.Rooted) (arranged : g.Arranged targets stop order)
    (members : ∀ id, id ∈ wanted ↔ g.Wanted stop targets id) : Ordered (needed g stop wanted) order := by
  intro before id rest split m need
  have member : id ∈ wanted := (members id).mpr ((arranged.members id).mp (by rw [split]; simp))
  exact arranged.after before id rest split m ((mem_needed_iff rooted members member).mp need)

theorem topologicalOrder_arranged (rooted : g.Rooted) {outlets : List Outlet} {order : List Int}
    (ordered : g.topologicalOrder (some outlets) stop = .ok order) : g.Arranged (some outlets) stop order := by
  have known := topologicalOrder_known ordered
  have targeted : ∀ ts, some outlets = some ts → ∀ o ∈ ts, g.Known o.node := fun _ same => Option.some.inj same ▸ known
  obtain ⟨wanted,sorted,members,equal⟩ := topologicalOrder_settles stop rooted targeted
  rw [equal] at ordered
  split at ordered
  · rename_i complete
    cases ordered
    exact settle_arranged rooted sorted members complete
  · cases ordered

-- What a plan schedules is requested, or something that is computed takes it.
theorem scheduled_feeds (rooted : g.Rooted) {p : Plan} (made : Plan.make config g refs analysis = .ok p) {id : Int}
    (scheduled : id ∈ p.schedule) : (∃ o ∈ p.outputs, o.node = id) ∨
      ∃ consumer ∈ p.schedule, consumer ∉ p.folded ∧ g.Needs consumer id := by
  obtain ⟨-,outputs,boundary,order,_,_,-,-,-,ordered,-,-,rfl⟩ := Plan.make_ok.mp made
  have arranged := topologicalOrder_arranged rooted ordered
  obtain ⟨o,target,path⟩ := (arranged.members id).mp scheduled
  rcases path.cases_tail with rfl | ⟨consumer,path,follows⟩
  · exact .inl ⟨o,target,rfl⟩
  · refine .inr ⟨consumer,(arranged.members consumer).mpr ⟨o,target,path⟩,fun folded => ?_,follows.2⟩
    exact follows.1 (by simpa using (List.mem_filter.mp folded).2)

-- Without loops among the edges into wanted nodes before the boundary, the nodes come in the least of all
-- orders in which each of them stands once and after those it takes from; with a loop there is none.
theorem topologicalOrder_least (stop : List Int) (rooted : g.Rooted)
    (known : ∀ outlets ∈ targets, ∀ o ∈ outlets, g.Known o.node) :
    (g.Unlooped targets stop → ∃ order, g.topologicalOrder targets stop = .ok order ∧ g.Arranged targets stop order ∧
      ∀ other, g.Arranged targets stop other → order = other ∨ List.Lex (· < ·) order other) ∧
    (¬ g.Unlooped targets stop → g.topologicalOrder targets stop = TensorGraph.fail .cyclicGraph) ∧
    ∀ config refs analysis p, Plan.make config g refs analysis = .ok p → ∀ id ∈ p.schedule,
      (∃ o ∈ p.outputs, o.node = id) ∨ ∃ consumer ∈ p.schedule, consumer ∉ p.folded ∧ g.Needs consumer id := by
  obtain ⟨wanted,sorted,members,equal⟩ := topologicalOrder_settles stop rooted known
  refine ⟨fun unlooped => ?_,fun looped => ?_,fun _ _ _ _ made _ => scheduled_feeds rooted made⟩
  · have complete := settle_unlooped rooted unlooped members
    rw [equal,if_pos complete]
    refine ⟨_,rfl,settle_arranged rooted sorted members complete,fun other arranged => ?_⟩
    exact settle_least wanted.length sorted (Nat.le_refl _) (arranged.perm sorted members)
      (arranged.ordered rooted members)
  · rw [equal,if_neg fun complete => looped (settle_arranged rooted sorted members complete).unlooped]

-- Two nodes that take from each other, one of them at the boundary, and two nodes behind them.
def cutLoop : Graph :=
  ⟨0,"cut",[⟨0,"a",Op.identity.operator,[⟨1,0⟩]⟩,⟨1,"b",Op.identity.operator,[⟨0,0⟩]⟩,
    ⟨2,"c",Op.addN.operator,[⟨0,0⟩,⟨3,0⟩]⟩,⟨3,"d",Op.identity.operator,[⟨1,0⟩]⟩],[],[⟨2,0⟩]⟩

theorem cutLoop_rooted : cutLoop.Rooted where
  numbered i n at_ := by
    rcases i with _ | _ | _ | _ | i <;> simp_all [cutLoop] <;> rw [← at_]
  sources n member o source := by
    unfold Known
    simp only [cutLoop,List.mem_cons,List.not_mem_nil,or_false] at member
    rcases member with rfl | rfl | rfl | rfl <;> simp at source <;> rcases source with rfl | rfl <;> exact ⟨_,rfl⟩

-- Every node is met, at the boundary or not.
theorem cutLoop_reachable (met : stop = [1] ∨ stop = []) : cutLoop.reachable [⟨2,0⟩] stop = .ok [0,1,2,3] := by
  obtain ⟨ids,walked,sorted⟩ : ∃ ids, cutLoop.walk stop (cutLoop.walkBound 1) [] [2] = .ok ids ∧
      ascending ids = [0,1,2,3] := by
    rcases met with rfl | rfl
    · exact ⟨_,rfl,by simp [ascending,List.mergeSort]; rfl⟩
    · exact ⟨_,rfl,by simp [ascending,List.mergeSort]; rfl⟩
  have ran : cutLoop.reachable [⟨2,0⟩] stop =
      cutLoop.walk stop (cutLoop.walkBound 1) [] [2] >>= fun ids => .ok (ascending ids) := rfl
  rw [ran,walked,ok_bind,sorted]

-- The boundary cuts the loop: b comes before a, and d before c, which takes from it.
theorem topologicalOrder_least_cut : cutLoop.Rooted ∧ (∀ outlets ∈ some [(⟨2,0⟩ : Outlet)], ∀ o ∈ outlets, cutLoop.Known o.node) ∧
    cutLoop.topologicalOrder (some [⟨2,0⟩]) [1] = .ok [1,0,3,2] ∧
    (∀ other, cutLoop.Arranged (some [⟨2,0⟩]) [1] other → [1,0,3,2] = other ∨ List.Lex (· < ·) [1,0,3,2] other) ∧
    ¬ cutLoop.Unlooped (some [⟨2,0⟩]) [] := by
  have known : ∀ outlets ∈ some [(⟨2,0⟩ : Outlet)], ∀ o ∈ outlets, cutLoop.Known o.node := by
    intro outlets same o target
    cases same
    obtain rfl := List.mem_singleton.mp target
    exact ⟨_,rfl⟩
  have cut := topologicalOrder_least [1] cutLoop_rooted known
  have uncut := topologicalOrder_least [] cutLoop_rooted known
  have ordered : cutLoop.topologicalOrder (some [⟨2,0⟩]) [1] = .ok [1,0,3,2] := by
    unfold topologicalOrder
    dsimp only
    rw [cutLoop_reachable (.inl rfl)]
    rfl
  have looped : cutLoop.topologicalOrder (some [⟨2,0⟩]) [] = TensorGraph.fail .cyclicGraph := by
    unfold topologicalOrder
    dsimp only
    rw [cutLoop_reachable (.inr rfl)]
    rfl
  refine ⟨cutLoop_rooted,known,ordered,?_,fun unlooped => ?_⟩
  · by_cases unlooped : cutLoop.Unlooped (some [⟨2,0⟩]) [1]
    · obtain ⟨order,found,-,least⟩ := cut.1 unlooped
      cases found.symm.trans ordered
      exact least
    · cases ordered.symm.trans (cut.2.1 unlooped)
  · obtain ⟨order,found,-⟩ := uncut.1 unlooped
    cases found.symm.trans looped

end TensorGraph.Graph
