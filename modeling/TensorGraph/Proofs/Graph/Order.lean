import Mathlib.Algebra.GroupWithZero.Nat
import Mathlib.Data.List.Find
import TensorGraph.Proofs.Graph.Construction
import TensorGraph.Proofs.Graph.Draining

namespace TensorGraph.Graph
open Outcome

variable {g : Graph} {stop : List Int}

def Known (g : Graph) (id : Int) : Prop := ∃ n, g.get? id = some n

-- What a node needs is read through unchecked numbers; known numbers are never negative.
theorem referred_known {id : Int} {n : Node} (found : g.get? id = some n) : g.referred id = .ok n := by
  obtain ⟨i,rfl,-⟩ := get?_some.mp found
  unfold referred
  rw [if_neg (by omega),found]

-- Node numbers are positions, and inputs come from nodes that exist.
structure Rooted (g : Graph) : Prop where
  numbered : g.Numbered
  sources : ∀ n ∈ g.nodes, ∀ o ∈ n.inputs, g.Known o.node

theorem Wired.rooted (wired : g.Wired) : g.Rooted where
  numbered := wired.numbered
  sources n member o source := by
    obtain ⟨p,has,-⟩ := wired.sources n member o source
    exact ⟨p,has⟩

theorem Rooted.producers_known (rooted : g.Rooted) {id : Int} {n : Node} (found : g.get? id = some n) :
    ∀ m ∈ producers n, g.Known m := by
  intro m producer
  obtain ⟨o,source,rfl⟩ := List.mem_map.mp producer
  exact rooted.sources n (get?_mem found) o source

theorem Wired.producers_known (wired : g.Wired) {id : Int} {n : Node} (found : g.get? id = some n) :
    ∀ m ∈ producers n, g.Known m := wired.rooted.producers_known found

-- Weight of the nodes that a search has not met. What a search takes on when it meets a node, it
-- takes from this count.
def unmet (weight : Node → Nat) (seen : List Int) (ns : List Node) : Nat :=
  ((ns.filter fun n => !seen.contains (n.id : Int)).map weight).sum

section Unmet

variable {weight : Node → Nat} {seen : List Int} {ns : List Node}

theorem unmet_congr {seen' : List Int} (same : ∀ n ∈ ns, (n.id : Int) ∈ seen ↔ (n.id : Int) ∈ seen') :
    unmet weight seen ns = unmet weight seen' ns := by
  unfold unmet
  congr 2
  apply List.filter_congr
  intro n member
  simp [same n member]

theorem unmet_cons_met {n : Node} (met : (n.id : Int) ∈ seen) :
    unmet weight seen (n :: ns) = unmet weight seen ns := by
  simp [unmet,met]

theorem unmet_cons_fresh {n : Node} (fresh : (n.id : Int) ∉ seen) :
    unmet weight seen (n :: ns) = weight n + unmet weight seen ns := by
  simp [unmet,fresh]

theorem unmet_le {seen' : List Int} (more : ∀ id ∈ seen, id ∈ seen') :
    unmet weight seen' ns ≤ unmet weight seen ns := by
  induction ns with
  | nil => exact Nat.le_refl _
  | cons n ns ih =>
    by_cases met : (n.id : Int) ∈ seen
    · rw [unmet_cons_met met,unmet_cons_met (more _ met)]
      exact ih
    · rw [unmet_cons_fresh met]
      by_cases later : (n.id : Int) ∈ seen'
      · rw [unmet_cons_met later]
        exact Nat.le_trans ih (Nat.le_add_left ..)
      · rw [unmet_cons_fresh later]
        exact Nat.add_le_add_left ih _

theorem unmet_visit {n : Node} (distinct : (ns.map (·.id)).Nodup) (member : n ∈ ns)
    (fresh : (n.id : Int) ∉ seen) :
    unmet weight seen ns = weight n + unmet weight (n.id :: seen) ns := by
  induction ns with
  | nil => cases member
  | cons m ns ih =>
    rw [List.map_cons,List.nodup_cons] at distinct
    rcases List.mem_cons.mp member with rfl | member
    · have others : unmet weight seen ns = unmet weight (n.id :: seen) ns := by
        refine unmet_congr fun m other => ?_
        have different : (m.id : Int) ≠ n.id := by
          intro equal
          exact distinct.1 (List.mem_map.mpr ⟨m,other,by omega⟩)
        rw [List.mem_cons,or_iff_right different]
      rw [unmet_cons_fresh fresh,unmet_cons_met List.mem_cons_self,others]
    · have different : (m.id : Int) ≠ n.id := by
        intro equal
        exact distinct.1 (List.mem_map.mpr ⟨n,member,by omega⟩)
      have rest := ih distinct.2 member
      by_cases met : (m.id : Int) ∈ seen
      · rw [unmet_cons_met met,unmet_cons_met (List.mem_cons_of_mem _ met),rest]
      · have later : (m.id : Int) ∉ (n.id : Int) :: seen := by
          rw [List.mem_cons,or_iff_right different]
          exact met
        rw [unmet_cons_fresh met,unmet_cons_fresh later,rest]
        omega

end Unmet

theorem Numbered.distinct (numbered : g.Numbered) : (g.nodes.map (·.id)).Nodup := by
  have equal : g.nodes.map (·.id) = List.range g.nodes.length := by
    apply List.ext_getElem (by simp)
    intro i h _
    simp only [List.length_map] at h
    simpa using numbered i _ (List.getElem?_eq_getElem h)
  rw [equal]
  exact List.nodup_range

theorem unmet_all : unmet (·.inputs.length) [] g.nodes = g.edgeCount := by
  unfold unmet edgeCount
  simp [List.sum]

theorem unmet_all_steps : unmet (·.inputs.length + 1) [] g.nodes = g.edgeCount + g.size := by
  unfold unmet edgeCount size
  induction g.nodes with
  | nil => rfl
  | cons n ns ih =>
    simp at ih ⊢
    omega

-- What a search takes on when it meets a node is taken from what the node weighs.
theorem Rooted.unmet_meet (rooted : g.Rooted) (weight : Node → Nat) {seen : List Int} {id : Int} {n : Node}
    (found : g.get? id = some n) (fresh : id ∉ seen) :
    unmet weight seen g.nodes = weight n + unmet weight (id :: seen) g.nodes := by
  rw [← rooted.numbered.id_eq found] at fresh ⊢
  exact unmet_visit rooted.numbered.distinct (get?_mem found) fresh

theorem Rooted.pushed_known (rooted : g.Rooted) {stack : List Int} {id : Int} {n : Node} (found : g.get? id = some n)
    (known : ∀ p ∈ stack, g.Known p) : ∀ p ∈ (producers n).reverse ++ stack, g.Known p := by
  intro p waits
  rcases List.mem_append.mp waits with new | old
  · exact rooted.producers_known found p (List.mem_reverse.mp new)
  · exact known p old

-- Everything behind a met node is met as well, or waits.
def Closed (g : Graph) (stop met waiting : List Int) : Prop :=
  ∀ id ∈ met, id ∉ stop → ∀ n, g.get? id = some n → ∀ m ∈ producers n, m ∈ met ∨ m ∈ waiting

section Closed
variable {met waiting : List Int} {id : Int}

-- A node that was met need not wait.
theorem Closed.again (closed : g.Closed stop met (id :: waiting)) (old : id ∈ met) : g.Closed stop met waiting := by
  intro p before open_ n found m producer
  rcases closed p before open_ n found m producer with done | waits
  · exact .inl done
  · rcases List.mem_cons.mp waits with rfl | waits
    · exact .inl old
    · exact .inr waits

-- When a node is met, what it needs waits in its place, unless nothing behind it is followed.
theorem Closed.meet (closed : g.Closed stop met (id :: waiting)) (new : List Int)
    (behind : id ∉ stop → ∀ n, g.get? id = some n → ∀ m ∈ producers n, m ∈ new) :
    g.Closed stop (id :: met) (new ++ waiting) := by
  intro p before open_ n found m producer
  rcases List.mem_cons.mp before with rfl | before
  · exact .inr (List.mem_append_left _ (behind open_ n found m producer))
  · rcases closed p before open_ n found m producer with done | waits
    · exact .inl (List.mem_cons_of_mem _ done)
    · rcases List.mem_cons.mp waits with rfl | waits
      · exact .inl List.mem_cons_self
      · exact .inr (List.mem_append_right _ waits)

end Closed

theorem walk_closed (stop : List Int) (rooted : g.Rooted) {fuel : Nat} {seen stack : List Int}
    (enough : stack.length + unmet (·.inputs.length) seen g.nodes ≤ fuel) (known : ∀ id ∈ stack, g.Known id)
    (before : ∀ id ∈ seen, g.Known id) (closed : g.Closed stop seen stack) :
    ∃ found, g.walk stop fuel seen stack = .ok found ∧ (∀ id ∈ seen, id ∈ found) ∧
      (∀ id ∈ stack, id ∈ found) ∧ (∀ id ∈ found, g.Known id) ∧ g.Closed stop found [] := by
  induction fuel generalizing seen stack with
  | zero =>
    cases stack with
    | nil => exact ⟨seen,rfl,fun _ met => met,nofun,before,closed⟩
    | cons id stack => simp only [List.length_cons] at enough; omega
  | succ fuel ih =>
    cases stack with
    | nil => exact ⟨seen,by simp [walk],fun _ met => met,nofun,before,closed⟩
    | cons id stack =>
      simp only [List.length_cons] at enough
      obtain ⟨here,later⟩ := List.forall_mem_cons.mp known
      unfold walk
      by_cases met : id ∈ seen
      · rw [if_pos (by simpa using met)]
        obtain ⟨result,ran,kept,reached,rest⟩ := ih (by omega) later before (closed.again met)
        exact ⟨result,ran,kept,List.forall_mem_cons.mpr ⟨kept id met,reached⟩,rest⟩
      · rw [if_neg (by simpa using met)]
        have entered : ∀ p ∈ id :: seen, g.Known p := List.forall_mem_cons.mpr ⟨here,before⟩
        by_cases boundary : id ∈ stop
        · rw [if_pos (by simpa using boundary)]
          have settled : g.Closed stop (id :: seen) stack := closed.meet [] fun open_ => absurd boundary open_
          have less : unmet (·.inputs.length) (id :: seen) g.nodes ≤ unmet (·.inputs.length) seen g.nodes :=
            unmet_le fun _ old => List.mem_cons_of_mem _ old
          obtain ⟨result,ran,kept,reached,rest⟩ := ih (by omega) later entered settled
          obtain ⟨keptHere,kept⟩ := List.forall_mem_cons.mp kept
          exact ⟨result,ran,kept,List.forall_mem_cons.mpr ⟨keptHere,reached⟩,rest⟩
        · rw [if_neg (by simpa using boundary)]
          obtain ⟨n,found⟩ := here
          rw [referred_known found]
          have count := rooted.unmet_meet (·.inputs.length) found met
          have settled : g.Closed stop (id :: seen) ((producers n).reverse ++ stack) :=
            closed.meet _ fun _ q again m producer => by
              cases found.symm.trans again
              exact List.mem_reverse.mpr producer
          obtain ⟨result,ran,kept,reached,rest⟩ :=
            ih (by simp [producers]; omega) (rooted.pushed_known found later) entered settled
          obtain ⟨keptHere,kept⟩ := List.forall_mem_cons.mp kept
          exact ⟨result,ran,kept,List.forall_mem_cons.mpr ⟨keptHere,fun p old =>
            reached p (List.mem_append_right _ old)⟩,rest⟩

theorem mem_ascending {ids : List Int} {id : Int} : id ∈ ascending ids ↔ id ∈ ids := by
  unfold ascending
  rw [List.mem_eraseDups,List.mem_mergeSort]

theorem nodup_eraseDups {ids : List Int} : ids.eraseDups.Nodup := by
  induction h : ids.length using Nat.strongRecOn generalizing ids with
  | _ count ih =>
    cases ids with
    | nil => simp
    | cons id ids =>
      rw [List.eraseDups_cons,List.nodup_cons]
      have shorter := List.length_filter_le (fun b => !b == id) ids
      refine ⟨?_,ih _ (by simp only [List.length_cons] at h; omega) rfl⟩
      simp [List.mem_eraseDups]

theorem eraseDups_sublist (ids : List Int) : ids.eraseDups.Sublist ids := by
  induction h : ids.length using Nat.strongRecOn generalizing ids with
  | _ count ih =>
    cases ids with
    | nil => simp
    | cons id ids =>
      rw [List.eraseDups_cons]
      have shorter := List.length_filter_le (fun b => !b == id) ids
      exact ((ih _ (by simp only [List.length_cons] at h; omega) _ rfl).trans List.filter_sublist).cons_cons id

theorem ascending_sorted (ids : List Int) : (ascending ids).Pairwise (· < ·) := by
  have ordered : (ids.mergeSort (· ≤ ·)).Pairwise fun a b => decide (a ≤ b) = true :=
    List.pairwise_mergeSort (fun a b c => by simp only [decide_eq_true_eq]; omega)
      (fun a b => by simp only [Bool.or_eq_true,decide_eq_true_eq]; omega) ids
  have once : (ascending ids).Pairwise (· ≠ ·) := nodup_eraseDups
  refine (ordered.sublist (eraseDups_sublist _)).imp₂ (fun a b low apart => ?_) once
  exact lt_of_le_of_ne (of_decide_eq_true low) apart

theorem ids_sorted (g : Graph) : g.ids.Pairwise (· < ·) :=
  List.pairwise_map.mpr (List.pairwise_lt_range.imp Int.ofNat_lt.mpr)

-- What is in ascending order is left as it is.
theorem ascending_of_sorted {ids : List Int} (sorted : ids.Pairwise (· < ·)) : ascending ids = ids := by
  unfold ascending
  rw [List.mergeSort_of_pairwise (sorted.imp fun below => decide_eq_true (le_of_lt below))]
  induction sorted with
  | nil => rfl
  | cons below _ ih =>
    rw [List.eraseDups_cons,List.filter_eq_self.mpr fun b later => by simpa using ne_of_gt (below b later),ih]

-- Where the walk from the targets meets the ids in ascending order, they are counted as they are met.
theorem topologicalOrder_walked {targets : List Outlet} {stop order : List Int} {needs : List (Int × List Int)}
    (wanted : List Int)
    (walked : (do
      let start ← targets.mapM fun t => do return Int.ofNat (← g.node t.node).id
      g.walk stop (g.walkBound start.length) [] start.reverse : Outcome (List Int)) = .ok wanted)
    (sorted : wanted.Pairwise (· < ·))
    (collected : (wanted.mapM fun n => if stop.contains n then .ok (n,[]) else do
      return (n,(producers (← g.referred n)).eraseDups.filter wanted.contains) : Outcome (List (Int × List Int))) = .ok needs)
    (drained : drain (fun n => (needs.lookup n).getD []) wanted.length
      (ripe (needs.map fun (n,ms) => (n,ms.length))).2 (ripe (needs.map fun (n,ms) => (n,ms.length))).1 [] = order)
    (complete : order.length = wanted.length) : g.topologicalOrder (some targets) stop = .ok order := by
  obtain ⟨start,started,walked⟩ := bind_ok.mp walked
  have reached : g.reachable targets stop = .ok wanted :=
    bind_ok.mpr ⟨start,started,bind_ok.mpr ⟨wanted,walked,congrArg Except.ok (ascending_of_sorted sorted)⟩⟩
  refine bind_ok.mpr ⟨wanted,reached,bind_ok.mpr ⟨needs,collected,?_⟩⟩
  dsimp only
  rw [drained,if_pos complete]
  rfl

theorem reachable_sorted {targets : List Outlet} {found : List Int} (reached : g.reachable targets stop = .ok found) :
    found.Pairwise (· < ·) := by
  obtain ⟨_,-,rest⟩ := bind_ok.mp reached
  obtain ⟨met,-,equal⟩ := bind_ok.mp rest
  cases equal
  exact ascending_sorted met

theorem reachable_parts (stop : List Int) (rooted : g.Rooted) {targets : List Outlet}
    (known : ∀ o ∈ targets, g.Known o.node) : ∃ found, g.reachable targets stop = .ok found ∧
      found.Nodup ∧ (∀ o ∈ targets, o.node ∈ found) ∧ (∀ id ∈ found, g.Known id) ∧
      g.Closed stop found [] := by
  have start : targets.mapM (fun t => do return Int.ofNat (← g.node t.node).id) =
      .ok (targets.map (·.node)) := by
    refine mapM_eq_map fun o target => ?_
    obtain ⟨n,found⟩ := known o target
    rw [node_ok.mpr found]
    exact congrArg Except.ok (rooted.numbered.id_eq found)
  have entries : ∀ id ∈ (targets.map (·.node)).reverse, g.Known id := by
    intro id entry
    obtain ⟨o,target,rfl⟩ := List.mem_map.mp (List.mem_reverse.mp entry)
    exact known o target
  have enough : (targets.map (·.node)).reverse.length + unmet (·.inputs.length) [] g.nodes ≤
      g.walkBound (targets.map (·.node)).length := by
    rw [unmet_all,List.length_reverse]
    unfold walkBound
    omega
  obtain ⟨found,walked,-,reached,valid,closed⟩ :=
    walk_closed stop rooted enough entries nofun (fun _ member => nomatch member)
  refine ⟨ascending found,?_,nodup_eraseDups,?_,?_,?_⟩
  · unfold reachable
    rw [start,ok_bind,walked]
    rfl
  · intro o target
    exact mem_ascending.mpr (reached _ (by simp; exact ⟨o,target,rfl⟩))
  · intro id member
    exact valid id (mem_ascending.mp member)
  · intro id member open_ n at_ m producer
    rcases closed id (mem_ascending.mp member) open_ n at_ m producer with done | waits
    · exact .inl (mem_ascending.mpr done)
    · cases waits

-- Every element of an ordered list comes after those it needs.
def Ordered (needs : Int → List Int) (order : List Int) : Prop :=
  ∀ before id after, order = before ++ id :: after → ∀ m ∈ needs id, m ∈ before

theorem Ordered.snoc {needs : Int → List Int} {order : List Int} {id : Int} (ordered : Ordered needs order)
    (ready : ∀ m ∈ needs id, m ∈ order) : Ordered needs (order ++ [id]) := by
  intro before p after equal
  rcases List.eq_nil_or_concat after with rfl | ⟨after,last,rfl⟩
  · obtain ⟨rfl,same⟩ := List.append_inj' equal rfl
    cases same
    exact ready
  · rw [List.concat_eq_append,←List.cons_append,←List.append_assoc] at equal
    exact ordered before p after (List.append_inj' equal rfl).1

theorem settle_parts (fuel : Nat) (waiting : List Int) {needs : Int → List Int} {settled : List Int}
    (ordered : Ordered needs settled.reverse) :
    Ordered needs (settle needs fuel waiting settled) ∧
      ∃ left, (settle needs fuel waiting settled ++ left).Perm (settled ++ waiting) := by
  induction fuel generalizing waiting settled with
  | zero => exact ⟨ordered,waiting,(List.reverse_perm settled).append_right waiting⟩
  | succ fuel ih =>
    unfold settle
    split
    · exact ⟨ordered,waiting,(List.reverse_perm settled).append_right waiting⟩
    · rename_i id found
      have ready : ∀ m ∈ needs id, m ∈ settled.reverse := by simpa using List.find?_some found
      have ordered' : Ordered needs (id :: settled).reverse := by
        rw [List.reverse_cons]
        exact ordered.snoc ready
      obtain ⟨done,left,perm⟩ := ih _ ordered'
      refine ⟨done,left,perm.trans ?_⟩
      have moved := List.perm_cons_erase (List.mem_of_find?_eq_some found)
      exact List.perm_middle.symm.trans (moved.symm.append_left settled)

theorem ordered_nil (needs : Int → List Int) : Ordered needs ([] : List Int).reverse :=
  fun _ _ _ equal => by simp at equal

-- Where as many nodes settle as waited, they are the same.
theorem settle_perm {needs : Int → List Int} {waiting : List Int}
    (complete : (settle needs waiting.length waiting []).length = waiting.length) :
    (settle needs waiting.length waiting []).Perm waiting := by
  obtain ⟨-,left,perm⟩ := settle_parts waiting.length waiting (ordered_nil needs)
  have none : left = [] := by
    have count := perm.length_eq
    simp only [List.length_append,List.nil_append,complete] at count
    exact List.length_eq_zero_iff.mp (by omega)
  subst none
  rwa [List.append_nil,List.nil_append] at perm

-- What an order of nodes promises: each wanted node once, and after all it needs.
structure Schedule (g : Graph) (targets : List Outlet) (stop order : List Int) : Prop where
  nodup : order.Nodup
  known : ∀ id ∈ order, g.Known id
  targets : ∀ o ∈ targets, o.node ∈ order
  after : ∀ before id rest n, order = before ++ id :: rest → id ∉ stop → g.get? id = some n →
    ∀ o ∈ n.inputs, o.node ∈ before

theorem first_split {P : Int → Prop} {line : List Int} (some : ∃ id ∈ line, P id) :
    ∃ before id after, line = before ++ id :: after ∧ P id ∧ ∀ m ∈ before, ¬ P m := by
  induction line with
  | nil => obtain ⟨_,member,-⟩ := some; cases member
  | cons head line ih =>
    by_cases here : P head
    · exact ⟨[],head,line,rfl,here,nofun⟩
    · obtain ⟨id,member,holds⟩ := some
      rcases List.mem_cons.mp member with rfl | member
      · exact absurd holds here
      · obtain ⟨before,p,after,rfl,found,earlier⟩ := ih ⟨id,member,holds⟩
        exact ⟨head :: before,p,after,rfl,found,List.forall_mem_cons.mpr ⟨here,earlier⟩⟩

-- What stands before every place of something comes first itself.
theorem idxOf_lt {order : List Int} {a b : Int} (member : a ∈ order)
    (first : ∀ before rest, order = before ++ a :: rest → b ∈ before) : order.idxOf b < order.idxOf a := by
  obtain ⟨before,id,rest,split,here,others⟩ := first_split (P := (· = a)) ⟨a,member,rfl⟩
  rw [here] at split
  have earlier := first before rest split
  have apart : a ∉ before := fun twice => others a twice rfl
  rw [split,List.idxOf_append_of_mem earlier,List.idxOf_append_of_notMem apart,List.idxOf_cons_self]
  exact List.idxOf_lt_length_of_mem earlier

-- What a node needs among the wanted ones; nothing at the boundary.
def needed (g : Graph) (stop wanted : List Int) (id : Int) : List Int :=
  if stop.contains id then [] else
    match g.get? id with
    | some n => (producers n).eraseDups.filter wanted.contains
    | none => []

theorem mem_needed {wanted : List Int} {id m : Int} : m ∈ needed g stop wanted id ↔
    id ∉ stop ∧ m ∈ wanted ∧ ∃ n, g.get? id = some n ∧ m ∈ producers n := by
  unfold needed
  by_cases boundary : id ∈ stop
  · simp [boundary]
  · cases found : g.get? id with
    | none => simp [boundary]
    | some n => simp [boundary,and_comm,List.mem_eraseDups]

theorem nodup_needed (stop wanted : List Int) (id : Int) : (needed g stop wanted id).Nodup := by
  unfold needed
  split
  · exact List.nodup_nil
  · split
    · exact nodup_eraseDups.filter _
    · exact List.nodup_nil

theorem lookup_map {f : Int → List Int} {ids : List Int} {id : Int} (member : id ∈ ids) :
    (ids.map fun p => (p,f p)).lookup id = some (f id) := by
  induction ids with
  | nil => cases member
  | cons p ids ih =>
    rw [List.map_cons,List.lookup_cons]
    by_cases equal : id = p
    · subst equal; simp
    · have other : (id == p) = false := by simpa using equal
      rw [other]
      exact ih ((List.mem_cons.mp member).resolve_left equal)

theorem needs_known {wanted : List Int} (valid : ∀ id ∈ wanted, g.Known id) :
    wanted.mapM (fun n => if stop.contains n then (.ok (n,[]) : Outcome (Int × List Int))
      else do return (n,(producers (← g.referred n)).eraseDups.filter wanted.contains)) =
      .ok (wanted.map fun id => (id,needed g stop wanted id)) := by
  refine mapM_eq_map fun id member => ?_
  obtain ⟨n,found⟩ := valid id member
  unfold needed
  split
  · rfl
  · rw [referred_known found,found]
    rfl

theorem settle_congr (fuel : Nat) {needs needs' : Int → List Int} {waiting settled : List Int}
    (agree : ∀ id ∈ waiting, needs id = needs' id) :
    settle needs fuel waiting settled = settle needs' fuel waiting settled := by
  induction fuel generalizing waiting settled with
  | zero => rfl
  | succ fuel ih =>
    have same : (waiting.find? fun n => (needs n).all settled.contains) =
        waiting.find? fun n => (needs' n).all settled.contains :=
      List.find?_congr fun n member => by rw [agree n member]
    unfold settle
    rw [same]
    split
    · rfl
    · exact ih fun id member => agree id (List.mem_of_mem_erase member)

-- Counting down the collected needs leads to what settles of the wanted nodes.
theorem drain_collected (stop : List Int) {wanted : List Int} (sorted : wanted.Pairwise (· < ·)) :
    let needs := wanted.map fun id => (id,needed g stop wanted id)
    drain (fun n => (needs.lookup n).getD []) wanted.length (ripe (needs.map fun (n,ms) => (n,ms.length))).2
      (ripe (needs.map fun (n,ms) => (n,ms.length))).1 [] = settle (needed g stop wanted) wanted.length wanted [] := by
  intro needs
  have looked : ∀ id ∈ wanted, (needs.lookup id).getD [] = needed g stop wanted id := fun id member => by
    rw [lookup_map member,Option.getD_some]
  have counted : (needs.map fun (n,ms) => (n,ms.length)) =
      wanted.map fun n => (n,((needs.lookup n).getD []).length) := by
    rw [List.map_map]
    exact List.map_congr_left fun id member => by rw [looked id member]; rfl
  have distinct : ∀ id ∈ wanted, ((needs.lookup id).getD []).Nodup := fun id member => by
    rw [looked id member]
    exact nodup_needed stop wanted id
  rw [counted,drain_all sorted distinct]
  exact settle_congr _ looked

theorem topologicalOrder_eq (stop : List Int) (rooted : g.Rooted) {targets : List Outlet}
    (known : ∀ o ∈ targets, g.Known o.node) : ∃ wanted, g.reachable targets stop = .ok wanted ∧
      g.topologicalOrder (some targets) stop =
        if (settle (needed g stop wanted) wanted.length wanted []).length = wanted.length
        then .ok (settle (needed g stop wanted) wanted.length wanted [])
        else TensorGraph.fail .cyclicGraph := by
  obtain ⟨wanted,reached,-,-,valid,-⟩ := reachable_parts stop rooted known
  refine ⟨wanted,reached,?_⟩
  unfold topologicalOrder
  dsimp only
  rw [reached,ok_bind,needs_known valid,ok_bind,drain_collected stop (reachable_sorted reached)]
  rfl

theorem topologicalOrder_known {targets : List Outlet}
    (ran : g.topologicalOrder (some targets) stop = .ok order) : ∀ o ∈ targets, g.Known o.node := by
  obtain ⟨_,reached,-⟩ := bind_ok.mp ran
  obtain ⟨start,resolved,-⟩ := bind_ok.mp reached
  intro o target
  obtain ⟨_,-,found⟩ := forall₂_left (mapM_ok.mp resolved) o target
  obtain ⟨n,found,-⟩ := bind_ok.mp found
  exact ⟨n,node_ok.mp found⟩

theorem topologicalOrder_schedule (rooted : g.Rooted) {targets : List Outlet}
    (ran : g.topologicalOrder (some targets) stop = .ok order) : g.Schedule targets stop order := by
  have known := topologicalOrder_known ran
  obtain ⟨wanted,reached,equal⟩ := topologicalOrder_eq stop rooted known
  obtain ⟨_,again,nodup,met,valid,closed⟩ := reachable_parts stop rooted known
  rw [reached] at again
  cases again
  rw [equal] at ran
  split at ran
  · rename_i complete
    cases ran
    have perm := settle_perm complete
    have ordered := (settle_parts wanted.length wanted (ordered_nil (needed g stop wanted))).1
    refine ⟨perm.nodup_iff.mpr nodup,?_,?_,?_⟩
    · exact fun id member => valid id (perm.mem_iff.mp member)
    · exact fun o target => perm.mem_iff.mpr (met o target)
    · intro before id rest n split open_ found o source
      have member : id ∈ wanted := perm.mem_iff.mp (by rw [split]; simp)
      have producer : o.node ∈ producers n := List.mem_map.mpr ⟨o,source,rfl⟩
      have inside := (closed id member open_ n found _ producer).resolve_right nofun
      exact ordered before id rest split o.node (mem_needed.mpr ⟨open_,inside,n,found,producer⟩)
  · cases ran

-- Where some of the nodes that wait can always be settled, nothing is left waiting.
theorem settle_total (fuel : Nat) (waiting settled : List Int) {needs : Int → List Int}
    (enough : waiting.length ≤ fuel) (inside : ∀ id ∈ waiting, ∀ m ∈ needs id, m ∈ settled ∨ m ∈ waiting)
    (goes : ∀ left, left ⊆ waiting → left ≠ [] → ∃ id ∈ left, ∀ m ∈ needs id, m ∉ left) :
    (settle needs fuel waiting settled).length = settled.length + waiting.length := by
  induction fuel generalizing waiting settled with
  | zero =>
    have none := List.length_eq_zero_iff.mp (Nat.le_zero.mp enough)
    subst none
    simp [settle]
  | succ fuel ih =>
    unfold settle
    split
    · rename_i stuck
      cases waiting with
      | nil => simp
      | cons head tail =>
        obtain ⟨id,waits,free⟩ := goes (head :: tail) (fun _ member => member) (List.cons_ne_nil _ _)
        have ready : (needs id).all settled.contains = true := by
          rw [List.all_eq_true]
          intro m need
          simpa using (inside id waits m need).resolve_right (free m need)
        exact absurd ready (by simpa using List.find?_eq_none.mp stuck id waits)
    · rename_i id found
      have waits := List.mem_of_find?_eq_some found
      have moved := List.perm_cons_erase waits
      have count := List.length_erase_of_mem waits
      have some_ := List.length_pos_of_mem waits
      rw [ih _ _ (by omega)]
      · simp only [List.length_cons]
        omega
      · intro p member m need
        rcases inside p (List.mem_of_mem_erase member) m need with done | waiting
        · exact .inl (List.mem_cons_of_mem _ done)
        · rcases List.mem_cons.mp (moved.mem_iff.mp waiting) with rfl | waiting
          · exact .inl List.mem_cons_self
          · exact .inr waiting
      · exact fun left part => goes left fun p member => List.mem_of_mem_erase (part member)

-- If some order of all nodes exists, nothing is left waiting: the first waiting node of the order needs
-- nothing that still waits.
theorem settle_complete (fuel : Nat) (waiting settled : List Int) {needs : Int → List Int}
    {line : List Int} (ordered : Ordered needs line) (enough : waiting.length ≤ fuel)
    (placed : ∀ id ∈ waiting, id ∈ line)
    (inside : ∀ id ∈ waiting, ∀ m ∈ needs id, m ∈ settled ∨ m ∈ waiting) :
    (settle needs fuel waiting settled).length = settled.length + waiting.length := by
  refine settle_total fuel waiting settled enough inside fun left part some => ?_
  obtain ⟨head,member⟩ := List.exists_mem_of_ne_nil left some
  obtain ⟨before,id,after,equal,waits,earlier⟩ := first_split (P := (· ∈ left))
    ⟨head,placed head (part member),member⟩
  exact ⟨id,waits,fun m need => earlier m (ordered before id after equal m need)⟩

-- Nodes that a node takes from.
def sourcesOf (g : Graph) (id : Int) : List Int := ((g.get? id).map producers).getD []

theorem mem_sourcesOf {id m : Int} : m ∈ g.sourcesOf id ↔ ∃ n, g.get? id = some n ∧ m ∈ producers n := by
  unfold sourcesOf
  cases g.get? id <;> simp

theorem settle_wanted (stop : List Int) {line wanted : List Int} (ordered : Ordered g.sourcesOf line)
    (all : ∀ id, g.Known id → id ∈ line) (valid : ∀ id ∈ wanted, g.Known id) :
    (settle (needed g stop wanted) wanted.length wanted []).length = wanted.length := by
  have inOrder : Ordered (needed g stop wanted) line := by
    intro before id after split m need
    obtain ⟨-,-,n,found,producer⟩ := mem_needed.mp need
    exact ordered before id after split m (mem_sourcesOf.mpr ⟨n,found,producer⟩)
  have inside : ∀ id ∈ wanted, ∀ m ∈ needed g stop wanted id, m ∈ [] ∨ m ∈ wanted :=
    fun id _ m need => .inr (mem_needed.mp need).2.1
  have complete := settle_complete wanted.length wanted [] inOrder (Nat.le_refl _)
    (fun id member => all id (valid id member)) inside
  simpa using complete

-- A graph whose nodes can be put in one order can be ordered for any targets.
theorem topologicalOrder_ok (stop : List Int) (rooted : g.Rooted) {line : List Int} {targets : List Outlet}
    (ordered : Ordered g.sourcesOf line) (all : ∀ id, g.Known id → id ∈ line)
    (known : ∀ o ∈ targets, g.Known o.node) :
    ∃ order, g.topologicalOrder (some targets) stop = .ok order := by
  obtain ⟨wanted,reached,equal⟩ := topologicalOrder_eq stop rooted known
  obtain ⟨_,again,-,-,valid,-⟩ := reachable_parts stop rooted known
  rw [reached] at again
  cases again
  rw [equal,if_pos (settle_wanted stop ordered all valid)]
  exact ⟨_,rfl⟩

theorem mem_ids {id : Int} : id ∈ g.ids ↔ g.Known id := by
  simp only [ids,List.mem_map,List.mem_range,Known,get?_some]
  constructor
  · rintro ⟨i,within,rfl⟩
    exact ⟨_,i,rfl,List.getElem?_eq_getElem within⟩
  · rintro ⟨n,i,rfl,at_⟩
    exact ⟨i,(List.getElem?_eq_some_iff.mp at_).1,rfl⟩

theorem topologicalOrder_all (stop : List Int) {line : List Int} (ordered : Ordered g.sourcesOf line)
    (all : ∀ id, g.Known id → id ∈ line) : ∃ order, g.topologicalOrder none stop = .ok order := by
  have valid : ∀ id ∈ g.ids, g.Known id := fun _ => mem_ids.mp
  unfold topologicalOrder
  dsimp only
  rw [ok_bind,needs_known valid,ok_bind,drain_collected stop g.ids_sorted,
    if_pos (settle_wanted stop ordered all valid)]
  exact ⟨_,rfl⟩

-- A target that does not exist is what is reported.
theorem topologicalOrder_unknown (stop : List Int) {targets : List Outlet}
    (unknown : ¬ ∀ o ∈ targets, g.Known o.node) : ∃ o ∈ targets, g.get? o.node = none ∧
      g.topologicalOrder (some targets) stop = TensorGraph.fail (.nodeMissing o.node) := by
  unfold topologicalOrder reachable
  cases resolved : targets.mapM fun t => do return Int.ofNat (← g.node t.node).id with
  | ok start =>
    refine absurd (fun o target => ?_) unknown
    obtain ⟨_,-,found⟩ := forall₂_left (mapM_ok.mp resolved) o target
    obtain ⟨n,found,-⟩ := bind_ok.mp found
    exact ⟨n,node_ok.mp found⟩
  | error e =>
    obtain ⟨o,target,failed⟩ := mapM_error resolved
    refine ⟨o,target,?_⟩
    unfold node at failed
    cases missing : g.get? o.node with
    | none =>
      rw [missing] at failed
      cases failed
      refine ⟨rfl,?_⟩
      dsimp only
      rw [resolved]
      rfl
    | some n =>
      rw [missing] at failed
      cases failed

end TensorGraph.Graph
