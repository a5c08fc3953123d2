import TensorGraph.Proofs.Graph.Order

namespace TensorGraph.Graph
open Outcome

variable {g : Graph}

-- A path of entered nodes: what each of them takes from is finished, still to follow, or entered
-- right after it.
def Trail (g : Graph) (done : List Int) : Option Int → List (Node × List Int) → Prop
  | _, [] => True
  | child, (n,rest) :: path => g.get? n.id = some n ∧ (∀ m ∈ rest, g.Known m) ∧
      (∀ m ∈ producers n, m ∈ done ∨ m ∈ rest ∨ child = some m) ∧ Trail g done (some n.id) path

theorem Trail.mono {done done' : List Int} {child : Option Int} {path : List (Node × List Int)}
    (trail : Trail g done child path) (more : ∀ m ∈ done, m ∈ done') : Trail g done' child path := by
  induction path generalizing child with
  | nil => trivial
  | cons frame path ih =>
    obtain ⟨found,known,covered,rest⟩ := trail
    refine ⟨found,known,?_,ih rest⟩
    intro m producer
    rcases covered m producer with finished | later
    · exact .inl (more m finished)
    · exact .inr later

-- Once the node entered last is finished, the one before it no longer waits for it.
theorem Trail.finish {done : List Int} {id : Int} {path : List (Node × List Int)}
    (trail : Trail g done (some id) path) : Trail g (id :: done) none path := by
  cases path with
  | nil => trivial
  | cons frame path =>
    obtain ⟨found,known,covered,rest⟩ := trail
    refine ⟨found,known,?_,rest.mono fun m finished => List.mem_cons_of_mem _ finished⟩
    intro m producer
    rcases covered m producer with finished | later | child
    · exact .inl (List.mem_cons_of_mem _ finished)
    · exact .inr (.inl later)
    · cases child
      exact .inl List.mem_cons_self

-- An input that is finished, or entered next, is not followed any more.
theorem Trail.advance {done : List Int} {child : Option Int} {n : Node} {m : Int} {rest : List Int}
    {path : List (Node × List Int)} (trail : Trail g done none ((n,m :: rest) :: path))
    (passed : m ∈ done ∨ child = some m) : Trail g done child ((n,rest) :: path) := by
  obtain ⟨here,known,covered,above⟩ := trail
  refine ⟨here,(List.forall_mem_cons.mp known).2,?_,above⟩
  intro q producer
  rcases covered q producer with finished | later | none
  · exact .inl finished
  · rcases List.mem_cons.mp later with rfl | later
    · exact passed.imp_right .inr
    · exact .inr (.inl later)
  · cases none

theorem Trail.enter (rooted : g.Rooted) {done : List Int} {n p : Node} {m : Int} {rest : List Int}
    {path : List (Node × List Int)} (trail : Trail g done none ((n,m :: rest) :: path)) (found : g.get? m = some p) :
    Trail g done none ((p,producers p) :: (n,rest) :: path) := by
  have number := rooted.numbered.id_eq found
  exact ⟨number ▸ found,rooted.producers_known found,fun q producer => .inr (.inl producer),
    trail.advance (.inr (congrArg some number))⟩

-- A node with no input left to follow comes after all that it takes from.
theorem Trail.leave {done : List Int} {n : Node} {path : List (Node × List Int)}
    (trail : Trail g done none ((n,[]) :: path)) (finished : Ordered g.sourcesOf done.reverse) :
    Ordered g.sourcesOf (Int.ofNat n.id :: done).reverse := by
  obtain ⟨here,-,covered,-⟩ := trail
  rw [List.reverse_cons]
  refine finished.snoc fun m source => ?_
  obtain ⟨p,found,producer⟩ := mem_sourcesOf.mp source
  cases here.symm.trans found
  rcases covered m producer with before | none | child
  · exact List.mem_reverse.mpr before
  · cases none
  · cases child

def entered (path : List (Node × List Int)) : List Int := path.map fun frame => (frame.1.id : Int)

-- Steps still to take: each input to follow along the path, leaving each of its nodes, and the same for
-- each node not yet entered.
def searchCost (g : Graph) (done : List Int) (path : List (Node × List Int)) : Nat :=
  (path.map fun frame => frame.2.length + 1).sum + unmet (·.inputs.length + 1) (entered path ++ done) g.nodes

theorem searchCost_leave {done : List Int} {n : Node} {path : List (Node × List Int)} :
    g.searchCost done ((n,[]) :: path) = g.searchCost (Int.ofNat n.id :: done) path + 1 := by
  have same : unmet (·.inputs.length + 1) (entered path ++ Int.ofNat n.id :: done) g.nodes =
      unmet (·.inputs.length + 1) (entered ((n,[]) :: path) ++ done) g.nodes :=
    unmet_congr fun m _ => by simp [entered,or_left_comm]
  unfold searchCost
  rw [same,List.map_cons,List.sum_cons,List.length_nil]
  omega

theorem searchCost_advance {done : List Int} {n : Node} {m : Int} {rest : List Int} {path : List (Node × List Int)} :
    g.searchCost done ((n,m :: rest) :: path) = g.searchCost done ((n,rest) :: path) + 1 := by
  simp only [searchCost,entered,List.map_cons,List.sum_cons,List.length_cons]
  omega

-- Entering a node moves what is still to be done there from the nodes not met to the path.
theorem searchCost_enter (rooted : g.Rooted) {done : List Int} {p : Node} {m : Int} {path : List (Node × List Int)}
    (found : g.get? m = some p) (fresh : m ∉ entered path ++ done) :
    g.searchCost done ((p,producers p) :: path) = g.searchCost done path := by
  have count := rooted.unmet_meet (·.inputs.length + 1) found fresh
  rw [← rooted.numbered.id_eq found] at count
  simp only [searchCost,entered,producers,List.map_cons,List.sum_cons,List.length_map,List.cons_append] at count ⊢
  omega

theorem depthFirst_finished (rooted : g.Rooted) {fuel : Nat} {done found : List Int} {path : List (Node × List Int)}
    (enough : g.searchCost done path ≤ fuel) (finished : Ordered g.sourcesOf done.reverse)
    (trail : Trail g done none path) (ran : g.depthFirst fuel done path = .ok found) :
    Ordered g.sourcesOf found.reverse ∧ (∀ id ∈ done, id ∈ found) ∧ ∀ id ∈ entered path, id ∈ found := by
  induction fuel generalizing done path with
  | zero =>
    cases path with
    | nil => cases ran; exact ⟨finished,fun _ member => member,nofun⟩
    | cons frame path => simp only [searchCost,List.map_cons,List.sum_cons] at enough; omega
  | succ fuel ih =>
    match path with
    | [] =>
      simp only [depthFirst] at ran
      cases ran
      exact ⟨finished,fun _ member => member,nofun⟩
    | (n,[]) :: path =>
      simp only [depthFirst] at ran
      rw [searchCost_leave] at enough
      obtain ⟨ordered,kept,reached⟩ := ih (by omega) (trail.leave finished) trail.2.2.2.finish ran
      obtain ⟨keptHere,kept⟩ := List.forall_mem_cons.mp kept
      exact ⟨ordered,kept,List.forall_mem_cons.mpr ⟨keptHere,reached⟩⟩
    | (n,m :: rest) :: path =>
      rw [searchCost_advance] at enough
      simp only [depthFirst] at ran
      split at ran
      · cases ran
      rename_i open_
      split at ran
      · rename_i before
        obtain ⟨ordered,kept,reached⟩ := ih (by omega) finished (trail.advance (.inl (by simpa using before))) ran
        exact ⟨ordered,kept,reached⟩
      · rename_i fresh
        obtain ⟨p,found⟩ := (List.forall_mem_cons.mp trail.2.1).1
        rw [referred_known found] at ran
        have outside : m ∉ entered ((n,rest) :: path) ++ done := by
          simp only [Bool.or_eq_true,decide_eq_true_eq,List.any_eq_true,not_or,not_exists,not_and] at open_
          simp only [entered,List.map_cons,List.cons_append,List.mem_cons,List.mem_append,List.mem_map,not_or,
            not_exists,not_and]
          exact ⟨open_.1,fun frame member equal => open_.2 frame member equal.symm,by simpa using fresh⟩
        have cost := searchCost_enter rooted found outside
        obtain ⟨ordered,kept,reached⟩ := ih (by omega) finished (trail.enter rooted found) ran
        exact ⟨ordered,kept,fun id member => reached id (List.mem_cons_of_mem _ member)⟩

theorem searches_finished (rooted : g.Rooted) {ns : List Node} (nodes : ∀ n ∈ ns, n ∈ g.nodes)
    {done found : List Int} (finished : Ordered g.sourcesOf done.reverse)
    (ran : ns.foldlM (fun done n => if done.contains (Int.ofNat n.id) then .ok done
      else g.depthFirst (g.edgeCount + g.size) done [(n,producers n)]) done = .ok found) :
    Ordered g.sourcesOf found.reverse ∧ (∀ id ∈ done, id ∈ found) ∧ ∀ n ∈ ns, (n.id : Int) ∈ found := by
  induction ns generalizing done with
  | nil =>
    cases ran
    exact ⟨finished,fun _ member => member,fun _ member => absurd member List.not_mem_nil⟩
  | cons n ns ih =>
    obtain ⟨node,others⟩ := List.forall_mem_cons.mp nodes
    rw [List.foldlM_cons] at ran
    obtain ⟨next,step,ran⟩ := bind_ok.mp ran
    split at step
    · rename_i before
      cases step
      obtain ⟨ordered,kept,reached⟩ := ih others finished ran
      exact ⟨ordered,kept,List.forall_mem_cons.mpr ⟨kept _ (by simpa using before),reached⟩⟩
    · rename_i fresh
      have found := rooted.numbered.get?_id node
      have trail : Trail g done none [(n,producers n)] :=
        ⟨found,rooted.producers_known found,fun m producer => .inr (.inl producer),trivial⟩
      have outside : (n.id : Int) ∉ entered [] ++ done := by simpa [entered] using fresh
      have cost := searchCost_enter rooted found outside
      have start : g.searchCost done [] = unmet (·.inputs.length + 1) done g.nodes := by simp [searchCost,entered]
      have less : unmet (·.inputs.length + 1) done g.nodes ≤ g.edgeCount + g.size := by
        rw [←unmet_all_steps]
        exact unmet_le nofun
      obtain ⟨between,keptHere,here⟩ := depthFirst_finished rooted (by omega) finished trail step
      obtain ⟨ordered,kept,reached⟩ := ih others between ran
      refine ⟨ordered,fun id member => kept id (keptHere id member),?_⟩
      exact List.forall_mem_cons.mpr ⟨kept _ (here _ List.mem_cons_self),reached⟩

-- Nodes of a graph without loops can be put in one order.
theorem checkAcyclic_order (rooted : g.Rooted) (checked : g.checkAcyclic = .ok ()) :
    ∃ line, Ordered g.sourcesOf line ∧ ∀ id, g.Known id → id ∈ line := by
  unfold checkAcyclic at checked
  obtain ⟨done,ran,-⟩ := bind_ok.mp checked
  obtain ⟨ordered,-,reached⟩ := searches_finished rooted (fun _ node => node)
    (fun _ _ _ equal => by simp at equal) ran
  refine ⟨done.reverse,ordered,?_⟩
  rintro id ⟨n,found⟩
  rw [←rooted.numbered.id_eq found]
  exact List.mem_reverse.mpr (reached n (get?_mem found))

-- A valid graph numbered by position has sound wiring and an order.
theorem validate_parts (numbered : g.Numbered) (valid : g.validate = .ok ()) :
    g.Wired ∧ g.checkAcyclic = .ok () := by
  unfold validate at valid
  obtain ⟨⟨⟩,nodes,valid⟩ := bind_ok.mp valid
  obtain ⟨⟨⟩,-,valid⟩ := bind_ok.mp valid
  obtain ⟨⟨⟩,-,acyclic⟩ := bind_ok.mp valid
  refine ⟨⟨numbered,?_⟩,acyclic⟩
  intro n member
  have checked := forM_ok.mp nodes n member
  unfold checkNode at checked
  obtain ⟨⟨⟩,checked,-⟩ := bind_ok.mp checked
  exact checkOutlets_ok (fun _ _ => checkOutlet_ok.mp) checked

end TensorGraph.Graph
