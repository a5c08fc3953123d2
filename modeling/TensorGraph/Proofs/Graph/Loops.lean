import Mathlib.Logic.Relation
import TensorGraph.Proofs.Graph.Acyclic

namespace TensorGraph.Graph
open Outcome
open Relation (TransGen ReflTransGen)

variable {g g' : Graph}

-- One node takes an output of the other.
def Needs (g : Graph) (a b : Int) : Prop := b ∈ g.sourcesOf a

-- No node needs itself, however far one looks.
def Acyclic (g : Graph) : Prop := ∀ id, ¬ TransGen g.Needs id id

theorem needs_iff {a b : Int} : g.Needs a b ↔ ∃ n, g.get? a = some n ∧ b ∈ producers n := mem_sourcesOf

theorem Rooted.needs_known (rooted : g.Rooted) {a b : Int} (needs : g.Needs a b) : g.Known b := by
  obtain ⟨n,found,producer⟩ := needs_iff.mp needs
  exact rooted.producers_known found b producer

theorem Acyclic.of_nodes (acyclic : g.Acyclic) (nodes : g'.nodes = g.nodes) : g'.Acyclic := by
  have same : g'.Needs = g.Needs := by
    unfold Needs sourcesOf
    simp only [get?_nodes nodes]
  unfold Acyclic
  rw [same]
  exact acyclic

-- The search for a node goes on like the walk that looks for none, as long as it does not find it.
theorem walk_of_reachesFrom {target : Int} {fuel : Nat} {seen stack : List Int} (fresh : target ∉ seen)
    (ran : g.reachesFrom target fuel seen stack = .ok false) :
    ∃ found, g.walk [] fuel seen stack = .ok found ∧ target ∉ found := by
  induction fuel generalizing seen stack with
  | zero => cases stack <;> exact ⟨seen,rfl,fresh⟩
  | succ fuel ih =>
    cases stack with
    | nil => exact ⟨seen,rfl,fresh⟩
    | cons id stack =>
      unfold reachesFrom at ran
      unfold walk
      split at ran
      · cases ran
      · rename_i other
        split at ran
        · rename_i met
          rw [if_pos met]
          exact ih fresh ran
        · rename_i unmet
          rw [if_neg unmet,if_neg (by simp)]
          split at ran
          · cases ran
          · exact ih (by simpa [fresh] using Ne.symm other) ran

-- What is met is closed, so a node that is not met is not needed.
theorem reaches_false (wired : g.Wired) {start target : Int} (known : g.Known start)
    (ran : g.reaches start target = .ok false) : ¬ ReflTransGen g.Needs start target := by
  obtain ⟨met,walked,missing⟩ := walk_of_reachesFrom List.not_mem_nil ran
  have enough : [start].length + unmet (·.inputs.length) [] g.nodes ≤ g.walkBound 1 := by
    rw [unmet_all,List.length_singleton]
    unfold walkBound
    omega
  obtain ⟨met',again,-,reached,-,closed⟩ := walk_closed [] wired.rooted enough (by simpa using known) nofun
    (fun _ member => nomatch member)
  cases walked.symm.trans again
  have inside {id : Int} (path : ReflTransGen g.Needs start id) : id ∈ met := by
    induction path with
    | refl => exact reached start List.mem_cons_self
    | tail _ step ih =>
      obtain ⟨n,found,producer⟩ := needs_iff.mp step
      exact (closed _ ih List.not_mem_nil n found _ producer).resolve_right nofun
  exact fun path => missing (inside path)

theorem empty_acyclic (serial : Nat) (name : String) : (empty serial name).Acyclic := by
  intro id loop
  obtain ⟨b,step,-⟩ := TransGen.head'_iff.mp loop
  obtain ⟨n,found,-⟩ := needs_iff.mp step
  cases get?_mem found

-- A new node needs nodes that were there, and no other node needs it.
theorem addNode_acyclic (wired : g.Wired) (acyclic : g.Acyclic)
    (added : g.addNode op sources label = .ok (g',number)) : g'.Acyclic := by
  obtain ⟨checked,-,name,-,equal⟩ := addNode_parts added
  have nodes : g'.nodes = g.nodes ++ [⟨g.size,name,op,sources⟩] := by rw [equal]
  have old {b : Int} (known : g.Known b) : b ≠ g.size := by
    rintro rfl
    obtain ⟨n,found⟩ := known
    rw [get?_natCast,size,List.getElem?_eq_none (Nat.le_refl _)] at found
    cases found
  have step {a b : Int} (needs : g'.Needs a b) : g.Known b ∧ (a = g.size ∨ g.Needs a b) := by
    obtain ⟨n,found,producer⟩ := needs_iff.mp needs
    obtain ⟨i,rfl,at_⟩ := get?_some.mp found
    rw [nodes] at at_
    rcases Nat.lt_trichotomy i g.nodes.length with before | rfl | beyond
    · rw [List.getElem?_append_left before] at at_
      have here : g.Needs i b := needs_iff.mpr ⟨n,get?_some.mpr ⟨i,rfl,at_⟩,producer⟩
      exact ⟨wired.rooted.needs_known here,.inr here⟩
    · rw [List.getElem?_concat_length] at at_
      cases at_
      obtain ⟨o,source,rfl⟩ := List.mem_map.mp producer
      obtain ⟨p,has,-⟩ := checked o source
      exact ⟨⟨p,has⟩,.inl rfl⟩
    · rw [List.getElem?_eq_none (by simp; omega)] at at_
      cases at_
  have path {a b : Int} (needs : TransGen g'.Needs a b) (start : a ≠ g.size) :
      TransGen g.Needs a b ∧ b ≠ g.size := by
    induction needs with
    | single first => exact ⟨.single ((step first).2.resolve_left start),old (step first).1⟩
    | tail _ last ih => exact ⟨ih.1.tail ((step last).2.resolve_left ih.2),old (step last).1⟩
  intro id loop
  obtain ⟨_,-,last⟩ := TransGen.tail'_iff.mp loop
  exact acyclic id (path loop (old (step last).1)).1

-- A path along one more edge either does without it, or comes to its start and goes on from its end.
theorem transGen_insert {r r' : α → α → Prop} {s t : α} (step : ∀ a b, r' a b → r a b ∨ a = t ∧ b = s)
    (path : TransGen r' a b) : TransGen r a b ∨ ReflTransGen r a t ∧ ReflTransGen r s b := by
  induction path with
  | single first =>
    rcases step _ _ first with old | ⟨rfl,rfl⟩
    · exact .inl (.single old)
    · exact .inr ⟨.refl,.refl⟩
  | tail _ last ih =>
    rcases step _ _ last with old | ⟨rfl,rfl⟩
    · exact ih.imp (·.tail old) fun ⟨there,back⟩ => ⟨there,back.tail old⟩
    · exact .inr ⟨ih.elim TransGen.to_reflTransGen (·.1),.refl⟩

-- An edge is added only where its source does not need its target already.
theorem addEdge_acyclic (wired : g.Wired) (acyclic : g.Acyclic)
    (added : g.addEdge source target = .ok g') : g'.Acyclic := by
  obtain ⟨⟨p,has,-⟩,t,found,-,searched,rfl⟩ := addEdge_parts added
  have apart := reaches_false wired ⟨p,has⟩ searched
  have step (a b : Int) (needs : (g.setInput source t.id target.position.toNat).Needs a b) :
      g.Needs a b ∨ a = target.node ∧ b = source.node := by
    obtain ⟨m,after,producer⟩ := needs_iff.mp needs
    obtain ⟨i,rfl,at_⟩ := get?_some.mp after
    obtain ⟨n,before,-,edges⟩ := setInput_node at_
    obtain ⟨o,edge,rfl⟩ := List.mem_map.mp producer
    rcases edges o edge with old | ⟨rfl,here⟩
    · exact .inl (needs_iff.mpr ⟨n,get?_some.mpr ⟨i,rfl,before⟩,List.mem_map.mpr ⟨o,old,rfl⟩⟩)
    · refine .inr ⟨?_,rfl⟩
      rw [← wired.numbered.id_eq found,← here,wired.numbered i n before]
  intro id loop
  rcases transGen_insert step loop with old | ⟨there,back⟩
  · exact acyclic id old
  · exact apart (back.trans there)

theorem built_acyclic (built : Built g) : g.Acyclic := by
  induction built with
  | empty serial name => exact empty_acyclic serial name
  | addNode built added acyclic => exact addNode_acyclic (built_wired built) acyclic added
  | addEdge built added acyclic => exact addEdge_acyclic (built_wired built) acyclic added
  | designateInput _ designated acyclic =>
    obtain ⟨-,-,-,nodes,-⟩ := designateInput_parts designated
    exact acyclic.of_nodes nodes
  | designateOutput _ designated acyclic => exact acyclic.of_nodes (designateOutput_parts designated).1

-- Each node on the path of a search needs those entered after it, and takes from all it still follows.
def Descent (g : Graph) : List (Node × List Int) → Prop
  | [] => True
  | (n,rest) :: path => g.get? n.id = some n ∧ (∀ m ∈ rest, m ∈ producers n) ∧
      (∀ frame ∈ path, TransGen g.Needs frame.1.id n.id) ∧ Descent g path

-- Without loops no input leads back into the path.
theorem depthFirst_total (rooted : g.Rooted) (acyclic : g.Acyclic) {fuel : Nat} {done : List Int}
    {path : List (Node × List Int)} (descent : Descent g path) :
    ∃ found, g.depthFirst fuel done path = .ok found := by
  induction fuel generalizing done path with
  | zero => cases path <;> exact ⟨done,rfl⟩
  | succ fuel ih =>
    match path, descent with
    | [], _ => exact ⟨done,rfl⟩
    | (n,[]) :: path, ⟨_,_,_,rest⟩ => exact ih rest
    | (n,m :: ms) :: path, ⟨here,follows,above,rest⟩ =>
      obtain ⟨producer,later⟩ := List.forall_mem_cons.mp follows
      have needs : g.Needs n.id m := needs_iff.mpr ⟨n,here,producer⟩
      unfold depthFirst
      split
      · rename_i entered
        simp only [Bool.or_eq_true,decide_eq_true_eq,List.any_eq_true] at entered
        obtain rfl | ⟨frame,entered,rfl⟩ := entered
        · exact absurd (.single needs) (acyclic _)
        · exact absurd ((above frame entered).tail needs) (acyclic _)
      split
      · exact ih ⟨here,later,above,rest⟩
      · obtain ⟨p,found⟩ := rooted.needs_known needs
        rw [referred_known found]
        have number := rooted.numbered.id_eq found
        refine ih ⟨number ▸ found,fun _ producer => producer,?_,here,later,above,rest⟩
        rw [number]
        refine List.forall_mem_cons.mpr ⟨.single needs,?_⟩
        exact fun frame entered => (above frame entered).tail needs

theorem checkAcyclic_ok (rooted : g.Rooted) (acyclic : g.Acyclic) : g.checkAcyclic = .ok () := by
  unfold checkAcyclic
  have each (done : List Int) (n : Node) (member : n ∈ g.nodes) :
      ∃ found, (if done.contains (Int.ofNat n.id) then .ok done
        else g.depthFirst (g.edgeCount + g.size) done [(n,producers n)]) = .ok found := by
    split
    · exact ⟨done,rfl⟩
    · exact depthFirst_total rooted acyclic
        ⟨rooted.numbered.get?_id member,fun _ producer => producer,
          fun _ entered => absurd entered List.not_mem_nil,trivial⟩
  obtain ⟨found,ran⟩ := foldlM_total each []
  rw [ran]
  rfl

end TensorGraph.Graph
