import Mathlib.Data.List.Nodup
import Mathlib.Order.MinMax
import TensorGraph.Graph.Search

namespace TensorGraph.Graph

-- The order in which nodes become ready, told without counts: of the nodes that wait the first one
-- comes next that needs nothing but what has settled.
def settle (needs : Int → List Int) : Nat → List Int → List Int → List Int
  | 0, _, settled => settled.reverse
  | fuel + 1, waiting, settled =>
    match waiting.find? fun n => (needs n).all settled.contains with
    | none => settled.reverse
    | some n => settle needs fuel (waiting.erase n) (n :: settled)

-- What a node still needs.
def unsettled (needs : Int → List Int) (settled : List Int) (n : Int) : List Int :=
  (needs n).filter fun m => !settled.contains m

-- The counts are right: the nodes are those that are ready, which need nothing any more, and those
-- that wait, each of which needs as many as are counted for it.
structure Counts (needs : Int → List Int) (nodes settled : List Int) (waiting : List (Int × Nat))
    (ready : List Int) : Prop where
  nodes : (ready ++ waiting.map (·.1)).Perm nodes
  waiting : ∀ e ∈ waiting, e.2 = (unsettled needs settled e.1).length ∧ e.2 ≠ 0
  ready : ∀ n ∈ ready, unsettled needs settled n = []

variable {needs : Int → List Int} {nodes settled ready : List Int} {waiting : List (Int × Nat)}

theorem unsettled_eq_nil {n : Int} : unsettled needs settled n = [] ↔ (needs n).all settled.contains = true := by
  simp [unsettled,List.filter_eq_nil_iff]

-- What settles is needed no more.
theorem length_unsettled_cons {n m : Int} (distinct : (needs m).Nodup) (fresh : n ∉ settled) :
    (unsettled needs (n :: settled) m).length =
      if (needs m).contains n then (unsettled needs settled m).length - 1 else (unsettled needs settled m).length := by
  have less : unsettled needs (n :: settled) m = (unsettled needs settled m).erase n := by
    unfold unsettled
    rw [(distinct.filter _).erase_eq_filter,List.filter_filter]
    refine List.filter_congr fun p _ => ?_
    by_cases same : p = n <;> simp [same]
  have needed : n ∈ unsettled needs settled m ↔ (needs m).contains n = true := by
    simp [unsettled,fresh]
  rw [less,List.length_erase]
  simp only [needed]

theorem counts_ripe {entries : List (Int × Nat)} (split : (ready ++ entries.map (·.1)).Perm nodes)
    (right : ∀ e ∈ entries, e.2 = (unsettled needs settled e.1).length)
    (done : ∀ n ∈ ready, unsettled needs settled n = []) :
    Counts needs nodes settled (ripe entries).2 ((ripe entries).1 ++ ready) where
  nodes := by
    have parts := (List.filter_append_perm (fun e : Int × Nat => e.2 == 0) entries).map (·.1)
    rw [List.map_append] at parts
    refine (?_ : List.Perm _ _).trans split
    rw [List.append_assoc]
    refine (List.perm_append_comm_assoc _ _ _).trans (List.Perm.append_left ready ?_)
    exact parts
  waiting e member := by
    obtain ⟨entry,some⟩ := List.mem_filter.mp member
    exact ⟨right e entry,by simpa using some⟩
  ready n member := by
    rcases List.mem_append.mp member with freed | before
    · obtain ⟨e,entry,rfl⟩ := List.mem_map.mp freed
      obtain ⟨entry,none⟩ := List.mem_filter.mp entry
      rw [← List.length_eq_zero_iff,← right e entry]
      simpa using none
    · exact done n before

-- The least ready node is the first that needs nothing.
theorem Counts.next (counts : Counts needs nodes settled waiting ready) (sorted : nodes.Pairwise (· < ·)) :
    (nodes.find? fun n => (needs n).all settled.contains) = ready.min? := by
  have found {n : Int} (member : n ∈ nodes) (free : (needs n).all settled.contains = true) : n ∈ ready := by
    rcases List.mem_append.mp (counts.nodes.mem_iff.mpr member) with now | later
    · exact now
    · obtain ⟨e,waits,rfl⟩ := List.mem_map.mp later
      obtain ⟨count,some⟩ := counts.waiting e waits
      rw [unsettled_eq_nil.mpr free] at count
      exact absurd count some
  cases least : ready.min? with
  | none =>
    rw [List.min?_eq_none_iff] at least
    refine List.find?_eq_none.mpr fun n member free => ?_
    have now := found member free
    rw [least] at now
    cases now
  | some n =>
    obtain ⟨now,low⟩ := List.min?_eq_some_iff.mp least
    have member : n ∈ nodes := counts.nodes.mem_iff.mp (List.mem_append_left _ now)
    have free := unsettled_eq_nil.mp (counts.ready n now)
    cases first : nodes.find? fun n => (needs n).all settled.contains with
    | none => exact absurd free (List.find?_eq_none.mp first n member)
    | some m =>
      obtain ⟨free',before,after,split,passed⟩ := List.find?_eq_some_iff_append.mp first
      have above : m ≤ n := by
        rw [split] at member sorted
        rcases List.mem_append.mp member with early | late
        · have skipped : (needs n).all settled.contains = false := by simpa using passed n early
          cases free.symm.trans skipped
        · rcases List.mem_cons.mp late with rfl | late
          · exact le_refl _
          · exact le_of_lt ((List.pairwise_cons.mp (List.pairwise_append.mp sorted).2.1).1 n late)
      have below : n ≤ m := low m (found (by rw [split]; simp) free')
      rw [le_antisymm above below]

-- Counting what settles keeps the counts right.
theorem Counts.step (counts : Counts needs nodes settled waiting ready) (distinct : ∀ n ∈ nodes, (needs n).Nodup)
    {n : Int} (now : n ∈ ready) (fresh : n ∉ settled) :
    let entries := waiting.map fun (m,count) => (m,if (needs m).contains n then count - 1 else count)
    Counts needs (nodes.erase n) (n :: settled) (ripe entries).2 ((ripe entries).1 ++ ready.erase n) := by
  intro entries
  refine counts_ripe ?_ ?_ ?_
  · have names : entries.map (·.1) = waiting.map (·.1) := by
      rw [List.map_map]
      rfl
    rw [names,← List.erase_append_left _ now]
    exact counts.nodes.erase n
  · intro e member
    obtain ⟨e,waits,rfl⟩ := List.mem_map.mp member
    have known : e.1 ∈ nodes :=
      counts.nodes.mem_iff.mp (List.mem_append_right _ (List.mem_map.mpr ⟨e,waits,rfl⟩))
    dsimp only
    rw [length_unsettled_cons (distinct _ known) fresh,(counts.waiting e waits).1]
  · intro m member
    have before := unsettled_eq_nil.mp (counts.ready m (List.mem_of_mem_erase member))
    refine unsettled_eq_nil.mpr (List.all_eq_true.mpr fun p need => ?_)
    simpa using Or.inr (by simpa using List.all_eq_true.mp before p need)

-- Counting down leads to the order that is told without counts.
theorem drain_eq (fuel : Nat) (sorted : nodes.Pairwise (· < ·)) (distinct : ∀ n ∈ nodes, (needs n).Nodup)
    (fresh : ∀ n ∈ nodes, n ∉ settled) (counts : Counts needs nodes settled waiting ready) :
    drain needs fuel waiting ready settled = settle needs fuel nodes settled := by
  induction fuel generalizing nodes settled waiting ready with
  | zero => rfl
  | succ fuel ih =>
    unfold drain settle
    rw [counts.next sorted]
    cases least : ready.min? with
    | none => rfl
    | some n =>
      have now := (List.min?_eq_some_iff.mp least).1
      have known : n ∈ nodes := counts.nodes.mem_iff.mp (List.mem_append_left _ now)
      refine ih (sorted.erase n) (fun m member => distinct m (List.mem_of_mem_erase member)) ?_
        (counts.step distinct now (fresh n known))
      intro m member
      have nodup : nodes.Nodup := sorted.imp fun low => ne_of_lt low
      have other := nodup.mem_erase_iff.mp member
      simp [other.1,fresh m other.2]

-- With nothing settled the counts are the numbers of all that is needed.
theorem drain_all (sorted : nodes.Pairwise (· < ·)) (distinct : ∀ n ∈ nodes, (needs n).Nodup) (fuel : Nat) :
    drain needs fuel (ripe (nodes.map fun n => (n,(needs n).length))).2
      (ripe (nodes.map fun n => (n,(needs n).length))).1 [] = settle needs fuel nodes [] := by
  let entries := nodes.map fun n => (n,(needs n).length)
  have named : ([] ++ entries.map Prod.fst).Perm nodes := by simp [entries,Function.comp_def]
  have right : ∀ e ∈ entries, e.2 = (unsettled needs [] e.1).length := by simp [entries,unsettled]
  have start := counts_ripe named right (fun _ none => nomatch none)
  rw [List.append_nil] at start
  exact drain_eq fuel sorted distinct (by simp) start

end TensorGraph.Graph
