import TensorGraph.Proofs.Analysis.Comparison
import TensorGraph.Proofs.Fact.Height

namespace TensorGraph.Analysis
open Outcome

variable {g : Graph} {settings : AnalysisSettings} {table table' top start : FactTable} {n : Node}
  {changed : List Outlet} {news : List (Outlet × Fact)} {queue : List Int}

-- Visits that a gain at an outlet may cost: of its producer and of every consumer.
def cost (g : Graph) (o : Outlet) : Nat := 1 + (g.consumers o).length

def heightAt (table : FactTable) (o : Outlet) : Nat := ((table.get? o).map Fact.height).getD 0

-- The visits still to pay for on the way to the facts of another table.
def potential (g : Graph) (top table : FactTable) : Nat :=
  ((g.nodes.flatMap (·.outlets)).map fun o => (heightAt top o - heightAt table o) * cost g o).sum

theorem sum_le {xs : List α} {f h : α → Nat} (each : ∀ x ∈ xs, f x ≤ h x) : (xs.map f).sum ≤ (xs.map h).sum := by
  induction xs with
  | nil => exact Nat.le_refl _
  | cons x xs ih =>
    obtain ⟨first,rest⟩ := List.forall_mem_cons.mp each
    exact Nat.add_le_add first (ih rest)

theorem sum_descends {xs : List α} {f h : α → Nat} {x : α} {k : Nat} (each : ∀ y ∈ xs, f y ≤ h y)
    (member : x ∈ xs) (less : f x + k ≤ h x) : (xs.map f).sum + k ≤ (xs.map h).sum := by
  induction xs with
  | nil => cases member
  | cons y xs ih =>
    obtain ⟨first,rest⟩ := List.forall_mem_cons.mp each
    rcases List.mem_cons.mp member with rfl | later
    · have others := sum_le rest
      simp only [List.map_cons,List.sum_cons]
      omega
    · have others := ih rest later
      simp only [List.map_cons,List.sum_cons]
      omega

theorem heightAt_set {o p : Outlet} {f : Fact} :
    heightAt (table.set o f) p = if p = o then f.height else heightAt table p := by
  unfold heightAt
  rw [Table.get?_set]
  split <;> rfl

-- A gain pays for the visits that it causes.
theorem potential_set {o : Outlet} {old new f : Fact} (member : o ∈ g.nodes.flatMap (·.outlets))
    (found : table.get? o = some old) (gain : old.height < new.height) (bound : top.get? o = some f)
    (below : new.height ≤ f.height) :
    potential g top (table.set o new) + cost g o ≤ potential g top table := by
  have before : heightAt table o = old.height := by simp [heightAt,found]
  have above : heightAt top o = f.height := by simp [heightAt,bound]
  refine sum_descends (fun p _ => ?_) member ?_
  · rw [heightAt_set]
    split
    · rename_i here
      subst here
      exact Nat.mul_le_mul_right _ (by omega)
    · exact Nat.le_refl _
  · rw [heightAt_set,if_pos rfl,above,before,← Nat.succ_mul]
    exact Nat.mul_le_mul_right _ (by omega)

-- Entering facts that are known in the end leads no further than the end, and pays for itself.
theorem merges_below {c : List Outlet} (typed : Typed top) (grown : Grown table top)
    (known : ∀ p ∈ news, p.1 ∈ g.nodes.flatMap (·.outlets) ∧ (table.get? p.1).isSome = true ∧
      ∃ f, top.get? p.1 = some f ∧ p.2.Below f) : ∃ table' more,
      news.foldlM merge (table,c) = .ok (table',c ++ more) ∧ Grown table' top ∧
      potential g top table' + (more.map (cost g)).sum ≤ potential g top table := by
  induction news generalizing table c with
  | nil => exact ⟨table,[],by simp,grown,by simp⟩
  | cons p news ih =>
    obtain ⟨⟨member,entry,f,bound,low⟩,rest⟩ := List.forall_mem_cons.mp known
    obtain ⟨old,found⟩ := Option.isSome_iff_exists.mp entry
    obtain ⟨f',bound',below⟩ := grown p.1 old found
    cases bound.symm.trans bound'
    obtain ⟨new,unified,least⟩ := Fact.unify_least (typed _ _ bound) below low
    by_cases same : new.same old = true
    · obtain ⟨table',more,ran,grown',descent⟩ := ih grown rest
      refine ⟨table',more,?_,grown',descent⟩
      rw [List.foldlM_cons,merge_quiet ⟨old,new,found,unified,same⟩]
      exact ran
    · have step : merge (table,c) p = .ok (table.set p.1 new,c ++ [p.1]) := by
        unfold merge
        dsimp only
        rw [Table.get_ok.mpr found,ok_bind,unified,ok_bind,if_neg same]
        rfl
      have other : old ≠ new := fun equal => same (equal ▸ Fact.same_self (below.typed (typed _ _ bound)))
      have paid := potential_set (g := g) member found ((Fact.unify_left unified).height_lt other) bound
        least.height_le
      have grown' : Grown (table.set p.1 new) top := by
        intro o h entered
        rw [Table.get?_set] at entered
        split at entered
        · rename_i here
          cases entered
          subst here
          exact ⟨f,bound,least⟩
        · exact grown o h entered
      obtain ⟨table',more,ran,grown'',descent⟩ := ih (c := c ++ [p.1]) grown' fun q later => by
        obtain ⟨inside,there,above⟩ := rest q later
        exact ⟨inside,Table.isSome_set there,above⟩
      refine ⟨table',p.1 :: more,?_,grown'',?_⟩
      · rw [List.foldlM_cons,step]
        simpa using ran
      · rw [List.map_cons,List.sum_cons]
        omega

theorem length_enqueue (queue : List Int) (id : Int) : (enqueue queue id).length ≤ queue.length + 1 := by
  unfold enqueue
  split <;> simp

theorem length_enqueues (queue ids : List Int) : (ids.foldl enqueue queue).length ≤ queue.length + ids.length := by
  induction ids generalizing queue with
  | nil => exact Nat.le_refl _
  | cons id ids ih =>
    have first := length_enqueue queue id
    have rest := ih (enqueue queue id)
    rw [List.foldl_cons,List.length_cons]
    omega

theorem length_enqueueAround (g : Graph) (q : List Int) (changed : List Outlet) :
    (enqueueAround g q changed).length ≤ q.length + (changed.map (cost g)).sum := by
  unfold enqueueAround
  induction changed generalizing q with
  | nil => exact Nat.le_refl _
  | cons o changed ih =>
    have first := length_enqueue q o.node
    have around := length_enqueues (enqueue q o.node) ((g.consumers o).map (·.node))
    have rest := ih (((g.consumers o).map (·.node)).foldl enqueue (enqueue q o.node))
    rw [List.length_map] at around
    rw [List.foldl_cons,List.map_cons,List.sum_cons,cost]
    omega

end TensorGraph.Analysis
