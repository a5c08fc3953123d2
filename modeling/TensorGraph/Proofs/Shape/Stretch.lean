import TensorGraph.Shape
import TensorGraph.Proofs.Outcome

namespace TensorGraph
open Outcome

theorem getElem?_fromLast {α : Type} {x : α} {xs : List α} {i : Nat} (within : i < xs.length) :
    xs[xs.length - 1 - i]? = some (xs.reverse.getD i x) := by
  rw [List.getD_eq_getElem?_getD,List.getElem?_reverse within,List.getElem?_eq_getElem (by omega)]
  rfl

namespace Shape

-- Extent of an axis counted from the last one. Beyond the rank it is 1, so shapes of different rank
-- are compared without lengthening them.
def extent (s : Shape) (i : Nat) : Nat := s.reverse.getD i 1

theorem extent_beyond {s : Shape} {i : Nat} (beyond : s.length ≤ i) : s.extent i = 1 := by
  rw [extent,List.getD_eq_getElem?_getD,List.getElem?_eq_none (by simpa using beyond)]
  rfl

theorem extent_within {s : Shape} {i : Nat} (within : i < s.length) :
    s[s.length - 1 - i]? = some (s.extent i) :=
  getElem?_fromLast within

theorem length_lead {s : Shape} {rank : Nat} (short : s.length ≤ rank) : (lead rank s).length = rank := by
  rw [lead,List.length_append,List.length_replicate]
  omega

theorem extent_lead (rank : Nat) (s : Shape) (i : Nat) : (lead rank s).extent i = s.extent i := by
  by_cases within : i < s.length
  · simp [extent,lead,List.getD_eq_getElem?_getD,List.getElem?_append_left,within]
  · rw [extent_beyond (Nat.le_of_not_lt within)]
    simp only [extent,lead,List.reverse_append,List.reverse_replicate,List.getD_eq_getElem?_getD]
    rw [List.getElem?_append_right (by simpa using within),List.getElem?_replicate]
    split <;> rfl

theorem eq_of_extents {s t : Shape} (length : s.length = t.length) (each : ∀ i, s.extent i = t.extent i) :
    s = t := by
  refine List.ext_getElem? fun i => ?_
  by_cases within : i < s.length
  · have here := extent_within (s := s) (i := s.length - 1 - i) (by omega)
    have there := extent_within (s := t) (i := s.length - 1 - i) (by omega)
    rw [show s.length - 1 - (s.length - 1 - i) = i by omega] at here
    rw [show t.length - 1 - (s.length - 1 - i) = i by omega] at there
    rw [here,there,each]
  · rw [List.getElem?_eq_none (Nat.le_of_not_lt within),List.getElem?_eq_none (by omega)]

theorem stretch?_some {m n k : Nat} (met : stretch? m n = some k) :
    (m = 1 ∨ m = k) ∧ (n = 1 ∨ n = k) ∧ (k = m ∨ k = n) := by
  unfold stretch? at met
  grind

theorem broadcast?_some {s t r : Shape} (met : broadcast? s t = some r) :
    r.length = max s.length t.length ∧ ∀ i, stretch? (s.extent i) (t.extent i) = some (r.extent i) := by
  have related := mapM_some.mp met
  have left := length_lead (Nat.le_max_left s.length t.length)
  have right := length_lead (Nat.le_max_right s.length t.length)
  have length : r.length = max s.length t.length := by
    rw [← related.length_eq,List.length_zip,left,right,Nat.min_self]
  refine ⟨length,fun i => ?_⟩
  rw [← length] at related left right
  by_cases within : i < r.length
  · obtain ⟨⟨m,n⟩,pair,met⟩ := forall₂_getElem? related (extent_within within)
    obtain ⟨first,second⟩ := List.getElem?_zip_eq_some.mp pair
    have here := extent_within (s := lead r.length s) (i := i) (by omega)
    have there := extent_within (s := lead r.length t) (i := i) (by omega)
    rw [extent_lead,left,first] at here
    rw [extent_lead,right,second] at there
    cases here
    cases there
    exact met
  · rw [extent_beyond (s := s) (by omega),extent_beyond (s := t) (by omega),extent_beyond (s := r) (by omega)]
    rfl

-- A shape that several shapes stretch to, and nothing more: each extent and the rank come from one
-- of them.
structure Stretched (ss : List Shape) (r : Shape) : Prop where
  short : ∀ s ∈ ss, s.length ≤ r.length
  rank : r.length = 0 ∨ ∃ s ∈ ss, s.length = r.length
  stretch : ∀ s ∈ ss, ∀ i, s.extent i = 1 ∨ s.extent i = r.extent i
  met : ∀ i, r.extent i = 1 ∨ ∃ s ∈ ss, s.extent i = r.extent i

theorem stretched_nil : Stretched [] [] where
  short := nofun
  rank := .inl rfl
  stretch := nofun
  met i := .inl (extent_beyond (Nat.zero_le i))

theorem stretched_one (s : Shape) : Stretched [s] s where
  short := by simp
  rank := .inr ⟨s,List.mem_singleton_self s,rfl⟩
  stretch := by simp
  met i := .inr ⟨s,List.mem_singleton_self s,rfl⟩

theorem foldl_max_le_iff {ns : List Nat} {m n : Nat} : ns.foldl max m ≤ n ↔ m ≤ n ∧ ∀ k ∈ ns, k ≤ n := by
  induction ns generalizing m with
  | nil => simp
  | cons k ns ih => rw [List.foldl_cons,ih,List.forall_mem_cons,Nat.max_le,and_assoc]

theorem Stretched.foldl_max {ss : List Shape} {r : Shape} (stretched : Stretched ss r) :
    (ss.map List.length).foldl max 0 = r.length := by
  refine Nat.le_antisymm (foldl_max_le_iff.mpr ⟨Nat.zero_le _,List.forall_mem_map.mpr stretched.short⟩) ?_
  have above := (foldl_max_le_iff.mp (Nat.le_refl ((ss.map List.length).foldl max 0))).2
  rcases stretched.rank with none | ⟨s,member,equal⟩
  · omega
  · exact equal ▸ above _ (List.mem_map_of_mem member)

theorem Stretched.more {ss : List Shape} {r s r' : Shape} (stretched : Stretched ss r)
    (met : broadcast? r s = some r') : Stretched (ss ++ [s]) r' := by
  obtain ⟨length,each⟩ := broadcast?_some met
  refine ⟨?_,?_,?_,?_⟩
  · intro t member
    rcases List.mem_append.mp member with before | last
    · have short := stretched.short t before
      omega
    · cases List.mem_singleton.mp last
      omega
  · rcases Nat.le_total s.length r.length with shorter | longer
    · rw [Nat.max_eq_left shorter] at length
      rw [length]
      rcases stretched.rank with none | ⟨t,member,equal⟩
      · exact .inl none
      · exact .inr ⟨t,List.mem_append_left _ member,equal⟩
    · rw [Nat.max_eq_right longer] at length
      exact .inr ⟨s,by simp,length.symm⟩
  · intro t member i
    obtain ⟨left,right,-⟩ := stretch?_some (each i)
    rcases List.mem_append.mp member with before | last
    · rcases stretched.stretch t before i with one | equal
      · exact .inl one
      · exact equal ▸ left
    · cases List.mem_singleton.mp last
      exact right
  · intro i
    obtain ⟨-,-,from_⟩ := stretch?_some (each i)
    rcases from_ with left | right
    · rw [left]
      rcases stretched.met i with one | ⟨t,member,equal⟩
      · exact .inl one
      · exact .inr ⟨t,List.mem_append_left _ member,equal⟩
    · exact .inr ⟨s,by simp,right.symm⟩

theorem stretched_two {s t r : Shape} (met : broadcast? s t = some r) : Stretched [s,t] r :=
  (stretched_one s).more met

theorem stretched_fold {ss more : List Shape} {r r' : Shape} (stretched : Stretched ss r)
    (met : more.foldlM broadcast? r = some r') : Stretched (ss ++ more) r' := by
  induction more generalizing ss r with
  | nil =>
    cases met
    simpa using stretched
  | cons s more ih =>
    rw [List.foldlM_cons,Option.bind_eq_bind,Option.bind_eq_some_iff] at met
    obtain ⟨next,first,rest⟩ := met
    simpa using ih (stretched.more first) rest

theorem stretched_all {ss : List Shape} {r : Shape} (met : broadcastAll? ss = some r) : Stretched ss r :=
  stretched_fold stretched_nil met

theorem broadcast?_nil {s r : Shape} (met : broadcast? [] s = some r) : r = s := by
  obtain ⟨length,each⟩ := broadcast?_some met
  refine eq_of_extents (by simpa using length) fun i => ?_
  have equal := each i
  rw [extent_beyond (s := []) (Nat.zero_le i)] at equal
  obtain ⟨-,right,from_⟩ := stretch?_some equal
  omega

-- Beside ones, every extent that is not 1 comes from the remaining shape.
theorem Stretched.reaches {ss : List Shape} {r s : Shape} (stretched : Stretched ss r)
    (ones : ∀ t ∈ ss, t = s ∨ ∀ i, t.extent i = 1) {i : Nat} (other : r.extent i ≠ 1) : i < s.length := by
  rcases stretched.met i with one | ⟨t,found,equal⟩
  · exact absurd one other
  · rcases ones t found with rfl | all
    · refine Nat.lt_of_not_le fun beyond => other ?_
      rw [← equal,extent_beyond beyond]
    · exact absurd (equal.symm.trans (all i)) other

theorem Stretched.eq_of_ones {ss : List Shape} {r s : Shape} (stretched : Stretched ss r)
    (member : s ∈ ss) (ones : ∀ t ∈ ss, t = s ∨ ∀ i, t.extent i = 1)
    (rank : r.length ≤ s.length) : s = r := by
  have length : s.length = r.length := Nat.le_antisymm (stretched.short s member) rank
  refine eq_of_extents length fun i => ?_
  rcases stretched.stretch s member i with one | equal
  · rcases stretched.met i with other | ⟨t,found,equal⟩
    · rw [one,other]
    · rcases ones t found with rfl | all
      · exact equal
      · rw [one,← equal,all i]
  · exact equal

end Shape

end TensorGraph
