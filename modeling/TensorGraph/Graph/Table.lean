import TensorGraph.Graph.Basic

namespace TensorGraph

structure Table (α : Type) where
  entries : List (Outlet × α)
  deriving Repr

namespace Table

variable {α : Type}

def empty : Table α := ⟨[]⟩

def size (t : Table α) : Nat := t.entries.length
def keys (t : Table α) : List Outlet := t.entries.map (·.1)
def contains (t : Table α) (o : Outlet) : Bool := t.keys.contains o
def get? (t : Table α) (o : Outlet) : Option α := t.entries.lookup o

def get (t : Table α) (o : Outlet) : Outcome α :=
  match t.get? o with
  | some a => .ok a
  | none => fail (.unworded .key)

-- Replace an entry where it stands, or append it.
def set (t : Table α) (o : Outlet) (a : α) : Table α :=
  if t.contains o then ⟨t.entries.map fun (p,b) => (p,if p = o then a else b)⟩
  else ⟨t.entries ++ [(o,a)]⟩

def erase (t : Table α) (o : Outlet) : Table α := ⟨t.entries.filter (·.1 ≠ o)⟩

@[simp] theorem get?_empty (o : Outlet) : (empty : Table α).get? o = none := by simp [get?,empty]

theorem get_ok {t : Table α} {o : Outlet} {a : α} : t.get o = .ok a ↔ t.get? o = some a := by
  unfold get
  cases t.get? o <;> simp [fail]

theorem lookup_replace (es : List (Outlet × α)) (o p : Outlet) (a : α) :
    (es.map fun (q,b) => (q,if q = o then a else b)).lookup p =
      (es.lookup p).map fun b => if p = o then a else b := by
  induction es with
  | nil => rfl
  | cons e es ih =>
    obtain ⟨q,b⟩ := e
    by_cases h : p = q
    · subst h
      simp
    · have h' : (p == q) = false := by simpa using h
      simp [List.lookup_cons,h',ih]

theorem get?_eq_none_iff {t : Table α} {o : Outlet} : t.get? o = none ↔ t.contains o = false := by
  simp only [get?,contains,keys,List.lookup_eq_none_iff,List.contains_eq_mem]
  simp
  grind

theorem get?_set (t : Table α) (o p : Outlet) (a : α) :
    (t.set o a).get? p = if p = o then some a else t.get? p := by
  unfold set
  split
  · next h =>
    simp only [get?,lookup_replace]
    by_cases hp : p = o
    · subst hp
      have : t.entries.lookup p ≠ none := fun hn => by
        rw [get?_eq_none_iff.1 hn] at h
        simp at h
      obtain ⟨b,hb⟩ := Option.ne_none_iff_exists'.1 this
      simp [hb]
    · simp [hp]
  · next h =>
    have hn : t.entries.lookup o = none := get?_eq_none_iff.2 (by simpa using h)
    simp only [get?,List.lookup_append]
    by_cases hp : p = o
    · subst hp
      simp [hn]
    · have h' : (p == o) = false := by simpa using hp
      simp [List.lookup_cons,h',hp]

theorem isSome_set {t : Table α} {o p : Outlet} {a : α} (found : (t.get? p).isSome = true) :
    ((t.set o a).get? p).isSome = true := by
  rw [get?_set]
  split
  · rfl
  · exact found

theorem get?_erase (t : Table α) (o p : Outlet) :
    (t.erase o).get? p = if p = o then none else t.get? p := by
  obtain ⟨es⟩ := t
  simp only [get?,erase]
  induction es with
  | nil => simp
  | cons e es ih =>
    obtain ⟨q,b⟩ := e
    grind

end Table

end TensorGraph
