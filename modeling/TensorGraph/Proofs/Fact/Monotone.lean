import TensorGraph.Op.Transpose
import TensorGraph.Proofs.Fact.Order

namespace TensorGraph
open Outcome

namespace Dim

theorem unify_within {a' a b' b : Dim} (left : a'.Below a) (right : b'.Below b) :
    Within Dim.Below (a'.unify b') (a.unify b) :=
  fun _ unified => unify_least (left.trans (unify_left unified)) (right.trans (unify_right unified))

theorem guard_within {R : α → γ → Prop} {p : Nat → Nat → Prop} [∀ n m, Decidable (p n m)]
    {e : Nat → Nat → Cause} {m' : Outcome α} {m : Outcome γ} {k' : β → Outcome α} {k : β → Outcome γ}
    {a' a b' b : Dim} (rest : Within R m' m) : a'.Below a → b'.Below b →
    Within R (match a', b' with
      | known i, known j => if p i j then (fail (e i j) : Outcome β) >>= k' else m'
      | _, _ => m') (match a, b with
      | known i, known j => if p i j then (fail (e i j) : Outcome β) >>= k else m
      | _, _ => m) := by
  have early : Within R m' (match a, b with
      | known i, known j => if p i j then (fail (e i j) : Outcome β) >>= k else m
      | _, _ => m) := by
    split
    · split
      · exact within_fail
      · exact rest
    · exact rest
  intro left right
  rcases left with rfl | rfl
  · exact early
  · rcases right with rfl | rfl
    · cases a' <;> exact early
    · split
      · split
        · exact within_fail
        · exact rest
      · exact rest

theorem mem_ascending {n : Nat} {ns : List Nat} : n ∈ ascending ns ↔ n ∈ ns := by
  rw [ascending,List.mem_eraseDups,List.mem_mergeSort]

theorem ascending_cons {n : Nat} {ns rest : List Nat} (sorted : ascending ns = n :: rest) :
    ∀ m ∈ rest, m ≠ n := by
  unfold ascending at sorted
  cases merged : ns.mergeSort (· ≤ ·) with
  | nil => simp [merged] at sorted
  | cons k ks =>
    rw [merged,List.eraseDups_cons] at sorted
    cases sorted
    intro m member
    rw [List.mem_eraseDups] at member
    simpa using (List.mem_filter.mp member).2

theorem mem_extents {n : Nat} {ds : List Dim} :
    n ∈ (ds.filter (· != one)).filterMap extent? ↔ known n ∈ ds ∧ n ≠ 1 := by
  rw [List.mem_filterMap]
  constructor
  · rintro ⟨d,member,extent⟩
    obtain ⟨member,other⟩ := List.mem_filter.mp member
    cases d with
    | known k => cases extent; exact ⟨member,by simpa [one] using other⟩
    | streaming | unknown => cases extent
  · rintro ⟨member,other⟩
    exact ⟨known n,List.mem_filter.mpr ⟨member,by simpa [one] using other⟩,rfl⟩

-- Beside an extent that does not stretch, all extents stretch to it.
theorem broadcast_known {ds : List Dim} {n : Nat} {r : Dim} (member : known n ∈ ds) (other : n ≠ 1) :
    broadcast ds = .ok r ↔ r = known n ∧ ∀ m, known m ∈ ds → m = 1 ∨ m = n := by
  have entry : n ∈ ascending ((ds.filter (· != one)).filterMap extent?) :=
    mem_ascending.mpr (mem_extents.mpr ⟨member,other⟩)
  unfold broadcast
  dsimp only
  split
  · rename_i empty; rw [empty] at entry; cases entry
  · rename_i k single
    rw [single] at entry
    cases List.mem_singleton.mp entry
    constructor
    · intro equal
      cases equal
      refine ⟨rfl,fun m known => ?_⟩
      by_cases one : m = 1
      · exact .inl one
      · have found := mem_ascending.mpr (mem_extents.mpr ⟨known,one⟩)
        rw [single] at found
        exact .inr (List.mem_singleton.mp found)
    · rintro ⟨rfl,-⟩; rfl
  · rename_i ns several single
    constructor
    · exact nofun
    · rintro ⟨-,agree⟩
      cases sorted : ascending ((ds.filter (· != one)).filterMap extent?) with
      | nil => exact absurd sorted several
      | cons k rest =>
        cases rest with
        | nil => exact absurd sorted (single k)
        | cons l rest =>
          have each : ∀ m ∈ k :: l :: rest, m = n := by
            intro m found
            rw [← sorted,mem_ascending,mem_extents] at found
            exact (agree m found.1).resolve_left found.2
          have equal := (each l (by simp)).trans (each k (by simp)).symm
          exact absurd equal (ascending_cons sorted l List.mem_cons_self)

theorem no_extents {ds : List Dim} (stretch : ∀ n, known n ∈ ds → n = 1) :
    (ds.filter (· != one)).filterMap extent? = [] := by
  refine List.eq_nil_iff_forall_not_mem.mpr fun n found => ?_
  obtain ⟨known,other⟩ := mem_extents.mp found
  exact other (stretch n known)

theorem broadcast_open {ds : List Dim} (stretch : ∀ n, known n ∈ ds → n = 1)
    (member : unknown ∈ ds) : broadcast ds = .ok unknown := by
  unfold broadcast
  dsimp only
  rw [no_extents stretch]
  have some : (ds.filter (· != one)).any isUnknown = true :=
    List.any_eq_true.mpr ⟨unknown,List.mem_filter.mpr ⟨member,by decide⟩,rfl⟩
  simp [ascending,some]

theorem broadcast_within {ds' ds : List Dim} (below : List.Forall₂ Dim.Below ds' ds) :
    Within Dim.Below (broadcast ds') (broadcast ds) := by
  intro r found
  have kept : ∀ n, known n ∈ ds' → known n ∈ ds := by
    intro n member
    obtain ⟨e,other,low⟩ := forall₂_left below _ member
    exact low.eq rfl ▸ other
  by_cases member : unknown ∈ ds'
  · by_cases extent : ∃ n, known n ∈ ds' ∧ n ≠ 1
    · obtain ⟨n,known,other⟩ := extent
      obtain ⟨rfl,agree⟩ := (broadcast_known (kept n known) other).mp found
      exact ⟨_,(broadcast_known known other).mpr ⟨rfl,fun m found => agree m (kept m found)⟩,
        below_refl _⟩
    · simp only [not_exists,not_and,Decidable.not_not] at extent
      exact ⟨unknown,broadcast_open extent member,unknown_below r⟩
  · have equal : ds' = ds := by
      refine ShapeFact.Below.eq below fun d known => ?_
      cases d with
      | unknown => exact absurd known member
      | known | streaming => rfl
    exact ⟨r,equal ▸ found,below_refl r⟩

end Dim

namespace ShapeFact

theorem getD_below {s r : ShapeFact} (below : s.Below r) (i : Nat) {d e : Dim} (low : d.Below e) :
    (s.getD i d).Below (r.getD i e) := forall₂_getD below i low

theorem unknown_replicate {s : ShapeFact} {rank : Nat} (length : s.length = rank) :
    Below (List.replicate rank .unknown) s := by
  subst length
  induction s with
  | nil => exact .nil
  | cons d s ih => exact .cons (Dim.unknown_below d) ih

theorem headD_below {s r : ShapeFact} (below : s.Below r) {d e : Dim} (low : d.Below e) :
    (s.headD d).Below (r.headD e) := forall₂_headD below low

theorem append_below {s r s' r' : ShapeFact} (first : s.Below r) (second : s'.Below r') :
    Below (s ++ s') (r ++ r') := List.rel_append first second

theorem dropLast_below {s r : ShapeFact} (below : s.Below r) : Below s.dropLast r.dropLast :=
  forall₂_dropLast below

theorem set_below {s r : ShapeFact} (below : s.Below r) (i : Nat) {d e : Dim} (low : d.Below e) :
    Below (s.set i d) (r.set i e) := forall₂_set below i low

theorem leading_below {s r : ShapeFact} (rank : Nat) (below : s.Below r) :
    (leading rank s).Below (leading rank r) := by
  unfold leading
  rw [below.length_eq]
  exact List.rel_append (below_refl _) below

theorem broadcast_ok {ss : List ShapeFact} {r : ShapeFact} : broadcast ss = .ok r ↔
    ((List.range ((ss.map List.length).foldl max 0)).mapM fun i =>
      Dim.broadcast ((ss.map (leading ((ss.map List.length).foldl max 0))).map
        fun s => s.getD i .one)) = .ok r := by
  unfold broadcast
  dsimp only
  split
  · rename_i found; rw [found]
  · rename_i failed; rw [failed]; simp

theorem broadcast_within {ss' ss : List ShapeFact} (below : List.Forall₂ Below ss' ss) :
    Within Below (broadcast ss') (broadcast ss) := by
  have ranks : ss'.map List.length = ss.map List.length := by
    rw [← List.forall₂_eq_eq_eq,List.forall₂_map_left_iff,List.forall₂_map_right_iff]
    exact below.imp fun _ _ low => low.length_eq
  have each (rank i : Nat) :
      Within Dim.Below (Dim.broadcast ((ss'.map (leading rank)).map fun s => s.getD i .one))
        (Dim.broadcast ((ss.map (leading rank)).map fun s => s.getD i .one)) := by
    refine Dim.broadcast_within ?_
    simp only [List.forall₂_map_left_iff,List.forall₂_map_right_iff]
    exact below.imp fun _ _ low => getD_below (leading_below rank low) i (Dim.below_refl _)
  intro r found
  rw [broadcast_ok] at found
  obtain ⟨r',found',low⟩ := within_each (fun i _ => each _ i) r found
  exact ⟨r',broadcast_ok.mpr (by rw [ranks]; exact found'),low⟩

end ShapeFact

namespace Fact

theorem outline_typed {d : Option DType} {s : Option ShapeFact} : (outline d s).Typed := nofun

variable {a a' b b' c u : Fact}

theorem Under.refl (typed : a.Typed) : a.Under a := ⟨below_refl a,typed⟩

theorem Under.self (under : a.Under b) : a.Under a := .refl (under.below.typed under.typed)

theorem Below.under (first : a.Below b) (second : b.Under c) : a.Under c :=
  ⟨first.trans second.below,second.typed⟩

theorem unify_within (left : a'.Under a) (right : b'.Under b) :
    Within Under (a'.unify b') (a.unify b) := by
  intro c unified
  have typed := unify_typed left.typed right.typed unified
  obtain ⟨c',found,low⟩ := unify_least typed (left.below.trans (unify_left unified))
    (right.below.trans (unify_right right.typed unified))
  exact ⟨c',found,low,typed⟩

theorem Under.trans (first : a.Under b) (second : b.Under c) : a.Under c := first.below.under second

-- What only the better informed side learns keeps it better informed.
theorem Under.learns (under : a'.Under a) (typed : b.Typed) :
    Within Under (.ok a') (a.unify b) := by
  intro c unified
  exact ⟨a',rfl,under.below.trans (unify_left unified),unify_typed under.typed typed unified⟩

theorem Under.learnsDims {s : ShapeFact} (under : a'.Under a) : Within Under (.ok a') (a.withDims s) := by
  unfold withDims withShape
  exact under.learns outline_typed

theorem Under.learnsDType {d : Option DType} (under : a'.Under a) :
    Within Under (.ok a') (a.withDType d) := by
  unfold withDType
  exact under.learns outline_typed

theorem Under.learnsShape {s : Option ShapeFact} (under : a'.Under a) :
    Within Under (.ok a') (a.withShape s) := by
  unfold withShape
  exact under.learns outline_typed

theorem withShape_within {s' s : Option ShapeFact} (under : a'.Under a)
    (shape : ShapeFact.Below? s' s) : Within Under (a'.withShape s') (a.withShape s) :=
  unify_within under ⟨outline_below nofun shape,outline_typed⟩

theorem withDims_within {s' s : ShapeFact} (under : a'.Under a) (dims : s'.Below s) :
    Within Under (a'.withDims s') (a.withDims s) :=
  withShape_within under dims.some

theorem withDims_shape {s : ShapeFact} (found : a.withDims s = .ok c) :
    ∃ r, c.shape = some r ∧ s.Below r := by
  unfold withDims withShape at found
  exact (unify_right outline_typed found).shape s rfl

-- With the dims the shapes are there, on both sides.
theorem withDims_shaped {s' s : ShapeFact} (under : a'.Under a) (dims : s'.Below s) :
    Within (fun c' c => c'.Under c ∧ ∃ r' r, c'.shape = some r' ∧ c.shape = some r ∧ r'.Below r)
      (a'.withDims s') (a.withDims s) := by
  intro c found
  obtain ⟨c',found',both⟩ := withDims_within under dims c found
  obtain ⟨r',known',-⟩ := withDims_shape found'
  obtain ⟨r,known,below⟩ := both.below.shape r' known'
  exact ⟨c',found',both,r',r,known',known,below⟩

theorem withDType_within {d' d : Option DType} (under : a'.Under a)
    (dtype : ∀ x, d' = some x → d = some x) : Within Under (a'.withDType d') (a.withDType d) :=
  unify_within under ⟨outline_below dtype (ShapeFact.none_below? _),outline_typed⟩

theorem withDType_same {d e : DType} (found : a.withDType (some d) = .ok c) (known : a.dtype = some e) :
    d = e := by
  unfold withDType at found
  have asked := (unify_right outline_typed found).dtype d rfl
  have kept := (unify_left found).dtype e known
  exact Option.some.inj (asked.symm.trans kept)

-- The fold of facts lies over each of them, and under all that does.
theorem unifyAll_bounds {fs : List Fact} (typed : ∀ f ∈ fs, f.Typed) (unified : unifyAll fs = .ok u) :
    (∀ f ∈ fs, f.Below u) ∧ u.Typed := by
  have parts : ∀ {start u : Fact}, start.Typed → fs.foldlM unify start = .ok u →
      start.Below u ∧ (∀ f ∈ fs, f.Below u) ∧ u.Typed := by
    clear unified
    induction fs with
    | nil => intro _ _ kept ran; cases ran; exact ⟨below_refl _,nofun,kept⟩
    | cons f fs ih =>
      intro start u kept ran
      obtain ⟨first,others⟩ := List.forall_mem_cons.mp typed
      rw [List.foldlM_cons,bind_ok] at ran
      obtain ⟨next,unified,ran⟩ := ran
      obtain ⟨low,each,typed⟩ := ih others (unify_typed kept first unified) ran
      exact ⟨(unify_left unified).trans low,
        List.forall_mem_cons.mpr ⟨(unify_right first unified).trans low,each⟩,typed⟩
  exact (parts outline_typed unified).2

theorem unifyAll_least (fs : List Fact) (typed : u.Typed) (each : ∀ f ∈ fs, f.Below u) :
    ∃ c, unifyAll fs = .ok c ∧ c.Below u := by
  have parts : ∀ {start : Fact}, start.Below u → ∃ c, fs.foldlM unify start = .ok c ∧ c.Below u := by
    induction fs with
    | nil => exact fun low => ⟨_,rfl,low⟩
    | cons f fs ih =>
      intro start low
      obtain ⟨first,others⟩ := List.forall_mem_cons.mp each
      obtain ⟨next,unified,below⟩ := unify_least typed low first
      obtain ⟨c,ran,least⟩ := ih others below
      exact ⟨c,by rw [List.foldlM_cons,unified]; exact ran,least⟩
  exact parts (unknown_below u)

theorem unifyAll_within {fs' fs : List Fact} (typed : ∀ f ∈ fs, f.Typed)
    (each : ∀ f' ∈ fs', ∃ f ∈ fs, f'.Below f) : Within Under (unifyAll fs') (unifyAll fs) := by
  intro u unified
  obtain ⟨bounds,typedU⟩ := unifyAll_bounds typed unified
  obtain ⟨c,found,low⟩ := unifyAll_least fs' typedU fun f' member => by
    obtain ⟨f,other,below⟩ := each f' member
    exact below.trans (bounds f other)
  exact ⟨c,found,low,typedU⟩

end Fact

namespace Facts

def Below (fs' fs : Facts) : Prop := List.Forall₂ Fact.Below fs' fs

def Under (fs' fs : Facts) : Prop := List.Forall₂ Fact.Under fs' fs

variable {fs' fs gs' gs hs : Facts}

theorem Under.refl (typed : ∀ f ∈ fs, f.Typed) : Under fs fs :=
  List.forall₂_same.mpr fun f member => .refl (typed f member)

theorem Under.typed (under : Under fs' fs) : ∀ f ∈ fs, f.Typed := by
  intro f member
  obtain ⟨_,_,low⟩ := forall₂_right under f member
  exact low.typed

theorem Below.trans (first : Below fs' fs) (second : Below fs gs) : Below fs' gs :=
  forall₂_trans first second fun _ _ _ => Fact.Below.trans

theorem Below.under (first : Below fs' fs) (second : Under fs gs) : Under fs' gs :=
  forall₂_trans first second fun _ _ _ => Fact.Below.under

theorem Under.trans (first : Under fs' fs) (second : Under fs gs) : Under fs' gs :=
  Below.under (first.imp fun _ _ low => low.below) second

theorem Under.self (under : Under fs' fs) : Under fs' fs' :=
  .refl fun f member => by
    obtain ⟨g,_,low⟩ := forall₂_left under f member
    exact low.below.typed low.typed

theorem Under.below (under : Under fs' fs) : Below fs' fs := under.imp fun _ _ low => low.below

theorem Below.eq (there : Below fs' fs) (back : Below fs fs') : fs' = fs := by
  induction there with
  | nil => rfl
  | cons head _ ih =>
    cases back with
    | cons next rest => rw [head.antisymm next,ih rest]

theorem under_replicate (n : Nat) : Under (List.replicate n .unknown) (List.replicate n .unknown) :=
  List.forall₂_same.mpr fun f member => by
    rw [List.eq_of_mem_replicate member]
    exact .refl Fact.outline_typed

theorem Under.pad (under : Under fs' fs) (n : Nat) : Under (fs'.pad n) (fs.pad n) := by
  unfold Facts.pad
  rw [under.length_eq]
  exact List.rel_append under (under_replicate _)

theorem Under.append (first : Under fs' fs) (second : Under gs' gs) : Under (fs' ++ gs') (fs ++ gs) :=
  List.rel_append first second

theorem Under.getD (under : Under fs' fs) (i : Nat) :
    (List.getD fs' i .unknown).Under (List.getD fs i .unknown) :=
  forall₂_getD under i (.refl Fact.outline_typed)

theorem Under.first (under : Under fs' fs) : (Facts.first fs').Under (Facts.first fs) :=
  forall₂_headD under (.refl Fact.outline_typed)

theorem Under.set_zero (under : Under fs' fs) {f' f : Fact} (low : f'.Under f) :
    Under (fs'.set 0 f') (fs.set 0 f) := by
  cases under with
  | nil => exact .nil
  | cons _ rest => exact .cons low rest

theorem Under.set_left (under : Under fs' fs) {f' : Fact} (low : f'.Under (Facts.first fs)) :
    Under (fs'.set 0 f') fs := by
  cases under with
  | nil => exact .nil
  | cons _ rest => exact .cons low rest

theorem Under.set_right (under : Under fs' fs) {f : Fact} (low : (Facts.first fs').Under f) :
    Under fs' (fs.set 0 f) := by
  cases under with
  | nil => exact .nil
  | cons _ rest => exact .cons low rest

theorem Under.isEmpty_eq (under : Under fs' fs) : fs'.isEmpty = fs.isEmpty := by
  cases under <;> rfl

theorem Under.dropLast (under : Under fs' fs) : Under (List.dropLast fs') (List.dropLast fs) :=
  forall₂_dropLast under

theorem Under.getLastD (under : Under fs' fs) :
    (List.getLastD fs' .unknown).Under (List.getLastD fs .unknown) := by
  induction under with
  | nil => exact .refl Fact.outline_typed
  | @cons f' f fs' fs head rest ih =>
    cases rest with
    | nil => exact head
    | cons next rest => simpa using ih

-- Sharing: each side shares what it knows, and the poorer side may know nothing to share.
theorem shareDType_within (under : Under fs' fs) : Within Under fs'.shareDType fs.shareDType := by
  have kept : ∀ d ∈ fs'.filterMap Fact.dtype, d ∈ fs.filterMap Fact.dtype := by
    intro d member
    obtain ⟨f',member,known⟩ := List.mem_filterMap.mp member
    obtain ⟨f,other,low⟩ := forall₂_left under f' member
    exact List.mem_filterMap.mpr ⟨f,other,low.below.dtype d known⟩
  unfold shareDType
  split
  · split
    · exact within_ok under
    · refine within_right fun shared found => within_learn (fun f' f low => ?_) under
      exact low.learns (Fact.unifyAll_bounds (List.forall_mem_map.mpr fun _ _ => Fact.outline_typed) found).2
  · rename_i some
    split
    · rename_i none
      rw [none] at kept
      exact absurd (List.eq_nil_iff_forall_not_mem.mpr fun d member => nomatch kept d member) some
    · refine within_bind (Fact.unifyAll_within (List.forall_mem_map.mpr fun _ _ => Fact.outline_typed) ?_) fun shared' shared both =>
        within_mapM (fun f' f low => Fact.unify_within low both) under
      intro f' member
      obtain ⟨d,known,rfl⟩ := List.mem_map.mp member
      exact ⟨_,List.mem_map.mpr ⟨d,kept d known,rfl⟩,Fact.below_refl _⟩

theorem shareShape_within (under : Under fs' fs) : Within Under fs'.shareShape fs.shareShape := by
  have kept : ∀ s ∈ fs'.filterMap Fact.shape, ∃ r ∈ fs.filterMap Fact.shape, s.Below r := by
    intro s member
    obtain ⟨f',member,known⟩ := List.mem_filterMap.mp member
    obtain ⟨f,other,low⟩ := forall₂_left under f' member
    obtain ⟨r,known,below⟩ := low.below.shape s known
    exact ⟨r,List.mem_filterMap.mpr ⟨f,other,known⟩,below⟩
  unfold shareShape
  split
  · split
    · exact within_ok under
    · exact within_right fun shared found => within_learn (fun f' f low => low.learnsShape) under
  · rename_i some
    split
    · rename_i none
      rw [none] at kept
      exact absurd (List.eq_nil_iff_forall_not_mem.mpr fun s member => by
        obtain ⟨r,other,-⟩ := kept s member; cases other) some
    · refine within_bind (Fact.unifyAll_within (List.forall_mem_map.mpr fun _ _ => Fact.outline_typed) ?_) fun shared' shared both =>
        within_mapM (fun f' f low => Fact.withShape_within low both.below.shape) under
      intro f' member
      obtain ⟨s,known,rfl⟩ := List.mem_map.mp member
      obtain ⟨r,other,below⟩ := kept s known
      exact ⟨_,List.mem_map.mpr ⟨r,other,rfl⟩,Fact.outline_below nofun below.some⟩

theorem learns_shareDType (under : Under fs' fs) : Within Under (.ok fs') fs.shareDType := by
  unfold shareDType
  split
  · exact within_ok under
  · refine within_right fun shared found => within_learn (fun f' f low => ?_) under
    exact low.learns (Fact.unifyAll_bounds (List.forall_mem_map.mpr fun _ _ => Fact.outline_typed) found).2

theorem learns_shareShape (under : Under fs' fs) : Within Under (.ok fs') fs.shareShape := by
  unfold shareShape
  split
  · exact within_ok under
  · exact within_right fun shared found => within_learn (fun f' f low => low.learnsShape) under

-- What is shared is known of every fact afterwards.
theorem shareDType_dtype {d : DType} (shared : fs.shareDType = .ok gs)
    (found : ∃ g ∈ gs, g.dtype = some d) : ∀ g ∈ gs, g.dtype = some d := by
  unfold shareDType at shared
  split at shared
  · rename_i none
    cases shared
    obtain ⟨g,member,known⟩ := found
    have found : d ∈ List.filterMap Fact.dtype fs := List.mem_filterMap.mpr ⟨g,member,known⟩
    rw [none] at found
    cases found
  · rename_i nonempty
    obtain ⟨all,unified,shared⟩ := bind_ok.mp shared
    obtain ⟨bounds,typed⟩ := Fact.unifyAll_bounds
      (List.forall_mem_map.mpr fun _ _ => Fact.outline_typed) unified
    have same : ∀ e ∈ fs.filterMap Fact.dtype, ∀ g ∈ gs, g.dtype = some e := by
      intro e member g found
      obtain ⟨f,-,joined⟩ := forall₂_right (mapM_ok.mp shared) g found
      exact (Fact.unify_right typed joined).dtype e
        ((bounds _ (List.mem_map.mpr ⟨e,member,rfl⟩)).dtype e rfl)
    obtain ⟨g,member,known⟩ := found
    obtain ⟨e,entry⟩ := List.exists_mem_of_ne_nil _ (fun none => nonempty none)
    have equal := same e entry g member
    rw [known] at equal
    cases equal
    exact same d entry

theorem shareDType_least {d : DType} (under : Under fs gs) (dtype : ∀ g ∈ gs, g.dtype = some d) :
    ∃ hs, fs.shareDType = .ok hs ∧ Under hs gs := by
  unfold shareDType
  split
  · exact ⟨fs,rfl,under⟩
  · obtain ⟨shared,unified,low⟩ := Fact.unifyAll_least (u := .outline (some d) none)
      ((fs.filterMap Fact.dtype).map fun t => .outline (some t) none) Fact.outline_typed (by
        intro f member
        obtain ⟨e,entry,rfl⟩ := List.mem_map.mp member
        obtain ⟨f,member,known⟩ := List.mem_filterMap.mp entry
        obtain ⟨g,other,below⟩ := forall₂_left under f member
        cases (below.below.dtype e known).symm.trans (dtype g other)
        exact Fact.below_refl _)
    rw [unified,ok_bind]
    refine mapM_meets ?_ (forall₂_mem under.flip).flip
    rintro f g ⟨member,below⟩
    obtain ⟨c,joined,least⟩ := Fact.unify_least below.typed below.below
      (low.trans (Fact.outline_below (fun e equal => equal ▸ dtype g member) (ShapeFact.none_below? _)))
    exact ⟨c,joined,least,below.typed⟩

theorem pair_within (under : Under fs' fs) :
    Within (fun p q => p.1.Under q.1 ∧ p.2.Under q.2) fs'.pair fs.pair := by
  intro p found
  unfold Facts.pair at found
  split at found
  · cases found
    cases under with
    | cons first rest =>
      cases rest with
      | cons second none =>
        cases none
        exact ⟨_,rfl,first,second⟩
  · cases found

theorem sharedPair_within (underIns : Under ins' ins) (underOuts : Under outs' outs) :
    Within (fun p q => p.1.Under q.1 ∧ p.2.Under q.2) (sharedPair ins' outs') (sharedPair ins outs) :=
  within_bind (shareDType_within ((underIns.pad 1).append (underOuts.pad 1))) fun _ _ => pair_within

end Facts

namespace Fact

theorem Under.shape_cases {a' a : Fact} (under : a'.Under a) : a'.shape = none ∨
    ∃ s' s, a'.shape = some s' ∧ a.shape = some s ∧ s'.Below s := by
  cases known : a'.shape with
  | none => exact .inl rfl
  | some s' =>
    obtain ⟨s,equal,below⟩ := under.below.shape s' known
    exact .inr ⟨s',s,rfl,equal,below⟩

theorem Under.dtype_cases {a' a : Fact} (under : a'.Under a) : a'.dtype = none ∨
    ∃ d, a'.dtype = some d ∧ a.dtype = some d := by
  cases known : a'.dtype with
  | none => exact .inl rfl
  | some d => exact .inr ⟨d,rfl,under.below.dtype d known⟩

theorem Under.headD {a' a : Fact} (under : a'.Under a) :
    ((a'.shape.getD []).headD .unknown).Below ((a.shape.getD []).headD .unknown) := by
  rcases under.shape_cases with none | ⟨s',s,known',known,below⟩
  · rw [none]
    exact Dim.unknown_below _
  · rw [known',known]
    exact ShapeFact.headD_below below (Dim.below_refl _)

theorem Under.extent {a' a : Fact} (under : a'.Under a) (i : Nat) :
    ((a'.shape.getD []).getD i .unknown).Below ((a.shape.getD []).getD i .unknown) := by
  rcases under.shape_cases with none | ⟨s',s,known',known,below⟩
  · rw [none]
    exact Dim.unknown_below _
  · rw [known',known]
    exact ShapeFact.getD_below below i (Dim.below_refl _)

-- A condition on the element type, once it is known.
def require (p : DType → Outcome Unit) (f : Fact) : Outcome Unit :=
  match f.dtype with
  | some t => p t
  | none => .ok ()

theorem require_within {p : DType → Outcome Unit} {a' a : Fact} (under : a'.Under a) :
    Within (fun _ _ => True) (require p a') (require p a) := by
  unfold require
  rcases under.dtype_cases with none | ⟨d,known',known⟩
  · rw [none]
    exact fun _ _ => ⟨(),rfl,trivial⟩
  · rw [known',known]
    exact fun u passed => ⟨u,passed,trivial⟩

theorem check_within {R : α → γ → Prop} {p : DType → Outcome Unit} {k' : Unit → Outcome α}
    {k : Unit → Outcome γ} {a' a : Fact} (under : a'.Under a) (rest : Within R (k' ()) (k ())) :
    Within R (match a'.dtype with
      | some t => p t >>= k'
      | none => k' ()) (match a.dtype with
      | some t => p t >>= k
      | none => k ()) := by
  rcases under.dtype_cases with none | ⟨d,known',known⟩
  · rw [none]
    cases a.dtype with
    | none => exact rest
    | some t => exact within_right fun _ _ => rest
  · rw [known',known]
    exact within_same fun _ _ => rest

theorem guard_within {R : α → γ → Prop} {p : DType → Bool} {e : DType → Cause} {m' : Outcome α}
    {m : Outcome γ} {k' : β → Outcome α} {k : β → Outcome γ} {a' a : Fact} (under : a'.Under a)
    (rest : Within R m' m) :
    Within R (match a'.dtype with
      | some t => if p t = true then m' else (fail (e t) : Outcome β) >>= k'
      | none => m') (match a.dtype with
      | some t => if p t = true then m else (fail (e t) : Outcome β) >>= k
      | none => m) := by
  rcases under.dtype_cases with none | ⟨d,known',known⟩
  · rw [none]
    cases a.dtype with
    | none => exact rest
    | some t =>
      dsimp only
      split
      · exact rest
      · exact within_fail
  · rw [known',known]
    dsimp only
    split
    · exact rest
    · exact within_fail

end Fact

end TensorGraph
