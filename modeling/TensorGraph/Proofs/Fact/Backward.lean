import TensorGraph.Proofs.Fact.Monotone

namespace TensorGraph.Facts
open Outcome

variable {ins' ins : Facts} {out' out : Fact}

-- Broadcasting in three steps: the output from inputs that are all known, the one open input from
-- the output, and the ranks.
def stretchOutput (inputs : Facts) (output : Fact) : Outcome Fact :=
  match (inputs.map Fact.shape).mapM id with
  | some known => do output.withDims (← ShapeFact.broadcast known)
  | none => .ok output

def leadsFull (out : ShapeFact) : Bool :=
  match out with
  | d :: _ => d.isKnown && d != .one
  | [] => false

-- An input of ones that adds nothing to the output, not even an axis.
def neutral (out : ShapeFact) (s : Option ShapeFact) : Bool :=
  ShapeFact.allOnes s && ((s.getD []).length < out.length || leadsFull out)

def refill (inputs : Facts) (out : ShapeFact) : Outcome Facts :=
  match positions Option.isNone (inputs.map Fact.shape) with
  | [i] =>
    if (positions (neutral out) (inputs.map Fact.shape)).length + 1 = inputs.length then
      inputs.zipIdx.mapM fun (f,k) => if k = i then f.withDims out else .ok f
    else .ok inputs
  | _ => .ok inputs

def checkRanks (inputs : Facts) (out : ShapeFact) : Outcome PUnit :=
  forIn (inputs.map Fact.shape).zipIdx PUnit.unit fun (s,i) _ =>
    match s with
    | some s =>
      if out.length < s.length then do
        fail (.rankExceeds i s.length out.length)
        pure (.yield ⟨⟩)
      else pure (.yield ⟨⟩)
    | none => pure (.yield ⟨⟩)

def stretchInputs (inputs : Facts) (output : Fact) : Outcome (Facts × Fact) :=
  match output.shape with
  | none => .ok (inputs,output)
  | some out => do
    let refilled ← refill inputs out
    checkRanks inputs out
    return (refilled,output)

theorem broadcast_eq : broadcast ins out =
    stretchOutput ins out >>= fun output => stretchInputs ins output := by
  have rest (output : Fact) : stretchInputs ins output = (match output.shape with
      | none => pure (ins,output)
      | some out =>
        match positions Option.isNone (ins.map Fact.shape) with
        | [i] =>
          if (positions (neutral out) (ins.map Fact.shape)).length + 1 = ins.length then do
            let refilled ← ins.zipIdx.mapM fun (f,k) => if k = i then f.withDims out else .ok f
            checkRanks ins out
            pure (refilled,output)
          else do
            let refilled ← .ok ins
            checkRanks ins out
            pure (refilled,output)
        | _ => do
          let refilled ← .ok ins
          checkRanks ins out
          pure (refilled,output)) := by
    unfold stretchInputs refill
    cases output.shape with
    | none => rfl
    | some out =>
      dsimp only
      split
      · split <;> rfl
      · rfl
  unfold broadcast stretchOutput
  dsimp only
  cases (ins.map Fact.shape).mapM id with
  | none => exact (rest out).symm
  | some known =>
    simp only [bind_assoc]
    exact congrArg (_ >>= ·) (funext fun dims => congrArg (_ >>= ·) (funext fun output => (rest output).symm))

theorem shapes_within (under : Under ins' ins) {known' : List ShapeFact}
    (found : (ins'.map Fact.shape).mapM id = some known') : ∃ known,
      (ins.map Fact.shape).mapM id = some known ∧ List.Forall₂ ShapeFact.Below known' known := by
  simp only [mapM_some,List.forall₂_map_left_iff,id_eq] at found ⊢
  induction under generalizing known' with
  | nil => cases found; exact ⟨[],.nil,.nil⟩
  | cons head _ ih =>
    cases found with
    | cons first others =>
      obtain ⟨s,known,low⟩ := head.below.shape _ first
      obtain ⟨rest,found,below⟩ := ih others
      exact ⟨s :: rest,.cons known found,.cons low below⟩

theorem stretchOutput_within (under : Under ins' ins) (output : out'.Under out) :
    Within Fact.Under (stretchOutput ins' out') (stretchOutput ins out) := by
  unfold stretchOutput
  cases found' : (ins'.map Fact.shape).mapM id with
  | none =>
    cases (ins.map Fact.shape).mapM id with
    | none => exact within_ok output
    | some known => exact within_right fun dims _ => output.learnsDims
  | some known' =>
    obtain ⟨known,found,below⟩ := shapes_within under found'
    rw [found]
    exact within_bind (ShapeFact.broadcast_within below) fun dims' dims low =>
      Fact.withDims_within output low

theorem length_positions {p : Option ShapeFact → Bool} {shapes : List (Option ShapeFact)} :
    (positions p shapes).length = shapes.countP p := by
  have counted : ∀ k, ((shapes.zipIdx k).filter fun a => p a.1).length = shapes.countP p := by
    induction shapes with
    | nil => exact fun _ => rfl
    | cons s shapes ih =>
      intro k
      rw [List.zipIdx_cons,List.filter_cons,List.countP_cons]
      split <;> simp [ih (k + 1)]
  rw [positions,List.length_map]
  exact counted 0

theorem mem_positions {p : Option ShapeFact → Bool} {shapes : List (Option ShapeFact)} {i : Nat} :
    i ∈ positions p shapes ↔ ∃ s, shapes[i]? = some s ∧ p s = true := by
  unfold positions
  rw [List.mem_map]
  constructor
  · rintro ⟨⟨s,_⟩,member,rfl⟩
    obtain ⟨entry,holds⟩ := List.mem_filter.mp member
    exact ⟨s,List.mem_zipIdx_iff_getElem?.mp entry,holds⟩
  · rintro ⟨s,entry,holds⟩
    exact ⟨(s,i),List.mem_filter.mpr ⟨List.mem_zipIdx_iff_getElem?.mpr entry,holds⟩,rfl⟩

-- All but one satisfy a condition, so any two that do not are the same.
theorem countP_unique {p : α → Bool} {xs : List α} (count : xs.countP p + 1 = xs.length) {i j : Nat}
    {x y : α} (first : xs[i]? = some x) (second : xs[j]? = some y) (notX : p x = false)
    (notY : p y = false) : i = j := by
  induction xs generalizing i j with
  | nil => simp at first
  | cons z zs ih =>
    rw [List.countP_cons,List.length_cons] at count
    cases holds : p z with
    | true =>
      cases i with
      | zero => cases first; rw [holds] at notX; cases notX
      | succ i =>
        cases j with
        | zero => cases second; rw [holds] at notY; cases notY
        | succ j => rw [ih (by simpa [holds] using count) first second]
    | false =>
      have all : ∀ w ∈ zs, p w = true := List.countP_eq_length.mp (by simpa [holds] using count)
      have atHead : ∀ k w, (z :: zs)[k]? = some w → p w = false → k = 0 := by
        intro k w entry fails
        cases k with
        | zero => rfl
        | succ k =>
          have := all w (List.mem_of_getElem? (by simpa using entry))
          rw [fails] at this
          cases this
      rw [atHead i x first notX,atHead j y second notY]

theorem neutral_none {o : ShapeFact} : neutral o none = false := rfl

-- The backward step is taken at an input when it alone is open and all others are neutral.
def Lone (o : ShapeFact) (shapes : List (Option ShapeFact)) (i : Nat) : Prop :=
  shapes[i]? = some none ∧ ∀ j s, shapes[j]? = some s → j ≠ i → neutral o s = true

theorem lone_of_count {o : ShapeFact} {shapes : List (Option ShapeFact)} {i : Nat}
    (single : positions Option.isNone shapes = [i])
    (count : (positions (neutral o) shapes).length + 1 = shapes.length) : Lone o shapes i := by
  obtain ⟨s,entry,none⟩ := mem_positions.mp (single ▸ List.mem_singleton_self i)
  rw [Option.isNone_iff_eq_none] at none
  subst none
  refine ⟨entry,fun j s other apart => ?_⟩
  cases holds : neutral o s with
  | true => rfl
  | false =>
    rw [length_positions] at count
    exact absurd (countP_unique count other entry holds neutral_none) apart

theorem count_of_lone {o : ShapeFact} {shapes : List (Option ShapeFact)} {i : Nat}
    (lone : Lone o shapes i) : positions Option.isNone shapes = [i] ∧
      (positions (neutral o) shapes).length + 1 = shapes.length := by
  have counts : shapes.countP Option.isNone = 1 ∧ shapes.countP (neutral o) + 1 = shapes.length := by
    obtain ⟨entry,others⟩ := lone
    induction shapes generalizing i with
    | nil => simp at entry
    | cons s shapes ih =>
      have some_of : ∀ s, neutral o s = true → Option.isNone s = false := by
        intro s holds
        cases s with
        | none => cases holds
        | some => rfl
      simp only [List.countP_cons,List.length_cons]
      cases i with
      | zero =>
        cases entry
        have all : ∀ t ∈ shapes, neutral o t = true := by
          intro t member
          obtain ⟨j,at_⟩ := List.mem_iff_getElem?.mp member
          exact others (j + 1) t (by simpa using at_) (by omega)
        rw [List.countP_eq_length.mpr all,
          List.countP_eq_zero.mpr fun t member => by simp [some_of t (all t member)]]
        simp [neutral_none]
      | succ i =>
        have head := others 0 s rfl (by omega)
        have tail := ih (by simpa using entry) fun j t at_ apart =>
          others (j + 1) t (by simpa using at_) (by omega)
        simp [head,some_of s head,tail]
  refine ⟨?_,by rw [length_positions]; exact counts.2⟩
  obtain ⟨j,single⟩ := List.length_eq_one_iff.mp (length_positions.trans counts.1)
  have member : i ∈ positions Option.isNone shapes := mem_positions.mpr ⟨none,lone.1,rfl⟩
  rw [single] at member ⊢
  rw [List.mem_singleton.mp member]

theorem leadsFull_below {o' o : ShapeFact} (low : o'.Below o) (full : leadsFull o' = true) :
    leadsFull o = true := by
  cases low with
  | nil => cases full
  | cons head _ =>
    rcases head with rfl | rfl
    · simp [leadsFull,Dim.isKnown] at full
    · exact full

theorem neutral_below {o' o : ShapeFact} {s' s : Option ShapeFact} (low : o'.Below o)
    (shape : ShapeFact.Below? s' s) (holds : neutral o' s' = true) : neutral o s = true := by
  cases s' with
  | none => cases holds
  | some r' =>
    obtain ⟨r,rfl,below⟩ := shape r' rfl
    simp only [neutral,ShapeFact.allOnes,Bool.and_eq_true,Bool.or_eq_true,decide_eq_true_eq,
      Option.getD_some] at holds ⊢
    obtain ⟨ones,place⟩ := holds
    have equal : r' = r := below.eq fun d member => by
      rw [eq_of_beq (List.all_eq_true.mp ones d member)]
      rfl
    subst equal
    refine ⟨ones,place.imp (fun shorter => ?_) (leadsFull_below low)⟩
    rw [← low.length_eq]
    exact shorter

-- Nothing is gained from the output at an input that was open: where the backward step could have
-- been taken with less known, the input has the shape of the output or more.
def Refilled (start inputs : Facts) (o : ShapeFact) : Prop :=
  ∀ i s, (List.getD start i .unknown).shape = none → (inputs.map Fact.shape)[i]? = some (some s) →
    (∀ j t, (inputs.map Fact.shape)[j]? = some t → j ≠ i → neutral o t = true) → o.Below s

def refillAt (inputs : Facts) (o : ShapeFact) (i : Nat) : Outcome Facts :=
  inputs.zipIdx.mapM fun (f,k) => if k = i then f.withDims o else .ok f

-- The backward step is taken at one input, or not at all.
theorem refill_cases (inputs : Facts) (o : ShapeFact) :
    (∃ i, Lone o (inputs.map Fact.shape) i ∧ refill inputs o = refillAt inputs o i) ∨
      (∀ i, ¬ Lone o (inputs.map Fact.shape) i) ∧ refill inputs o = .ok inputs := by
  by_cases lone : ∃ i, Lone o (inputs.map Fact.shape) i
  · obtain ⟨i,lone⟩ := lone
    obtain ⟨single,count⟩ := count_of_lone lone
    refine .inl ⟨i,lone,?_⟩
    unfold refill
    rw [single]
    dsimp only
    rw [if_pos (by simpa using count)]
    rfl
  · rw [not_exists] at lone
    refine .inr ⟨lone,?_⟩
    unfold refill
    split
    · rename_i i single
      split
      · rename_i count
        exact absurd (lone_of_count single (by simpa using count)) (lone i)
      · rfl
    · rfl

theorem under_zipIdx (under : Under ins' ins) :
    List.Forall₂ (fun a b => a.1.Under b.1 ∧ a.2 = b.2 ∧ ins[b.2]? = some b.1) ins'.zipIdx ins.zipIdx := by
  refine ((forall₂_mem (forall₂_zipIdx under 0).flip).flip).imp ?_
  rintro ⟨f',k⟩ ⟨f,_⟩ ⟨member,below,rfl⟩
  exact ⟨below,rfl,List.mem_zipIdx_iff_getElem?.mp member⟩

theorem zipIdx_ok (fs : Facts) : (fs.zipIdx.mapM fun a => (.ok a.1 : Outcome Fact)) = .ok fs := by
  rw [mapM_eq_map fun _ _ => rfl,List.zipIdx_map_fst]

theorem learns_refill (o : ShapeFact) (under : Under ins' ins) : Within Under (.ok ins') (refill ins o) := by
  rcases refill_cases ins o with ⟨i,-,equal⟩ | ⟨-,equal⟩
  · rw [equal,← zipIdx_ok ins']
    refine within_mapM ?_ (under_zipIdx under)
    rintro ⟨f',_⟩ ⟨f,k⟩ ⟨low,rfl,-⟩
    dsimp only
    split
    · exact low.learnsDims
    · exact within_ok low
  · rw [equal]
    exact within_ok under

theorem lone_eq {o : ShapeFact} {shapes : List (Option ShapeFact)} {i j : Nat}
    (lone : Lone o shapes j) (others : ∀ k t, shapes[k]? = some t → k ≠ i → neutral o t = true) :
    j = i := by
  by_contra apart
  have holds := others j none lone.1 apart
  rw [neutral_none] at holds
  cases holds

theorem refill_within {o' o : ShapeFact} (under : Under ins' ins) (low : o'.Below o)
    (refilled : Refilled ins' ins o) : Within Under (refill ins' o') (refill ins o) := by
  rcases refill_cases ins' o' with ⟨i,⟨entry',others'⟩,equal'⟩ | ⟨-,equal'⟩
  · rw [equal']
    have others : ∀ j t, (ins.map Fact.shape)[j]? = some t → j ≠ i → neutral o t = true := by
      intro j t found apart
      rw [List.getElem?_map,Option.map_eq_some_iff] at found
      obtain ⟨f,at_,rfl⟩ := found
      obtain ⟨f',at',below⟩ := forall₂_getElem? under at_
      exact neutral_below low below.below.shape
        (others' j f'.shape (by rw [List.getElem?_map,at']; rfl) apart)
    rw [List.getElem?_map,Option.map_eq_some_iff] at entry'
    obtain ⟨f',at',open_⟩ := entry'
    obtain ⟨f,at_,-⟩ := forall₂_getElem? under.flip at'
    have entry : (ins.map Fact.shape)[i]? = some f.shape := by rw [List.getElem?_map,at_]; rfl
    cases known : f.shape with
    | none =>
      rw [known] at entry
      rcases refill_cases ins o with ⟨j,lone,equal⟩ | ⟨never,-⟩
      · rw [equal,lone_eq lone others]
        refine within_mapM ?_ (under_zipIdx under)
        rintro ⟨f',_⟩ ⟨f,k⟩ ⟨below,rfl,-⟩
        dsimp only
        split
        · exact Fact.withDims_within below low
        · exact within_ok below
      · exact absurd ⟨entry,others⟩ (never i)
    | some s =>
      rw [known] at entry
      rcases refill_cases ins o with ⟨j,lone,-⟩ | ⟨-,equal⟩
      · have same := lone_eq lone others
        subst same
        cases lone.1.symm.trans entry
      · -- the better informed side has the shape of the output there already
        have filled : o.Below s := refilled i s
          (by rw [List.getD_eq_getElem?_getD,at']; exact open_) entry others
        rw [equal,← zipIdx_ok ins]
        refine within_mapM ?_ (under_zipIdx under)
        rintro ⟨g',_⟩ ⟨g,k⟩ ⟨below,rfl,place⟩
        dsimp only
        split
        · rename_i here
          subst here
          cases place.symm.trans at_
          intro _ equal
          cases equal
          obtain ⟨c,unified,least⟩ := Fact.unify_least below.typed below.below
            (b := .outline none (some o')) (Fact.outline_below nofun (known ▸ (low.trans filled).some))
          exact ⟨c,unified,least,below.typed⟩
        · exact within_ok below
  · rw [equal']
    exact learns_refill o under

theorem checkRanks_within {o' o : ShapeFact} (under : Under ins' ins) (low : o'.Below o) :
    Within (fun _ _ => True) (checkRanks ins' o') (checkRanks ins o) := by
  have shapes : List.Forall₂ ShapeFact.Below? (ins'.map Fact.shape) (ins.map Fact.shape) := by
    rw [List.forall₂_map_left_iff,List.forall₂_map_right_iff]
    exact under.imp fun _ _ below => below.below.shape
  refine within_loop ?_ (forall₂_zipIdx shapes 0)
  rintro ⟨s',k⟩ ⟨s,_⟩ ⟨below,rfl⟩
  intro t passed
  have same : t = .yield ⟨⟩ := by
    dsimp only at passed
    split at passed
    · split at passed
      · cases passed
      · cases passed; rfl
    · cases passed; rfl
  refine ⟨.yield ⟨⟩,?_,rfl,same⟩
  cases s' with
  | none => rfl
  | some r' =>
    obtain ⟨r,rfl,ranks⟩ := below r' rfl
    dsimp only at passed ⊢
    rw [ranks.length_eq,low.length_eq]
    split
    · rename_i exceeds
      rw [if_pos exceeds] at passed
      cases passed
    · rfl

theorem stretchInputs_within (under : Under ins' ins) (output : out'.Under out)
    (refilled : ∀ o, out.shape = some o → Refilled ins' ins o) :
    Within (fun p q => Under p.1 q.1 ∧ p.2.Under q.2) (stretchInputs ins' out') (stretchInputs ins out) := by
  unfold stretchInputs
  rcases output.shape_cases with none | ⟨o',o,known',known,low⟩
  · rw [none]
    cases out.shape with
    | none => exact within_ok ⟨under,output⟩
    | some o => exact within_gain (learns_refill o under) fun ins under => within_right fun _ _ =>
        within_ok ⟨under,output⟩
  · rw [known',known]
    exact within_bind (refill_within under low (refilled o known)) fun ins' ins better =>
      within_bind (checkRanks_within under low) fun _ _ _ => within_ok ⟨better,output⟩

-- Broadcasting with less known finds less, unless it fills an input that is better known by now.
theorem broadcast_within (under : Under ins' ins) (output : out'.Under out)
    (refilled : ∀ r, stretchOutput ins out = .ok r → ∀ o, r.shape = some o → Refilled ins' ins o) :
    Within (fun p q => Under p.1 q.1 ∧ p.2.Under q.2) (broadcast ins' out') (broadcast ins out) := by
  rw [broadcast_eq,broadcast_eq]
  intro p found
  obtain ⟨r,stretched,found⟩ := bind_ok.mp found
  obtain ⟨r',stretched',better⟩ := stretchOutput_within under output r stretched
  rw [stretched']
  exact stretchInputs_within under better (refilled r stretched) p found

end TensorGraph.Facts
