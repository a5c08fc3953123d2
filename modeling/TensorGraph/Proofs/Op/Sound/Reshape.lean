import TensorGraph.Proofs.Fact.Sound
import TensorGraph.Proofs.Op.Settled

namespace TensorGraph
open Outcome Facts

namespace Shape

theorem size_eq_foldr (s : Shape) : s.foldr (· * ·) 1 = s.size := by
  induction s with
  | nil => rfl
  | cons n s ih => rw [List.foldr_cons,ih,size]

theorem size_eraseIdx {s : Shape} {i n : Nat} (entry : s[i]? = some n) : s.size = n * size (s.eraseIdx i) := by
  induction s generalizing i with
  | nil => simp at entry
  | cons m s ih =>
    cases i with
    | zero =>
      cases entry
      rfl
    | succ i =>
      rw [List.eraseIdx_cons_succ,size,size,ih (by simpa using entry),Nat.mul_left_comm]

theorem size_pos {s : Shape} (each : ∀ n ∈ s, n ≠ 0) : 0 < s.size := by
  induction s with
  | nil => exact Nat.one_pos
  | cons n s ih =>
    obtain ⟨first,rest⟩ := List.forall_mem_cons.mp each
    exact Nat.mul_pos (Nat.pos_of_ne_zero first) (ih rest)

end Shape

theorem filter_sublist {α : Type} {p : α → Bool} {xs ys : List α}
    (placed : ∀ (i : Nat) x, xs[i]? = some x → p x = true → ys[i]? = some x) :
    (xs.filter p).Sublist (ys.filter p) := by
  induction xs generalizing ys with
  | nil => exact List.nil_sublist _
  | cons x xs ih =>
    have rest : (xs.filter p).Sublist (ys.tail.filter p) := ih fun i y there holds => by
      simpa using placed (i + 1) y there holds
    by_cases holds : p x = true
    · have first := placed 0 x rfl holds
      cases ys with
      | nil => cases first
      | cons y ys =>
        cases first
        simpa [holds] using rest
    · rw [List.filter_cons_of_neg holds]
      exact rest.trans (ys.tail_sublist.filter p)

theorem zip_eraseIdx {α β : Type} (xs : List α) (ys : List β) (i : Nat) :
    (xs.eraseIdx i).zip (ys.eraseIdx i) = (xs.zip ys).eraseIdx i := by
  induction xs generalizing ys i with
  | nil => rfl
  | cons x xs ih =>
    cases ys with
    | nil => simp
    | cons y ys =>
      cases i with
      | zero => rfl
      | succ i => simp [ih]

namespace ShapeFact

variable {s o : ShapeFact} {shape ns : Shape}

-- The extents that streams turn out to have.
def streamed (s : ShapeFact) (shape : Shape) : Shape :=
  ((s.zip shape).filter fun p => p.1.isStreaming).map Prod.snd

theorem length_streamed (fits : s.Fits shape) : (streamed s shape).length = s.countP Dim.isStreaming := by
  have first : (s.zip shape).map Prod.fst = s := List.map_fst_zip (Nat.le_of_eq fits.length_eq)
  rw [streamed,List.length_map,← List.countP_eq_length_filter]
  conv_rhs => rw [← first,List.countP_map]
  rfl

-- Streams and numbers make up the size of a shape with no open extent.
theorem size_split (fits : s.Fits shape) (closed : s.any Dim.isUnknown = false) :
    shape.size = Shape.size (s.filterMap Dim.extent?) * (streamed s shape).size := by
  induction fits with
  | nil => rfl
  | @cons d n s shape head _ ih =>
    simp only [List.any_cons,Bool.or_eq_false_iff] at closed
    have rest := ih closed.2
    cases d with
    | known k =>
      cases Dim.accepts_known.mp head
      rw [Shape.size,rest,List.filterMap_cons_some (f := Dim.extent?) rfl,Shape.size,Nat.mul_assoc]
      rfl
    | streaming =>
      rw [Shape.size,rest,List.filterMap_cons_none rfl,Nat.mul_left_comm]
      rfl
    | unknown => cases closed.1

theorem mem_streamed {n : Nat} (member : n ∈ streamed s shape) :
    ∃ i : Nat, s[i]? = some Dim.streaming ∧ shape[i]? = some n := by
  obtain ⟨⟨d,m⟩,kept,rfl⟩ := List.mem_map.mp member
  obtain ⟨pair,stream⟩ := List.mem_filter.mp kept
  obtain ⟨i,there⟩ := List.mem_iff_getElem?.mp pair
  obtain ⟨first,second⟩ := List.getElem?_zip_eq_some.mp there
  cases d with
  | streaming => exact ⟨i,first,second⟩
  | known | unknown => cases stream

theorem streamed_eraseIdx (s : ShapeFact) (shape : Shape) (i : Nat) :
    (streamed (s.eraseIdx i) (shape.eraseIdx i)).Sublist (streamed s shape) := by
  unfold streamed
  rw [zip_eraseIdx]
  exact ((List.eraseIdx_sublist _ i).filter _).map _

-- Streams that are all carried over from the same place.
theorem streamed_sublist (carried : ∀ (i : Nat) n, o[i]? = some Dim.streaming → ns[i]? = some n →
    s[i]? = some Dim.streaming ∧ shape[i]? = some n) : (streamed o ns).Sublist (streamed s shape) := by
  refine (filter_sublist ?_).map _
  rintro i ⟨d,n⟩ pair stream
  obtain ⟨first,second⟩ := List.getElem?_zip_eq_some.mp pair
  cases d with
  | streaming => exact List.getElem?_zip_eq_some.mpr (carried i n first second)
  | known | unknown => cases stream

-- With as many streams on either side, what is left over is left to the numbers.
theorem left_factor {slot n : Nat} (fits : s.Fits shape) (filled : o.Fits ns)
    (closed : s.any Dim.isUnknown = false) (others : (o.eraseIdx slot).any Dim.isUnknown = false)
    (entry : ns[slot]? = some n) (size : ns.size = shape.size)
    (carried : ∀ (i : Nat) m, o[i]? = some Dim.streaming → ns[i]? = some m →
      (s[i]? = some Dim.streaming ∧ shape[i]? = some m) ∧ m ≠ 0)
    (streams : s.countP Dim.isStreaming = (o.eraseIdx slot).countP Dim.isStreaming) :
    Shape.size (s.filterMap Dim.extent?) = n * Shape.size ((o.eraseIdx slot).filterMap Dim.extent?) := by
  have rest := forall₂_eraseIdx filled slot
  have erased := streamed_eraseIdx o ns slot
  have within := erased.trans (streamed_sublist fun i m stream there => (carried i m stream there).1)
  have same := within.eq_of_length (by rw [length_streamed rest,length_streamed fits,streams])
  have positive : 0 < Shape.size (streamed s shape) := by
    rw [← same]
    refine Shape.size_pos fun m member => ?_
    obtain ⟨i,stream,there⟩ := mem_streamed (erased.subset member)
    exact (carried i m stream there).2
  have total := Shape.size_eraseIdx entry
  rw [size,size_split fits closed,size_split rest others,same,← Nat.mul_assoc] at total
  exact Nat.eq_of_mul_eq_mul_right positive total

end ShapeFact

namespace Reshape

variable {ins outs : Facts} {r : Facts × Facts} {x out : Fact} {t u : Tensor} {own : Option (List Int)}
  {target copied : List Int} {s : ShapeFact} {shape : Shape}

-- Extents of a target with its copies made: 0 stands for the extent of the input at its place.
def Copied (shape : Shape) (p : Int × Nat) (c : Int) : Prop :=
  if p.1 = 0 then ∃ n : Nat, shape[p.2]? = some n ∧ c = n else c = p.1

def copyExtent (shape : Shape) (axis : Nat) (d : Int) : Outcome Int :=
  if d = 0 then
    match shape[axis]? with
    | some n => .ok (n : Int)
    | none => fail (.reshapeCopiesMissing axis)
  else if d < -1 then fail (.reshapeInvalidExtent d)
  else .ok d

theorem copyExtents_cons {k : Nat} {d : Int} {ds : List Int} :
    copyExtents shape k (d :: ds) = copyExtent shape k d >>= fun c =>
      copyExtents shape (k + 1) ds >>= fun cs => .ok (c :: cs) := by
  rw [copyExtents,copyExtent]
  split
  · cases shape[k]? <;> rfl
  · split <;> rfl

theorem copyExtent_ok {k : Nat} {d c : Int} (found : copyExtent shape k d = .ok c) :
    Copied shape (d,k) c := by
  unfold copyExtent at found
  unfold Copied
  dsimp only
  split at found
  · rename_i zero
    rw [if_pos zero]
    split at found
    · rename_i n entry
      cases found
      exact ⟨n,entry,rfl⟩
    · cases found
  · rename_i other
    rw [if_neg other]
    split at found
    · cases found
    · cases found
      rfl

theorem copyExtents_ok {k : Nat} (found : copyExtents shape k target = .ok copied) :
    List.Forall₂ (Copied shape) (target.zipIdx k) copied := by
  induction target generalizing k copied with
  | nil =>
    cases found
    exact .nil
  | cons d ds ih =>
    rw [copyExtents_cons] at found
    obtain ⟨c,first,found⟩ := bind_ok.mp found
    obtain ⟨cs,others,equal⟩ := bind_ok.mp found
    cases equal
    exact .cons (copyExtent_ok first) (ih others)

-- The place of -1 takes what is left.
def fill (w : Int) (copied : List Int) : Shape := copied.map fun c => (if c = -1 then w else c).toNat

theorem toNat_copied {n : Nat} {w : Int} : (if (n : Int) = -1 then w else n).toNat = n := by
  rw [if_neg (by omega)]
  exact Int.toNat_natCast n

theorem foldl_mul_zero {ns : List Int} {k : Int} (zero : k = 0 ∨ 0 ∈ ns) : ns.foldl (· * ·) k = 0 := by
  induction ns generalizing k with
  | nil => exact zero.resolve_right List.not_mem_nil
  | cons n ns ih =>
    refine ih ?_
    rcases zero with rfl | member
    · exact .inl (Int.zero_mul n)
    · rcases List.mem_cons.mp member with rfl | later
      · exact .inl (Int.mul_zero k)
      · exact .inr later

theorem wordProduct_zero {ns : List Int} {k : Int} (found : wordProduct ns = .ok k) (other : k ≠ 0) :
    ∀ n ∈ ns, n ≠ 0 := by
  rintro n member rfl
  unfold wordProduct at found
  split at found
  · cases found
  · cases found
    apply other
    rw [foldl_mul_zero (.inr member)]
    rfl

theorem resolve_parts {dims : List Int} (found : resolve shape target = .ok dims) :
    ∃ copied w, List.Forall₂ (Copied shape) target.zipIdx copied ∧
      dims = copied.map (fun c => if c = -1 then w else c) ∧
        (-1 ∈ copied → ∀ c ∈ copied, c ≠ -1 → c ≠ 0) := by
  unfold resolve at found
  split at found
  · cases found
  · obtain ⟨copied,copies,found⟩ := bind_ok.mp found
    obtain ⟨total,_,found⟩ := bind_ok.mp found
    obtain ⟨known,product,found⟩ := bind_ok.mp found
    split at found
    · split at found
      · cases found
      · rename_i divides
        cases found
        refine ⟨copied,_,copyExtents_ok copies,rfl,fun _ c member apart => ?_⟩
        have other : known ≠ 0 := fun zero => by simp [zero] at divides
        exact wordProduct_zero product other c (List.mem_filter.mpr ⟨member,by simpa using apart⟩)
    · rename_i closed
      split at found
      · cases found
      · cases found
        rw [List.contains_iff_mem] at closed
        refine ⟨dims,0,copyExtents_ok copies,?_,fun open_ => absurd open_ closed⟩
        refine (List.map_id' dims).symm.trans (List.map_congr_left fun c member => ?_)
        rw [if_neg (ne_of_mem_of_not_mem member closed)]

theorem eval_parts {given : Option Tensor} (evaluated : eval own t given = .ok u) : ∃ ds copied w,
    Reshape.target own given = .ok ds ∧ List.Forall₂ (Copied t.shape) ds.zipIdx copied ∧
      (-1 ∈ copied → ∀ c ∈ copied, c ≠ -1 → c ≠ 0) ∧ u.dtype = t.dtype ∧ u.shape = fill w copied ∧
        u.shape.size = t.shape.size := by
  obtain ⟨ds,chosen,evaluated⟩ := bind_ok.mp evaluated
  obtain ⟨dims,resolved,applied⟩ := bind_ok.mp evaluated
  obtain ⟨copied,w,copies,rfl,nonzero⟩ := resolve_parts resolved
  unfold apply at applied
  dsimp only at applied
  split at applied
  · cases applied
  · split at applied
    · cases applied
    · rename_i fits
      cases applied
      simp only [Bool.or_eq_true,not_or,bne_iff_ne,ne_eq,Decidable.not_not] at fits
      refine ⟨ds,copied,w,chosen,copies,nonzero,rfl,List.map_map,?_⟩
      rw [← fits.2,Shape.size_eq_foldr]
      rfl

theorem outline_fits {w : Int} {input : Option ShapeFact} {o : ShapeFact}
    (fits : ∀ s, input = some s → s.Fits shape) (copies : List.Forall₂ (Copied shape) target.zipIdx copied)
    (found : outline input target = .ok o) : o.Fits (fill w copied) := by
  rw [ShapeFact.Fits,fill,List.forall₂_map_right_iff]
  refine mapM_keeps copies found ?_
  rintro ⟨d,i⟩ e c copy entry
  unfold Copied at copy
  dsimp only at copy entry
  split at entry
  · rename_i zero
    rw [if_pos zero] at copy
    obtain ⟨n,there,rfl⟩ := copy
    cases entry
    rw [toNat_copied]
    cases input with
    | none => rfl
    | some s =>
      rw [← List.getD_eq_getElem?_getD]
      exact (fits s rfl).entry there
  · rename_i other
    rw [if_neg other] at copy
    subst copy
    split at entry
    · cases entry
      rfl
    · rename_i apart
      rw [if_neg apart]
      exact Dim.ofInt_accepts entry rfl

-- A stream in the outline is copied from the input.
theorem outline_streams {w : Int} {o : ShapeFact} (copies : List.Forall₂ (Copied shape) target.zipIdx copied)
    (found : outline (some s) target = .ok o) {i n : Nat} (stream : o[i]? = some Dim.streaming)
    (entry : (fill w copied)[i]? = some n) :
    (s[i]? = some Dim.streaming ∧ shape[i]? = some n) ∧ (n : Int) ∈ copied := by
  obtain ⟨⟨d,j⟩,place,outlined⟩ := forall₂_getElem? (mapM_ok.mp found) stream
  obtain ⟨c,there,copy⟩ := forall₂_getElem? copies.flip place
  rw [List.getElem?_zipIdx,Option.map_eq_some_iff] at place
  obtain ⟨_,-,pair⟩ := place
  cases pair
  rw [fill,List.getElem?_map,there] at entry
  simp only [Nat.zero_add] at copy outlined
  split at outlined
  · rename_i zero
    rw [if_pos zero] at copy
    obtain ⟨m,extent,rfl⟩ := copy
    rw [Option.map_some,toNat_copied] at entry
    cases entry
    refine ⟨⟨?_,extent⟩,List.mem_of_getElem? there⟩
    cases known : s[i]? with
    | none => simp [known] at outlined
    | some d => simpa [known] using outlined
  · split at outlined
    · cases outlined
    · unfold Dim.ofInt at outlined
      split at outlined <;> cases outlined

-- The place of -1 in a target stays open when extents are copied.
theorem copied_slot (copies : List.Forall₂ (Copied shape) target.zipIdx copied)
    (open_ : target.contains (-1) = true) : copied[target.idxOf (-1)]? = some (-1) := by
  have place : target[target.idxOf (-1)]? = some (-1) :=
    List.getElem?_idxOf (List.contains_iff_mem.mp open_)
  have paired : target.zipIdx[target.idxOf (-1)]? = some (-1,target.idxOf (-1)) := by
    rw [List.getElem?_zipIdx,place,Nat.zero_add]
    rfl
  obtain ⟨c,there,copy⟩ := forall₂_getElem? copies.flip paired
  cases copy
  exact there

theorem inferDims_fits {w : Int} {input : Option ShapeFact} {dims : ShapeFact}
    (fits : ∀ s, input = some s → s.Fits shape) (copies : List.Forall₂ (Copied shape) target.zipIdx copied)
    (nonzero : -1 ∈ copied → ∀ c ∈ copied, c ≠ -1 → c ≠ 0) (size : (fill w copied).size = shape.size)
    (found : inferDims input target = .ok dims) : dims.Fits (fill w copied) := by
  obtain ⟨o,outlined,found⟩ := bind_ok.mp found
  have filled := outline_fits (w := w) fits copies outlined
  cases input with
  | none =>
    cases found
    exact filled
  | some s =>
    dsimp only at found
    split at found
    · cases found
      exact filled
    · rename_i closed
      have closed := Bool.eq_false_iff.mpr closed
      split at found
      · split at found
        · split at found
          · cases found
          · cases found
            exact filled
        · cases found
          exact filled
      · split at found
        · cases found
          exact filled
        · rename_i open_ others
          have others := Bool.eq_false_iff.mpr others
          have slot := copied_slot copies (by simpa using open_)
          have entry : (fill w copied)[target.idxOf (-1)]? = some w.toNat := by
            rw [fill,List.getElem?_map,slot]
            rfl
          split at found
          · rename_i streams
            split at found
            · cases found
            · rename_i divides
              cases found
              simp only [Bool.or_eq_true,decide_eq_true_eq,not_or] at divides
              refine filled.set entry (Dim.accepts_known.mpr ?_)
              refine Nat.div_eq_of_eq_mul_left (Nat.pos_of_ne_zero divides.1)
                (ShapeFact.left_factor (fits s rfl) filled closed others entry size ?_ streams)
              intro i n stream there
              obtain ⟨origin,member⟩ := outline_streams copies outlined stream there
              have other := nonzero (List.mem_of_getElem? slot) n member (by omega)
              exact ⟨origin,by omega⟩
          · split at found
            · cases found
              exact filled.set entry rfl
            · cases found
              exact filled

theorem targetOf_same {s : Tensor} (same : t.same s = true) : targetOf t = targetOf s := by
  obtain ⟨dtype,shape,length,elements⟩ := Tensor.same_parts.mp same
  have pairs := List.forall₂_iff_zip.mpr ⟨length,fun {x y} member => elements (x,y) member⟩
  unfold targetOf Tensor.rank
  rw [dtype,shape]
  congr 2
  clear length elements
  generalize t.data = xs, s.data = ys at pairs
  induction pairs with
  | nil => rfl
  | @cons x y _ _ head _ ih =>
    cases x with
    | object => cases y <;> first | cases head | simpa using ih
    | float | int | bool | text =>
      cases Scalar.eq_of_same (by simp) head
      simp [ih]

theorem passType_accept {p : Facts × Fact} {ts : List Tensor} (input : Accept ins (t :: ts))
    (output : out.accepts u = true) (dtype : u.dtype = t.dtype) (found : passType ins out = .ok p) :
    Accept p.1 (t :: ts) ∧ p.2.accepts u = true := by
  unfold passType at found
  split at found
  · rename_i d known
    obtain ⟨o,typed,equal⟩ := bind_ok.mp found
    cases equal
    exact ⟨input,Fact.withDType_accepts output typed (dtype.trans (Fact.accepts_dtype input.first known))⟩
  · rename_i d none known
    split at found
    · cases found
    · obtain ⟨x,typed,equal⟩ := bind_ok.mp found
      cases equal
      have same := dtype.symm.trans (Fact.accepts_dtype output known)
      exact ⟨forall₂_set input 0 (Fact.withDType_accepts input.first typed same),output⟩
  · cases found
    exact ⟨input,output⟩

theorem conclude_sound {w : Int} {input : Option ShapeFact} {ts : List Tensor} (inputs : Accept ins ts)
    (output : out.accepts u = true) (shape : u.shape = fill w copied)
    (dims : ∀ ds dims, given = some ds → inferDims input ds = .ok dims → dims.Fits (fill w copied))
    (found : conclude input ins out given = .ok r) : Hold r ts [u] := by
  unfold conclude at found
  split at found
  · cases found
    exact ⟨inputs,accept_one output⟩
  · rename_i ds
    obtain ⟨o,inferred,found⟩ := bind_ok.mp found
    obtain ⟨x,shaped,equal⟩ := bind_ok.mp found
    cases equal
    exact ⟨inputs,accept_one (Fact.withDims_accepts output shaped (shape ▸ dims ds o rfl inferred))⟩

theorem targetOf_rank {ds : List Int} (found : targetOf t = .ok ds) : t.shape.length = 1 := by
  unfold targetOf at found
  split at found
  · rename_i row
    exact eq_of_beq (Bool.and_eq_true_iff.mp row).2
  · cases found

-- The row of a second input is read while its value is known, and the operator's own target otherwise.
theorem readTarget_row {row : Tensor} {fs : Facts} {ds : List Int} {q : Facts × Option (List Int)}
    (chosen : targetOf row = .ok ds) (input : Accept fs [t,row]) (found : readTarget own fs = .ok q) :
    Accept q.1 [t,row] ∧ q.2 = if (fs.getD 1 .unknown).value = none then own else some ds := by
  match input with
  | .cons (a := a) first (.cons (a := b) second .nil) =>
    rw [readTarget_two] at found
    obtain ⟨c,shaped,found⟩ := bind_ok.mp found
    have second := Fact.withDims_accepts second shaped (ShapeFact.fits_unknown (targetOf_rank chosen))
    have input : Accept [a,c] [t,row] := .cons first (.cons second .nil)
    change _ ∧ _ = if b.value = none then _ else _
    rw [← Fact.withDims_value shaped]
    split at found
    · rename_i v known
      obtain ⟨es,read,equal⟩ := bind_ok.mp found
      cases equal
      rw [targetOf_same (Fact.accepts_value second known),chosen] at read
      cases read
      exact ⟨input,by simp [known]⟩
    · rename_i unknown
      cases found
      exact ⟨input,by simp [unknown]⟩

theorem readTarget_accept {given : Option Tensor} {fs : Facts} {ds : List Int} {q : Facts × Option (List Int)}
    (apart : own = none ∨ given = none) (chosen : Reshape.target own given = .ok ds)
    (input : Accept fs (t :: given.toList)) (found : readTarget own fs = .ok q) :
    Accept q.1 (t :: given.toList) ∧ ∀ es, q.2 = some es → es = ds := by
  cases given with
  | none =>
    match input with
    | .cons first .nil =>
      cases found
      refine ⟨accept_one first,fun es known => ?_⟩
      subst known
      exact Except.ok.inj chosen
  | some s =>
    obtain rfl := apart.resolve_right nofun
    obtain ⟨inputs,used⟩ := readTarget_row chosen input found
    refine ⟨inputs,fun es known => ?_⟩
    rw [used] at known
    split at known
    · cases known
    · exact (Option.some.inj known).symm

theorem infer_sound {given : Option Tensor} (apart : own = none ∨ given = none)
    (evaluated : eval own t given = .ok u) (input : Accept ins (t :: given.toList))
    (output : Accept outs [u]) (found : infer own ins outs = .ok r) : Hold r (t :: given.toList) [u] := by
  obtain ⟨ds,copied,w,chosen,copies,nonzero,dtype,shape,size⟩ := eval_parts evaluated
  rw [infer_eq] at found
  obtain ⟨⟨fs,o⟩,typed,found⟩ := bind_ok.mp found
  obtain ⟨⟨gs,target⟩,read,found⟩ := bind_ok.mp found
  obtain ⟨typedIns,typedOut⟩ := passType_accept input output.first dtype typed
  obtain ⟨inputs,same⟩ := readTarget_accept apart chosen typedIns read
  refine conclude_sound inputs typedOut shape (fun es dims known inferred => ?_) found
  obtain rfl := same es known
  rw [shape] at size
  exact inferDims_fits (fun _ known => Fact.accepts_fits input.first known) copies nonzero size inferred

end Reshape

end TensorGraph
