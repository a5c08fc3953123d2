import TensorGraph.Proofs.Fact.Told
import TensorGraph.Proofs.Op.Exact

namespace TensorGraph
open Outcome Facts

variable {ins outs newIns newOuts : Facts} {r : Facts × Facts} {x out : Fact} {t u v w row : Tensor}

namespace Reshape

variable {own given : Option (List Int)} {form : Option Tensor} {input : Option ShapeFact} {ds : List Int}
  {shape : Shape}

-- What the rule takes from a target of the operator's own allows for this shape of the result.
def Allows (own : Option (List Int)) (input : Option ShapeFact) (shape : Shape) : Prop :=
  ∀ ds dims, own = some ds → inferDims input ds = .ok dims → dims.Fits shape

theorem passType_second {p : Facts × Fact} (found : passType ins out = .ok p) (d : Fact) :
    List.getD p.1 1 d = List.getD ins 1 d := by
  unfold passType at found
  split at found
  · obtain ⟨o,-,equal⟩ := bind_ok.mp found
    cases equal
    rfl
  · split at found
    · cases found
    · obtain ⟨x,-,equal⟩ := bind_ok.mp found
      cases equal
      simp [List.getD_eq_getElem?_getD]
  · cases found
    rfl

theorem conclude_accepts (output : out.accepts u = true) (found : conclude input ins out given = .ok r) :
    r.1 = ins ∧ (Accept r.2 [u] ↔ Allows given input u.shape) := by
  unfold conclude at found
  split at found
  · cases found
    exact ⟨rfl,iff_of_true (accept_one output) nofun⟩
  · rename_i ds
    obtain ⟨dims,inferred,found⟩ := bind_ok.mp found
    obtain ⟨o,shaped,equal⟩ := bind_ok.mp found
    cases equal
    refine ⟨rfl,accept_one_iff.trans ((Fact.accepts_withDims shaped).trans ?_)⟩
    constructor
    · rintro ⟨-,fits⟩ _ _ known again
      cases known
      cases inferred.symm.trans again
      exact fits
    · exact fun allows => ⟨output,allows ds dims rfl inferred⟩

-- The target that evaluation uses allows for its result.
theorem allows_chosen (evaluated : eval own t form = .ok u) (chosen : Reshape.target own form = .ok ds)
    (fits : ∀ s, input = some s → s.Fits t.shape) : Allows (some ds) input u.shape := by
  obtain ⟨_,copied,w,again,copies,nonzero,-,shape,size⟩ := eval_parts evaluated
  cases chosen.symm.trans again
  rintro _ dims known inferred
  cases known
  rw [shape] at size ⊢
  exact inferDims_fits fits copies nonzero size inferred

theorem allows_own (evaluated : eval own t none = .ok u) (fits : ∀ s, input = some s → s.Fits t.shape) :
    Allows own input u.shape := by
  obtain ⟨ds,chosen,-⟩ := bind_ok.mp evaluated
  exact target_own chosen ▸ allows_chosen evaluated chosen fits

theorem eval_reshapes (evaluated : eval own t form = .ok u) : u = t.reshape u.shape := by
  obtain ⟨_,-,evaluated⟩ := bind_ok.mp evaluated
  obtain ⟨dims,-,applied⟩ := bind_ok.mp evaluated
  unfold apply at applied
  dsimp only at applied
  split at applied
  · cases applied
  · split at applied
    · cases applied
    · cases applied
      rfl

-- A shape that is known leads the operator's own target to its own result, and to no other.
theorem allows_iff (evaluated : eval own t form = .ok u) (alone : eval own t none = .ok v) :
    Allows own (some (.ofShape t.shape)) u.shape ↔ u = v := by
  constructor
  · intro allows
    obtain ⟨ds,chosen,-⟩ := bind_ok.mp alone
    have fits := allows ds _ (target_own chosen) (dims_exact alone chosen)
    rw [eval_reshapes evaluated,eval_reshapes alone,ShapeFact.fits_ofShape.mp fits]
  · rintro rfl
    refine allows_own alone fun s known => ?_
    cases known
    exact ShapeFact.fits_ofShape.mpr rfl

-- The rule reads the operator's own target while it does not know the row that evaluation reads instead. What it
-- says of the inputs is true, and what it says of the result is true exactly if that target allows for it: it
-- does if it leads to the result itself, and where the shape of the data is known it does only then.
theorem infer_overridden (evaluated : eval own t (some row) = .ok u) (input : Accept ins [t,row])
    (output : Accept outs [u]) (found : infer own ins outs = .ok (newIns,newOuts)) :
    Accept newIns [t,row] ∧
      (Accept newOuts [u] ↔
        ((ins.getD 1 .unknown).value = none → Allows own (Facts.first ins).shape u.shape)) ∧
      (eval own t none = .ok u → Allows own (Facts.first ins).shape u.shape) ∧
      ∀ v, eval own t none = .ok v → (Facts.first ins).shape = some (.ofShape t.shape) →
        (Allows own (Facts.first ins).shape u.shape ↔ u = v) := by
  obtain ⟨ds,chosen,-⟩ := bind_ok.mp evaluated
  obtain ⟨_,_,_,-,-,-,dtype,-,-⟩ := eval_parts evaluated
  have fits : ∀ s, (Facts.first ins).shape = some s → s.Fits t.shape := fun s known =>
    Fact.accepts_fits input.first known
  rw [infer_eq] at found
  obtain ⟨⟨fs,o⟩,typed,found⟩ := bind_ok.mp found
  obtain ⟨⟨gs,target⟩,read,found⟩ := bind_ok.mp found
  obtain ⟨typedIns,typedOut⟩ := passType_accept input output.first dtype typed
  obtain ⟨inputs,used⟩ := readTarget_row chosen typedIns read
  rw [passType_second typed] at used
  dsimp only at used found
  obtain ⟨rfl,exact_⟩ := conclude_accepts typedOut found
  refine ⟨inputs,exact_.trans ?_,fun alone => allows_own alone fits,fun v alone known => ?_⟩
  · subst used
    split
    · rename_i unknown
      exact ⟨fun allows _ => allows,fun allows => allows unknown⟩
    · rename_i known
      exact iff_of_true (allows_chosen evaluated chosen fits) fun unknown => absurd unknown known
  · rw [known]
    exact allows_iff evaluated alone

def six : Tensor := ⟨.f64,[6],List.replicate 6 (.float .one)⟩

def sides (i j : Int) : Tensor := ⟨.i64,[2],[.int i,.int j]⟩

def sixFact : Fact := .outline (some .f64) (some (.ofShape [6]))

def sidesFact : Fact := .outline (some .i64) (some (.ofShape [2]))

-- A row that is not known and asks for what the operator's own target leads to.
theorem infer_overridden_agreed :
    eval (some [2,-1]) six (some (sides 2 3)) = .ok (six.reshape [2,3]) ∧
      infer (some [2,-1]) [sixFact,sidesFact] [.unknown] =
        .ok ([sixFact,sidesFact],[.outline (some .f64) (some (.ofShape [2,3]))]) ∧
      Accept [.outline (some .f64) (some (.ofShape [2,3]))] [six.reshape [2,3]] := by
  have evaluated : eval (some [2,-1]) six (some (sides 2 3)) = .ok (six.reshape [2,3]) := rfl
  have alone : eval (some [2,-1]) six none = .ok (six.reshape [2,3]) := rfl
  have inferred : infer (some [2,-1]) [sixFact,sidesFact] [.unknown] =
      .ok ([sixFact,sidesFact],[.outline (some .f64) (some (.ofShape [2,3]))]) := rfl
  obtain ⟨-,exact_,agreed,-⟩ :=
    infer_overridden evaluated (.cons rfl (.cons rfl .nil)) (.cons rfl .nil) inferred
  exact ⟨evaluated,inferred,exact_.mpr fun _ => agreed alone⟩

-- The result has the shape that the row asks for, and the rule finds the one of the operator's own target.
theorem infer_misled :
    Op.ofReshape [("shape",.datum (.list [.int 2,.int 3]))] = .ok (.reshape (some [2,3])) ∧
    eval (some [2,3]) six (some (sides 3 2)) = .ok (six.reshape [3,2]) ∧
      Accept [sixFact,sidesFact] [six,sides 3 2] ∧ Accept [.unknown] [six.reshape [3,2]] ∧
        infer (some [2,3]) [sixFact,sidesFact] [.unknown] =
          .ok ([sixFact,sidesFact],[.outline (some .f64) (some (.ofShape [2,3]))]) ∧
        ¬ Accept [.outline (some .f64) (some (.ofShape [2,3]))] [six.reshape [3,2]] := by
  refine ⟨rfl,rfl,.cons rfl (.cons rfl .nil),.cons rfl .nil,rfl,fun accept => ?_⟩
  cases accept with
  | cons head _ => cases head

end Reshape

namespace Convolution

variable {c : Convolution} {k k' : Fact} {bias : Option Tensor}

-- A kernel fact holds of the kernel once it has been told extents, if they are those of the kernel.
theorem declareKernel_accepts (kernel : k.accepts w = true) (rank : w.shape.length = 4)
    (found : c.declareKernel k = .ok k') : k'.accepts w = true ↔ c.Declares w.shape := by
  unfold declareKernel at found
  unfold Declares
  cases declared : c.kernelShape with
  | none =>
    rw [declared] at found
    cases found
    exact iff_of_true kernel nofun
  | some spatial =>
    obtain ⟨h,v⟩ := spatial
    rw [declared] at found
    obtain ⟨d,high,found⟩ := bind_ok.mp found
    obtain ⟨e,wide,found⟩ := bind_ok.mp found
    obtain ⟨n,m,i,j,shape⟩ := shape_of_rank rank
    have fits : ShapeFact.Fits (if c.kernelSpatialFirst then [d,e] ++ [.unknown,.unknown]
        else [.unknown,.unknown] ++ [d,e]) w.shape ↔
          h = w.shape.getD c.kernelAxes.2.2.1 0 ∧ v = w.shape.getD c.kernelAxes.2.2.2 0 := by
      have open_ (a : Nat) : Dim.unknown.accepts a = true := rfl
      rw [shape]
      unfold kernelAxes ShapeFact.Fits
      split <;> simp [open_,Dim.ofInt_accepts_iff high,Dim.ofInt_accepts_iff wide]
    rw [Fact.accepts_withDims found,fits]
    exact ⟨fun parts _ _ equal => by cases equal; exact parts.2,fun declares => ⟨kernel,declares h v rfl⟩⟩

-- The kernel that the answer gives back holds of no more than the one it was given.
theorem answer_kernel {rest : Facts} {ts : List Tensor} (found : answer c x k out rest = .ok r)
    (accept : Accept r.1 (t :: w :: ts)) : k.accepts w = true := by
  unfold answer at found
  dsimp only at found
  split at found
  · obtain ⟨dims,-,found⟩ := bind_ok.mp found
    obtain ⟨o,-,equal⟩ := bind_ok.mp found
    cases equal
    match accept with
    | .cons _ (.cons kernel _) => exact kernel
  · obtain ⟨b,-,found⟩ := bind_ok.mp found
    obtain ⟨k',refined,found⟩ := bind_ok.mp found
    obtain ⟨dims,-,found⟩ := bind_ok.mp found
    obtain ⟨o,-,equal⟩ := bind_ok.mp found
    cases equal
    match accept with
    | .cons _ (.cons kernel _) => exact ((Fact.accepts_withDims refined).mp kernel).1

-- The rule takes the extents of the kernel to be the declared ones, and evaluation takes those it has. What the
-- rule says of data, kernel, bias and result is true exactly if these are the same.
theorem infer_declared (evaluated : c.eval t w bias = .ok u) (input : Accept ins (t :: w :: bias.toList))
    (output : Accept outs [u]) (found : c.infer ins outs = .ok r) :
    Hold r (t :: w :: bias.toList) [u] ↔ c.Declares w.shape := by
  obtain ⟨x,k,k',out,others,data,fits,kernel,declared,rest,result,answered⟩ :=
    infer_parts evaluated input output found
  obtain ⟨-,rank,-,-,biased,covers⟩ := eval_parts evaluated
  have told := declareKernel_accepts kernel rank declared
  exact ⟨fun hold => told.mp (answer_kernel answered hold.1),fun declares =>
    answer_sound rank biased covers data fits (told.mpr declares) rest result answered⟩

def declaring (h v : Int) : Convolution := ⟨(1,1),(1,1),.valid,1,some (h,v),false,false⟩

def blank (h v : Nat) : Tensor := ⟨.f64,[1,1,h,v],List.replicate (h * v) (.zero .f64)⟩

def blankFact : Fact := .outline (some .f64) (some (.ofShape [1,1,2,2]))

-- A kernel that is not known, with the extents that it is declared to have.
theorem infer_declared_right :
    (declaring 1 1).eval (blank 2 2) (blank 1 1) none = .ok (blank 2 2) ∧
      (declaring 1 1).infer [blankFact,.unknown] [.unknown] = .ok ([blankFact,.outline (some .f64)
        (some [.unknown,.unknown,.known 1,.known 1])],
          [.outline (some .f64) (some [.known 1,.unknown,.known 2,.known 2])]) ∧
      Hold ([blankFact,.outline (some .f64) (some [.unknown,.unknown,.known 1,.known 1])],
        [.outline (some .f64) (some [.known 1,.unknown,.known 2,.known 2])]) [blank 2 2,blank 1 1] [blank 2 2] := by
  have evaluated : (declaring 1 1).eval (blank 2 2) (blank 1 1) none = .ok (blank 2 2) := rfl
  have inferred : (declaring 1 1).infer [blankFact,.unknown] [.unknown] = .ok ([blankFact,.outline (some .f64)
      (some [.unknown,.unknown,.known 1,.known 1])],
        [.outline (some .f64) (some [.known 1,.unknown,.known 2,.known 2])]) := rfl
  refine ⟨evaluated,inferred,(infer_declared evaluated (.cons rfl (.cons rfl .nil)) (.cons rfl .nil) inferred).mpr ?_⟩
  intro h v declared
  cases declared
  exact ⟨rfl,rfl⟩

-- A kernel of one element that is declared to have four.
theorem infer_misdeclared :
    Op.ofConv [("kernel_shape",.datum (.list [.int 2,.int 2]))] = .ok (.conv (declaring 2 2)) ∧
    (declaring 2 2).eval (blank 2 2) (blank 1 1) none = .ok (blank 2 2) ∧
      Accept [blankFact,.unknown] [blank 2 2,blank 1 1] ∧ Accept [.unknown] [blank 2 2] ∧
        (declaring 2 2).infer [blankFact,.unknown] [.unknown] = .ok ([blankFact,.outline (some .f64)
          (some [.unknown,.unknown,.known 2,.known 2])],
            [.outline (some .f64) (some [.known 1,.unknown,.known 1,.known 1])]) ∧
        ¬ Accept [.outline (some .f64) (some [.known 1,.unknown,.known 1,.known 1])] [blank 2 2] := by
  refine ⟨rfl,rfl,.cons rfl (.cons rfl .nil),.cons rfl .nil,rfl,fun accept => ?_⟩
  cases accept with
  | cons head _ => cases head

end Convolution

end TensorGraph
