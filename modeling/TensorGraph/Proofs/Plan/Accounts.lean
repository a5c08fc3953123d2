import TensorGraph.Proofs.Plan.Binding

namespace TensorGraph.Plan
open Outcome

variable {p : Plan} {g : Graph} {bound : Bindings}

-- Where a run stands after some nodes, when some uses are still to come: the counters tell these
-- uses, and kept is exactly what they and the caller need, each outlet with its meaning.
structure Accounts (p : Plan) (g : Graph) (bound : Bindings) (done : List Int) (waiting : List Outlet)
    (s : Progress) : Prop where
  remaining : ∀ o, (s.remaining.get? o).getD 0 = waiting.count o
  cache : ∀ o t, s.cache.get? o = some t ↔
    o.node ∈ done ∧ Value p g bound o t ∧ (o ∈ waiting ∨ o ∈ p.outputs)

section Release
variable {done : List Int} {o : Outlet} {waiting : List Outlet} {s : Progress}

-- One use less is to come of an outlet that is used.
theorem Accounts.counted (accounts : Accounts p g bound done (o :: waiting) s) :
    s.remaining.get? o = some ((waiting.count o : Int) + 1) ∧
      ∀ q, ((s.remaining.set o (waiting.count o)).get? q).getD 0 = waiting.count q := by
  constructor
  · have uses := accounts.remaining o
    rw [List.count_cons_self] at uses
    cases counter : s.remaining.get? o with
    | none => rw [counter,Option.getD_none] at uses; omega
    | some k => rw [counter,Option.getD_some] at uses; exact congrArg some (by omega)
  · intro q
    rw [Table.get?_set]
    split
    · rename_i here
      rw [here,Option.getD_some]
    · rename_i here
      rw [accounts.remaining q,List.count_cons_of_ne (Ne.symm here)]

-- After its last use an outlet is dropped, and nothing else is.
theorem Accounts.dropped (accounts : Accounts p g bound done (o :: waiting) s) (unused : o ∉ waiting)
    (unasked : o ∉ p.outputs) : Accounts p g bound done waiting
      { s with remaining := s.remaining.set o (waiting.count o), cache := s.cache.erase o } := by
  refine ⟨accounts.counted.2,fun q u => ?_⟩
  dsimp only
  rw [Table.get?_erase]
  by_cases here : q = o
  · subst here
    simp [unused,unasked]
  · rw [if_neg here,accounts.cache q u,List.mem_cons,or_iff_right here]

-- An outlet that is used again, or asked for, stays.
theorem Accounts.kept (accounts : Accounts p g bound done (o :: waiting) s) (needed : o ∈ waiting ∨ o ∈ p.outputs) :
    Accounts p g bound done waiting { s with remaining := s.remaining.set o (waiting.count o) } := by
  refine ⟨accounts.counted.2,fun q u => ?_⟩
  dsimp only
  rw [accounts.cache q u,List.mem_cons]
  by_cases here : q = o
  · subst here
    simp [needed]
  · rw [or_iff_right here]

theorem release_ok {t : Tensor} (accounts : Accounts p g bound done (o :: waiting) s) (known : o.node ∈ done)
    (value : Value p g bound o t) :
    ∃ s', p.release s o = .ok s' ∧ Accounts p g bound done waiting s' ∧ s'.stats = s.stats := by
  have held : s.cache.get? o = some t := (accounts.cache o t).mpr ⟨known,value,.inl List.mem_cons_self⟩
  unfold release
  rw [Table.get_ok.mpr accounts.counted.1,ok_bind,Int.add_sub_cancel]
  dsimp only
  split
  · rename_i last
    simp only [Bool.and_eq_true,decide_eq_true_eq,Bool.not_eq_true',List.contains_eq_mem,
      decide_eq_false_iff_not] at last
    rw [Table.get_ok.mpr held,ok_bind]
    exact ⟨_,rfl,accounts.dropped (List.count_eq_zero.mp (by omega)) last.2,rfl⟩
  · rename_i last
    refine ⟨_,rfl,accounts.kept ?_,rfl⟩
    by_contra gone
    obtain ⟨unused,unasked⟩ := not_or.mp gone
    exact last (by simp [unasked,List.count_eq_zero.mpr unused])

end Release

theorem releases_ok {done : List Int} {os waiting : List Outlet} {s : Progress}
    (accounts : Accounts p g bound done (os ++ waiting) s)
    (values : ∀ o ∈ os, o.node ∈ done ∧ ∃ t, Value p g bound o t) :
    ∃ s', os.foldlM p.release s = .ok s' ∧ Accounts p g bound done waiting s' ∧ s'.stats = s.stats := by
  induction os generalizing s with
  | nil => exact ⟨s,rfl,accounts,rfl⟩
  | cons o os ih =>
    obtain ⟨⟨known,t,value⟩,rest⟩ := List.forall_mem_cons.mp values
    obtain ⟨middle,released,between,stats⟩ := release_ok accounts known value
    obtain ⟨s',ran,after,same⟩ := ih between rest
    exact ⟨s',by rw [List.foldlM_cons,released]; exact ran,after,same.trans stats⟩

theorem keep_from (needed : Outlet → Bool) {produced : List (Outlet × Tensor)} {cache : Table Tensor}
    (distinct : (produced.map (·.1)).Nodup) (fresh : ∀ e ∈ produced, cache.get? e.1 = none)
    (o : Outlet) (t : Tensor) :
    (produced.foldl (fun cache (o,v) => if needed o then cache.set o v else cache) cache).get? o = some t ↔
      cache.get? o = some t ∨ (o,t) ∈ produced ∧ needed o = true := by
  induction produced generalizing cache with
  | nil => simp
  | cons e produced ih =>
    obtain ⟨q,v⟩ := e
    rw [List.map_cons,List.nodup_cons] at distinct
    obtain ⟨here,rest⟩ := List.forall_mem_cons.mp fresh
    have others : ∀ e ∈ produced, e.1 ≠ q := by
      intro e member equal
      exact distinct.1 (List.mem_map.mpr ⟨e,member,equal⟩)
    rw [List.foldl_cons,ih distinct.2]
    · dsimp only at here ⊢
      by_cases need : needed q = true
      · rw [if_pos need,Table.get?_set]
        by_cases equal : o = q
        · subst equal
          simp [here,need,eq_comm]
        · simp [equal]
      · rw [if_neg need]
        simp only [List.mem_cons,Prod.mk.injEq]
        by_cases equal : o = q
        · subst equal
          simp [need]
        · simp [equal]
    · intro e member
      dsimp only
      split
      · rw [Table.get?_set,if_neg (others e member)]
        exact rest e member
      · exact rest e member

-- A node the evaluation of which fails, on the tensors that its inputs stand for.
structure Fails (p : Plan) (g : Graph) (bound : Bindings) (id : Int) (f : Fault) : Prop where
  unbound : bound.lookup id = none
  computed : id ∉ p.folded
  evaluates : ∃ n args, g.get? id = some n ∧ List.Forall₂ (Value p g bound) n.inputs args ∧
    evaluate n args = .error f

theorem requested_outlet (wired : g.Wired) {r : OutletRef} {o : Outlet} (requested : request g r = .ok o) :
    g.HasOutlet o := by
  have found : ∃ n, ∃ slot : Int, g.get? n.id = some n ∧
      (if 0 ≤ slot && slot < n.operator.outputCount then .ok ⟨Int.ofNat n.id,slot⟩
        else n.fail (.requestedSlotMissing slot n.opType n.operator.outputCount)) = .ok o := by
    unfold request at requested
    cases r with
    | node ref =>
      obtain ⟨n,named,checked⟩ := bind_ok.mp requested
      exact ⟨n,0,resolve_known wired.numbered named,checked⟩
    | outlet q =>
      obtain ⟨n,there,checked⟩ := bind_ok.mp requested
      have there := Graph.node_ok.mp there
      refine ⟨n,q.slot,?_,checked⟩
      rw [wired.numbered.id_eq there]
      exact there
  obtain ⟨n,slot,found,checked⟩ := found
  split at checked
  · rename_i within
    cases checked
    simp only [Bool.and_eq_true,decide_eq_true_eq] at within
    exact ⟨n,found,within⟩
  · cases checked

theorem taken_outlet (wired : g.Wired) {ids : List Int} {o : Outlet} (source : o ∈ taken p g ids) : g.HasOutlet o := by
  obtain ⟨id,-,-,n,found,source⟩ := mem_taken.mp source
  exact wired.sources n (Graph.get?_mem found) o source

-- What a run has a use for: what the caller asked for, and what computed nodes take.
theorem used_outlet (wired : g.Wired) (laid : p.Laid g refs) {ids : List Int} {o : Outlet}
    (used : o ∈ p.outputs ∨ o ∈ taken p g ids) : g.HasOutlet o := by
  rcases used with requested | source
  · obtain ⟨r,-,named⟩ := forall₂_right laid.outputs o requested
    exact requested_outlet wired named
  · exact taken_outlet wired source

-- What is fed is one tensor, which stands for the first output of a node. Its other outputs have none.
def Starved (p : Plan) (g : Graph) : Prop :=
  ∃ o, g.isInput o.node = true ∧ o.slot ≠ 0 ∧ (o ∈ p.outputs ∨ o ∈ taken p g p.schedule)

-- What a run may rely on: a plan of the graph as it is, and feeds that were accepted for it.
structure Ready (p : Plan) (g : Graph) (refs : List OutletRef) (bound : Bindings) : Prop where
  wired : g.Wired
  laid : p.Laid g refs
  fed : ¬ p.Starved g
  designated : ∀ id, (bound.lookup id).isSome = true → g.isInput id = true
  required : ∀ id ∈ p.required, (bound.lookup id).isSome = true

theorem mem_inputs {id : Int} : g.isInput id = true ↔ id ∈ g.inputs := by
  unfold Graph.isInput
  simp

-- Every outlet that a run has a use for means something when its node does.
theorem value_of_means (ready : Ready p g refs bound) {o : Outlet} {ts : List Tensor}
    (used : o ∈ p.outputs ∨ o ∈ taken p g p.schedule) (means : Means p g bound o.node ts) :
    ∃ t, Value p g bound o t := by
  obtain ⟨n,found,low,high⟩ := used_outlet ready.wired ready.laid used
  have within : o.slot.toNat < ts.length := by
    cases means with
    | fed bound =>
      have designated := ready.designated o.node (by simp [bound])
      have first : o.slot = 0 := by_contra fun other => ready.fed ⟨o,designated,other,used⟩
      simp [first]
    | folded _ _ found' _ values =>
      rw [found] at found'
      cases found'
      rw [←values.length_eq,Node.outlets_length]
      omega
    | evaluated _ _ found' _ _ _ count =>
      rw [found] at found'
      cases found'
      omega
  exact ⟨ts[o.slot.toNat],low,ts,means,List.getElem?_eq_getElem within⟩

theorem value_of_node {n : Node} {ts : List Tensor} {o : Outlet} {t : Tensor}
    (means : Means p g bound n.id ts) (here : o.node = n.id) :
    Value p g bound o t ↔ 0 ≤ o.slot ∧ ts[o.slot.toNat]? = some t := by
  unfold Value
  rw [here]
  constructor
  · rintro ⟨low,us,other,at_⟩
    rw [means.unique other]
    exact ⟨low,at_⟩
  · exact fun ⟨low,at_⟩ => ⟨low,ts,means,at_⟩

-- Keeping what a node produced, as far as it is needed.
theorem keep_accounts (ready : Ready p g refs bound) {done : List Int} {waiting : List Outlet}
    {s : Progress} {n : Node} {ts : List Tensor} (accounts : Accounts p g bound done waiting s)
    (fresh : (n.id : Int) ∉ done) (found : g.get? n.id = some n) (means : Means p g bound n.id ts)
    (exist : ∀ o ∈ waiting, g.HasOutlet o) (stats : RunStats) :
    Accounts p g bound (done ++ [(n.id : Int)]) waiting ⟨p.keep s (n.outlets.zip ts),s.remaining,stats⟩ := by
  refine ⟨accounts.remaining,?_⟩
  intro o t
  have distinct : ((n.outlets.zip ts).map (·.1)).Nodup := by
    rw [List.zip_eq_zip_take_min,List.map_fst_zip (by simp)]
    exact n.outlets_nodup.sublist (List.take_sublist _ _)
  have absent : ∀ e ∈ n.outlets.zip ts, s.cache.get? e.1 = none := by
    rintro ⟨q,u⟩ member
    have here := (Node.mem_outlets.mp (mem_zip_outlets.mp member).1).1
    refine Option.eq_none_iff_forall_ne_some.mpr fun v entry => ?_
    exact fresh (here ▸ ((accounts.cache q v).mp entry).1)
  have needed : (decide (0 < (s.remaining.get? o).getD 0) || p.outputs.contains o) = true ↔
      o ∈ waiting ∨ o ∈ p.outputs := by
    rw [accounts.remaining o,Bool.or_eq_true,decide_eq_true_eq]
    simp [List.count_pos_iff]
  have kept := keep_from (fun o => decide (0 < (s.remaining.get? o).getD 0) || p.outputs.contains o)
    distinct absent o t
  rw [needed,mem_zip_outlets,accounts.cache o t] at kept
  refine kept.trans ?_
  rw [List.mem_append,List.mem_singleton]
  constructor
  · rintro (⟨known,value,need⟩ | ⟨⟨outlet,at_⟩,need⟩)
    · exact ⟨.inl known,value,need⟩
    · obtain ⟨here,low,-⟩ := Node.mem_outlets.mp outlet
      exact ⟨.inr here,(value_of_node means here).mpr ⟨low,at_⟩,need⟩
  · rintro ⟨known | here,value,need⟩
    · exact .inl ⟨known,value,need⟩
    · have has : g.HasOutlet o := need.elim (exist o) fun asked =>
        used_outlet ready.wired ready.laid (.inl asked : o ∈ p.outputs ∨ o ∈ taken p g [])
      obtain ⟨low,at_⟩ := (value_of_node means here).mp value
      obtain ⟨m,there,-,high⟩ := has
      rw [here,found] at there
      cases there
      exact .inr ⟨⟨Node.mem_outlets.mpr ⟨here,low,high⟩,at_⟩,need⟩

-- Whether a run evaluates a node, rather than take its tensors from a feed or the analysis.
def evaluates (p : Plan) (bound : Bindings) (id : Int) : Bool :=
  (bound.lookup id).isNone && !p.folded.contains id

theorem compute_cases (ready : Ready p g refs bound) {done : List Int} {waiting : List Outlet}
    {s : Progress} {n : Node} (found : g.get? n.id = some n)
    (accounts : Accounts p g bound done waiting s)
    (sources : (n.id : Int) ∉ p.folded → ∀ o ∈ n.inputs,
      o.node ∈ done ∧ o ∈ waiting ∧ ∃ t, Value p g bound o t) :
    (∃ ts, Means p g bound n.id ts ∧ p.compute bound s n = .ok (ts,p.evaluates bound n.id)) ∨
      ∃ f, Fails p g bound n.id f ∧ p.compute bound s n = .error f := by
  unfold compute evaluates
  simp only [Int.ofNat_eq_natCast]
  cases fed : bound.lookup (n.id : Int) with
  | some t => exact .inl ⟨[t],.fed fed,rfl⟩
  | none =>
    dsimp only
    by_cases folded : (n.id : Int) ∈ p.folded
    · rw [if_pos (by simpa using folded)]
      obtain ⟨a,analysed,-⟩ := ready.laid.folded _ folded
      have each : ∀ o ∈ n.outlets, ∃ t, (∃ f, a.facts.get? o = some f ∧ f.value = some t) ∧
          p.constants.get o = .ok t := by
        intro o outlet
        obtain ⟨f,t,fact,value,entry⟩ := ready.laid.constants _ folded a analysed n found o outlet
        exact ⟨t,⟨f,fact,value⟩,Table.get_ok.mpr entry⟩
      obtain ⟨ts,related⟩ := exists_forall₂ each
      rw [mapM_ok.mpr (related.imp fun _ _ both => both.2)]
      refine .inl ⟨ts,.folded fed folded found analysed (related.imp fun _ _ both => both.1),?_⟩
      simp [folded]
    · rw [if_neg (by simpa using folded)]
      have each : ∀ o ∈ n.inputs, ∃ t, Value p g bound o t ∧ s.cache.get o = .ok t := by
        intro o source
        obtain ⟨known,waits,t,value⟩ := sources folded o source
        exact ⟨t,value,Table.get_ok.mpr ((accounts.cache o t).mpr ⟨known,value,.inl waits⟩)⟩
      obtain ⟨args,related⟩ := exists_forall₂ each
      have values := related.imp fun _ _ both => both.1
      rw [mapM_ok.mpr (related.imp fun _ _ both => both.2),ok_bind]
      cases evaluated : evaluate n args with
      | ok ts =>
        refine .inl ⟨ts,(means_evaluated fed folded found).mpr ⟨args,values,evaluated⟩,?_⟩
        simp [folded]
      | error f => exact .inr ⟨f,⟨fed,folded,n,args,found,values,evaluated⟩,rfl⟩

theorem fails_undefined {id : Int} {f : Fault} (fails : Fails p g bound id f) (ts : List Tensor) :
    ¬ Means p g bound id ts := by
  intro means
  obtain ⟨n,args,found,values,failed⟩ := fails.evaluates
  obtain ⟨args',values',evaluated⟩ := (means_evaluated fails.unbound fails.computed found).mp means
  have same := functional_forall₂ values values' fun _ _ _ _ left right => left.unique right
  subst same
  rw [failed] at evaluated
  cases evaluated

-- What the next node takes has been produced, waits to be taken, and means something.
theorem sources_ready (ready : Ready p g refs bound) {done : List Int} {id : Int} {pending : List Int}
    {n : Node} (split : p.schedule = done ++ id :: pending)
    (meaning : ∀ m ∈ done, ∃ ts, Means p g bound m ts) (found : g.get? id = some n)
    (computed : id ∉ p.folded) : ∀ o ∈ n.inputs,
      o.node ∈ done ∧ o ∈ taken p g (id :: pending) ∧ ∃ t, Value p g bound o t := by
  intro o source
  have known := ready.laid.schedule.after done id pending n split computed found o source
  obtain ⟨ts,means⟩ := meaning o.node known
  have waits : o ∈ taken p g (id :: pending) := by
    rw [taken_computed computed found]
    exact List.mem_append_left _ source
  refine ⟨known,waits,value_of_means ready (.inr ?_) means⟩
  rw [split,taken_append]
  exact List.mem_append_right _ waits

-- One step of a schedule: the node means something and its tensors are kept as far as they are
-- needed, or its evaluation fails. No look-up misses.
theorem step_cases (ready : Ready p g refs bound) {done : List Int} {id : Int} {pending : List Int}
    {s : Progress} (split : p.schedule = done ++ id :: pending)
    (accounts : Accounts p g bound done (taken p g (id :: pending)) s)
    (meaning : ∀ m ∈ done, ∃ ts, Means p g bound m ts) :
    (∃ s' ts, Means p g bound id ts ∧ p.step g bound s id = .ok s' ∧
      Accounts p g bound (done ++ [id]) (taken p g pending) s' ∧
      s'.stats.evaluated = s.stats.evaluated ++ if p.evaluates bound id then [id] else []) ∨
      ∃ f, Fails p g bound id f ∧ p.step g bound s id = .error f := by
  obtain ⟨n,found⟩ := ready.laid.schedule.known id (by rw [split]; simp)
  have number := ready.wired.numbered.id_eq found
  subst number
  have fresh : (n.id : Int) ∉ done := by
    have nodup := ready.laid.schedule.nodup
    rw [split] at nodup
    exact fun known => (List.nodup_append.mp nodup).2.2 _ known _ List.mem_cons_self rfl
  have sources := fun computed => sources_ready ready split meaning found computed
  unfold step
  rw [Graph.node_ok.mpr found,ok_bind]
  rcases compute_cases ready found accounts sources with ⟨ts,means,computed⟩ | ⟨f,fails,failed⟩
  · left
    rw [computed,ok_bind]
    dsimp only
    have kept := keep_accounts ready accounts fresh found means fun o => taken_outlet ready.wired
    by_cases folded : (n.id : Int) ∈ p.folded
    · rw [if_pos (by simpa using folded)]
      rw [taken_folded folded] at kept
      refine ⟨_,ts,means,rfl,⟨(kept s.stats).remaining,(kept s.stats).cache⟩,?_⟩
      dsimp only
      split <;> simp
    · rw [if_neg (by simpa using folded)]
      have inputs := sources folded
      rw [taken_computed folded found] at kept
      obtain ⟨s',released,after,stats⟩ := releases_ok (kept _) fun o source =>
        ⟨List.mem_append_left _ (inputs o source).1,(inputs o source).2.2⟩
      rw [released]
      refine ⟨_,ts,means,rfl,⟨after.remaining,after.cache⟩,?_⟩
      dsimp only
      rw [stats]
      split <;> simp
  · exact .inr ⟨f,fails,by rw [failed]; rfl⟩

def start (p : Plan) : Progress := ⟨.empty,p.uses,⟨[],0,[]⟩⟩

theorem start_accounts (ready : Ready p g refs bound) :
    Accounts p g bound [] (taken p g p.schedule) p.start := by
  refine ⟨ready.laid.uses,?_⟩
  intro o t
  simp [start]

-- However far a run has come, its accounts are in order.
theorem reached_accounts (ready : Ready p g refs bound) (done : List Int) {rest pending : List Int}
    {s s' : Progress}
    (split : p.schedule = done ++ (rest ++ pending))
    (accounts : Accounts p g bound done (taken p g (rest ++ pending)) s)
    (meaning : ∀ m ∈ done, ∃ ts, Means p g bound m ts) (ran : rest.foldlM (p.step g bound) s = .ok s') :
    Accounts p g bound (done ++ rest) (taken p g pending) s' ∧
      (∀ m ∈ done ++ rest, ∃ ts, Means p g bound m ts) ∧
      s'.stats.evaluated = s.stats.evaluated ++ rest.filter (p.evaluates bound) := by
  induction rest generalizing done s with
  | nil =>
    cases ran
    rw [List.append_nil]
    exact ⟨accounts,meaning,by simp⟩
  | cons id rest ih =>
    rw [List.foldlM_cons] at ran
    obtain ⟨middle,step,others⟩ := bind_ok.mp ran
    rcases step_cases ready split accounts meaning with ⟨next,ts,means,stepped,between,evaluated⟩ | failed
    · rw [step] at stepped
      cases stepped
      have known : ∀ m ∈ done ++ [id], ∃ ts, Means p g bound m ts := by
        intro m member
        rcases List.mem_append.mp member with old | new
        · exact meaning m old
        · rw [List.mem_singleton] at new
          subst new
          exact ⟨ts,means⟩
      obtain ⟨after,all,evaluated'⟩ := ih _ (by simpa using split) between known others
      rw [List.append_assoc,List.singleton_append] at after all
      refine ⟨after,all,?_⟩
      rw [evaluated',evaluated,List.append_assoc,List.filter_cons]
      split <;> rfl
    · obtain ⟨f,-,failed⟩ := failed
      rw [step] at failed
      cases failed

theorem prefix_accounts (ready : Ready p g refs bound) {before after : List Int} {s : Progress}
    (split : p.schedule = before ++ after) (ran : before.foldlM (p.step g bound) p.start = .ok s) :
    Accounts p g bound before (taken p g after) s ∧ (∀ m ∈ before, ∃ ts, Means p g bound m ts) ∧
      s.stats.evaluated = before.filter (p.evaluates bound) := by
  have accounts := start_accounts ready
  rw [split] at accounts
  simpa [start] using reached_accounts ready [] (by simpa using split) accounts nofun ran

end TensorGraph.Plan
