import GearmanServer.Keys
import GearmanServer.FunctionGet

/-!
# Writing jobs to the persistent queue and replaying them

A background job created outside replay is handed to `queue_add_fn` as the 64-byte `unique`
field, the submitted `unique_size`, the function name, the data and the priority. At startup
the adapter's `replay` hands every stored record back to `gearman_server_job_add` while the
broker replays.

Replaying records into a broker that has no function yet creates one job per record, marked
`QUEUED`, with the record's function, unique, data and priority, and calls no queue callback,
as long as the field holds each unique whole and no record's lookup finds the job of another:
two records of one function share no non-empty unique, and no `"-"` record with a payload meets
a record with the same payload whose unique is `"-"`, empty (its key is not set) or hashes like
the payload. The records are taken in any order.
-/

namespace GearmanServer

/-! ## The calls return -/

section Progress
variable {s : Server} {fs hs : List Nat} {qs : Nat → GearmanJobPriority → List Nat}

theorem HashInv.lookup_progress {fuel fn : Nat} {unique : Bytes} {data : Option Bytes}
    {env : AddEnv} (h : HashInv s hs) (hf : hs.length ≤ fuel) :
    ∃ r, jobAddLookup fuel s fn unique data env = some r := by
  have hg : ∀ key u n, ∃ r, serverJobGetUnique fuel s key fn u n = some r := fun key _ _ =>
    ⟨_, chainFind_of_le (h.unique.bucket (hashBucket key)).chain
      ((List.length_filter_le _ _).trans hf)⟩
  unfold jobAddLookup
  split_ifs
  · exact ⟨_, rfl⟩
  · exact ⟨_, rfl⟩
  · obtain ⟨r, hr⟩ := hg (serverJobHash (data.getD [])) (data.getD []) (payloadSize data)
    exact ⟨(serverJobHash (data.getD []), r), by simp only [hr, Option.map_some']⟩
  · obtain ⟨r, hr⟩ := hg (serverJobHash unique) unique 0
    exact ⟨(serverJobHash unique, r), by simp only [hr, Option.map_some']⟩

theorem PoolInv.create_progress (h : PoolInv s hs) :
    ∃ s' j, gearmanServerJobCreate s true = some (s', some j) := by
  obtain ⟨fl, hd, -⟩ := h
  unfold gearmanServerJobCreate
  split_ifs with hc
  · rcases hl : s.freeJobList with _ | j
    · rw [hl] at hd
      rw [hd.count_eq, chain_none_iff.1 hd.chain] at hc
      exact absurd hc (Nat.lt_irrefl 0)
    · exact ⟨_, _, rfl⟩
  · exact ⟨_, _, rfl⟩
  · exact absurd rfl ‹¬true = true›

theorem jobQueueNoops_none (packetAdd : Nat → GearmanReturn) (fuel : Nat) (s : Server) (k : Nat) :
    jobQueueNoops packetAdd fuel s k none = some (s, .success) := by
  cases fuel <;> rfl

theorem jobQueueAppend_progress {j fn : Nat}
    (h : (s.functions fn).jobList (s.jobs j).priority = none ∨
      ∃ e, (s.functions fn).jobEnd (s.jobs j).priority = some e) :
    ∃ s', jobQueueAppend s j fn = some s' := by
  unfold jobQueueAppend
  rcases hl : (s.functions fn).jobList (s.jobs j).priority with _ | x
  · simp [hl]
  · obtain ⟨e, he⟩ := h.resolve_left (by rw [hl]; exact Option.some_ne_none x)
    simp [hl, he]

theorem BrokerInv.queue_progress {fuel j fn : Nat} {packetAdd : Nat → GearmanReturn}
    (h : BrokerInv s fs qs) (hfn : (s.jobs j).function = some fn) (hf : fn ∈ fs)
    (hw : (s.functions fn).workerList = none) :
    ∃ s', gearmanServerJobQueue fuel s j packetAdd = some (s', .success) := by
  have hR : ((jobQueueRelease s j fn).functions fn).workerList = none ∧
      ((jobQueueRelease s j fn).functions fn).jobList = (s.functions fn).jobList ∧
      ((jobQueueRelease s j fn).functions fn).jobEnd = (s.functions fn).jobEnd ∧
      ((jobQueueRelease s j fn).jobs j).priority = (s.jobs j).priority := by
    rw [jobQueueRelease_eq]
    split_ifs <;> simp [hw]
  have hend : (s.functions fn).jobList (s.jobs j).priority = none ∨
      ∃ e, (s.functions fn).jobEnd (s.jobs j).priority = some e := by
    rcases hq : qs fn (s.jobs j).priority with _ | ⟨x, xs⟩
    · have hc := h.queues.chain fn hf (s.jobs j).priority
      rw [hq] at hc
      exact .inl hc
    · refine .inr (Option.ne_none_iff_exists'.1 fun e => ?_)
      rw [h.queues.last fn hf, hq, lastOr_none_eq_none] at e
      cases e
  have hend' : ((jobQueueRelease s j fn).functions fn).jobList
        ((jobQueueRelease s j fn).jobs j).priority = none ∨
      ∃ e, ((jobQueueRelease s j fn).functions fn).jobEnd
        ((jobQueueRelease s j fn).jobs j).priority = some e := by
    rw [hR.2.1, hR.2.2.1, hR.2.2.2]
    exact hend
  obtain ⟨s', ha⟩ := jobQueueAppend_progress hend'
  refine ⟨s', ?_⟩
  simp only [gearmanServerJobQueue, hfn, hR.1, jobQueueNoops_none, ha, Option.bind_eq_bind,
    Option.some_bind, ne_eq, not_true_eq_false, if_false, Option.pure_def]

end Progress

/-! ## Records -/

structure QueueRecord where
  unique : Bytes
  functionName : Bytes
  data : Option Bytes
  priority : GearmanJobPriority
  deriving DecidableEq, Repr

/-- Lines 141–143: the `queue_add_fn` call for a background job submitted with the record's
unique, function name, data and priority. -/
def QueueRecord.addCall (r : QueueRecord) : QueueCall :=
  .add (uniqueField (formatUnique r.unique)) r.unique.length r.functionName r.data r.priority

/-- A record whose unique the field holds whole: shorter than the field and without NUL. -/
def QueueRecord.Valid (r : QueueRecord) : Prop :=
  r.unique.length < gearmanUniqueSize ∧ (0 : UInt8) ∉ r.unique

/-- The lookup of `b` finds the job of `a`: one function, and `b` is `"-"` with the payload `a` holds
under `"-"`, an empty unique or one hashing like it; or `b` has `a`'s non-empty unique. -/
def QueueRecord.Collides (a b : QueueRecord) : Prop :=
  a.functionName = b.functionName ∧
    if b.unique = [45] then
      0 < payloadSize b.data ∧ a.data = b.data ∧
        (a.unique = [] ∨ a.unique = [45] ∨ serverJobHash a.unique = serverJobHash (b.data.getD []))
    else b.unique ≠ [] ∧ a.unique = b.unique

def QueueRecord.KeyApart (a b : QueueRecord) : Prop :=
  ¬a.Collides b ∧ ¬b.Collides a

instance : DecidablePred QueueRecord.Valid := fun _ =>
  inferInstanceAs (Decidable (_ ∧ _))

instance (a b : QueueRecord) : Decidable (a.Collides b) :=
  inferInstanceAs (Decidable (a.functionName = b.functionName ∧
    if b.unique = [45] then
      0 < payloadSize b.data ∧ a.data = b.data ∧
        (a.unique = [] ∨ a.unique = [45] ∨ serverJobHash a.unique = serverJobHash (b.data.getD []))
    else b.unique ≠ [] ∧ a.unique = b.unique))

instance (a b : QueueRecord) : Decidable (a.KeyApart b) :=
  inferInstanceAs (Decidable (_ ∧ _))

def ServerJob.restoreFields (job : ServerJob) :
    Option Nat × Bytes × Option Bytes × GearmanJobPriority × Bool :=
  (job.function, job.unique, job.data, job.priority, job.queued)

def jobRecord (s : Server) (j : Nat) : Option (QueueRecord × Bool) :=
  (s.jobs j).function.map fun fn =>
    (⟨(s.jobs j).unique, (s.functions fn).functionName, (s.jobs j).data, (s.jobs j).priority⟩,
      (s.jobs j).queued)

theorem jobRecord_congr {s s' : Server} {x : Nat}
    (hx : (s'.jobs x).restoreFields = (s.jobs x).restoreFields)
    (hn : ∀ fn, (s.jobs x).function = some fn →
      (s'.functions fn).functionName = (s.functions fn).functionName) :
    jobRecord s' x = jobRecord s x := by
  simp only [ServerJob.restoreFields, Prod.mk.injEq] at hx
  obtain ⟨h₁, h₂, h₃, h₄, h₅⟩ := hx
  unfold jobRecord
  rw [h₁, h₂, h₃, h₄, h₅]
  rcases e : (s.jobs x).function with _ | fn
  · rfl
  · simp only [Option.map_some', hn fn e]

/-- Modelled from the spec: `replay` hands a stored `queue_add_fn` call, with its `unique_size`
stored bytes, to `gearman_server_job_add` with no client; it stops at a call returning no job. -/
def replayAdd (fuel : Nat) (env : AddEnv) (s : Server) : QueueCall → Option Server
  | .add unique uniqueSize functionName data priority =>
    match gearmanServerJobAdd fuel s functionName (unique.take uniqueSize) data priority none env with
    | some (s', some _, _) => some s'
    | _ => none
  | _ => some s

/-- Modelled from the spec: `replay` over the stored calls, in the adapter's order. -/
def replay (fuel : Nat) (env : AddEnv) (s : Server) (calls : List QueueCall) : Option Server :=
  calls.foldlM (replayAdd fuel env) s

/-! ## What one call writes -/

section
variable {s s' : Server} {fs fs' : List Nat} {qs : Nat → GearmanJobPriority → List Nat}

theorem jobQueue_queueLog {fuel j : Nat} {packetAdd : Nat → GearmanReturn} {r : GearmanReturn}
    (hq : gearmanServerJobQueue fuel s j packetAdd = some (s', r)) :
    s'.queueLog = s.queueLog ∧ s'.queueReplay = s.queueReplay := by
  obtain ⟨fn, s₁, r', -, hn, hr⟩ := gearmanServerJobQueue_some hq
  have h₁ : s₁.queueLog = s.queueLog ∧ s₁.queueReplay = s.queueReplay := by
    rw [jobQueueNoops_eq hn, jobQueueRelease_eq]
    exact ⟨rfl, rfl⟩
  rcases hr with ⟨-, rfl, -⟩ | ⟨-, ha, -⟩
  · exact h₁
  · obtain ⟨s₂, h₂, rfl⟩ := jobQueueAppend_some ha
    rcases h₂ with ⟨-, rfl⟩ | ⟨y, e, -, -, rfl⟩ <;> exact h₁

theorem jobAddInit_restoreFields (s : Server) (j fn : Nat) (unique : Bytes) (data : Option Bytes)
    (priority : GearmanJobPriority) (key : UInt32) (x : Nat) :
    ((jobAddInit s j fn unique data priority key).jobs x).restoreFields =
      if x = j then (some fn, formatUnique unique, data, priority, (s.jobs j).queued)
      else (s.jobs x).restoreFields := by
  rw [jobAddInit_eq, jobAddHash_field ServerJob.restoreFields (fun _ _ => ⟨rfl, rfl⟩)
    (fun _ _ => ⟨rfl, rfl⟩) (fun _ _ => rfl)]
  simp only [jobAddFields_eq, Function.update_apply]
  split_ifs <;> rfl

theorem FunctionsInv.list_eq (h : FunctionsInv s fs) (h' : FunctionsInv s fs') : fs' = fs :=
  chain_unique h'.list.chain h.list.chain

theorem jobRecord_eq_some {x fn : Nat} {u n : Bytes} {d : Option Bytes} {p : GearmanJobPriority}
    {q : Bool} (hx : (s.jobs x).restoreFields = (some fn, u, d, p, q))
    (hn : (s.functions fn).functionName = n) : jobRecord s x = some (⟨u, n, d, p⟩, q) := by
  simp only [ServerJob.restoreFields, Prod.mk.injEq] at hx
  obtain ⟨h₁, h₂, h₃, h₄, h₅⟩ := hx
  simp only [jobRecord, h₁, h₂, h₃, h₄, h₅, hn, Option.map_some']

end

/-! ## One replayed record -/

def FunctionsFresh (s : Server) (fs : List Nat) : Prop :=
  ∀ f ∈ fs, (s.functions f).maxQueueSize = 0 ∧ (s.functions f).workerList = none

section
variable {s s' : Server} {fs fs' : List Nat} {qs : Nat → GearmanJobPriority → List Nat}

theorem FunctionsFresh.skeleton (hF : FunctionsFresh s fs) (hk : SkeletonEq s s') :
    FunctionsFresh s' fs := fun f hf => by
  rw [hk.function_field ServerFunction.maxQueueSize (fun _ => rfl),
    hk.function_field ServerFunction.workerList (fun _ => rfl)]
  exact hF f hf

theorem FunctionsFresh.get {fuel : Nat} {name : Bytes} {fm nm : Bool} {fo : Option Nat}
    (hF : FunctionsFresh s fs) (h : FunctionsInv s fs)
    (hg : gearmanServerFunctionGet fuel s name fm nm = some (s', fo)) (h' : FunctionsInv s' fs') :
    FunctionsFresh s' fs' ∧ fs'.length ≤ fs.length + 1 := by
  obtain ⟨-, -, hbody, fs'', h'', hfs, -⟩ := h.get hg
  rw [h''.list_eq h']
  have hold : FunctionsFresh s' fs := fun f hf => by
    have e := hbody f (Nat.ne_of_lt (h.lt_top f hf))
    exact ⟨(congrArg ServerFunction.maxQueueSize e).trans (hF f hf).1,
      (congrArg ServerFunction.workerList e).trans (hF f hf).2⟩
  rcases hfs with rfl | ⟨rfl, hb⟩
  · exact ⟨hold, Nat.le_succ _⟩
  · refine ⟨fun f hf => ?_, le_rfl⟩
    rcases List.mem_cons.1 hf with rfl | hf
    · exact ⟨congrArg ServerFunction.maxQueueSize hb, congrArg ServerFunction.workerList hb⟩
    · exact hold f hf

theorem BrokerInv.replay_add {fuel : Nat} {fname unique : Bytes} {data : Option Bytes}
    (priority : GearmanJobPriority) {env : AddEnv} (h : BrokerInv s fs qs)
    (hF : FunctionsFresh s fs) (hrep : s.queueReplay = true)
    (hm : env.functionMalloc = true ∧ env.nameMalloc = true ∧ env.jobMalloc = true)
    (hfuel : fs.length ≤ fuel ∧ s.live.length ≤ fuel)
    (hnew : ∀ J ∈ s.live, ∀ fn, (s.jobs J).function = some fn →
      (s.functions fn).functionName = fname → ¬addKeyMatches (s.jobs J) fn unique data) :
    ∃ s' j fs' qs', gearmanServerJobAdd fuel s fname unique data priority none env =
        some (s', some j, .success) ∧
      BrokerInv s' fs' qs' ∧ FunctionsFresh s' fs' ∧ fs'.length ≤ fs.length + 1 ∧
      s'.queueReplay = true ∧ s'.queueLog = s.queueLog ∧ j ∉ s.live ∧ s'.live = j :: s.live ∧
      jobRecord s' j = some (⟨formatUnique unique, fname, data, priority⟩, true) ∧
      ∀ x ∈ s.live, jobRecord s' x = jobRecord s x := by
  obtain ⟨hm₁, hm₂, hm₃⟩ := hm
  -- the function, found or created
  obtain ⟨s₁, fn, hg⟩ := h.functions.get_progress fname hfuel.1
  obtain ⟨fs₁, h₁, -, hl₁, hj₁, -, hfo, -⟩ := h.functionGet hg
  obtain ⟨hF₁, hfs₁⟩ := hF.get h.functions hg h₁.functions
  obtain ⟨hfn, hname⟩ := hfo fn rfl
  have e₁ := (h.functions.get hg).1
  have hnames : ∀ g ∈ fs, (s₁.functions g).functionName = (s.functions g).functionName :=
    fun g hg' => h.functions.get_name hg' hg
  -- the lookup finds no job
  obtain ⟨⟨key, found⟩, hlk⟩ : ∃ r, jobAddLookup fuel s₁ fn unique data env = some r :=
    h₁.hash.lookup_progress (hl₁ ▸ hfuel.2)
  have hfound : found = none := by
    rcases found with _ | J
    · rfl
    obtain ⟨hJ, hmJ⟩ := (jobAddLookup_spec h₁.hash hlk).1 J rfl
    rw [hl₁] at hJ
    rw [hj₁] at hmJ
    exact absurd hmJ (hnew J hJ fn hmJ.1
      ((hnames fn (h.function_mem hJ hmJ.1)).symm.trans hname))
  -- the job is created, filled in and hashed
  obtain ⟨s₂, j, hcr⟩ := h₁.pool.create_progress
  obtain ⟨h₃, hu, hjl, hl₃, -, hd₃, -⟩ := h₁.init unique data priority key hfn hcr
  obtain ⟨e₂, -, hpay₂⟩ := gearmanServerJobCreate_some hcr
  have k₃ : SkeletonEq s₁ (jobAddInit s₂ j fn unique data priority key) := by
    have k₂ : SkeletonEq s₁ s₂ := by
      rw [e₂]; exact ⟨rfl, rfl, rfl, fun _ => rfl, fun _ => rfl, fun _ => rfl⟩
    exact k₂.trans ((skeletonEq_jobAddFields _ _ _ _ _ _ _).trans (skeletonEq_jobAddHash _ _ _))
  have hrep₂ : s₂.queueReplay = true := by rw [e₂, e₁]; exact hrep
  have hlog₂ : s₂.queueLog = s.queueLog := by rw [e₂, e₁]
  -- replay marks it `QUEUED`
  have hp : jobAddPersist fuel (jobAddInit s₂ j fn unique data priority key) j fname unique data
      priority none env = some ((jobAddInit s₂ j fn unique data priority key).modifyJob j
        fun job => { job with queued := true }, none) := by
    simp only [jobAddPersist, jobAddInit_queueReplay, hrep₂, ↓reduceIte]
  set s₄ := (jobAddInit s₂ j fn unique data priority key).modifyJob j
    fun job => { job with queued := true } with hs₄
  have k₄ : SkeletonEq (jobAddInit s₂ j fn unique data priority key) s₄ := skeletonEq_modifyJob _ _
  have h₄ : BrokerInv s₄ fs₁ _ :=
    h₃.dispatchEq k₄ (tablesEq_modifyJob fun _ => rfl) (dispatchEq_modifyJob fun _ => rfl)
  have hr₄ : ∀ x, (s₄.jobs x).restoreFields = if x = j then
      (some fn, formatUnique unique, data, priority, true) else (s₂.jobs x).restoreFields := by
    intro x
    rw [hs₄, Server.modifyJob_jobs]
    by_cases e : x = j
    · subst e
      have := jobAddInit_restoreFields s₂ x fn unique data priority key x
      simp only [if_true] at this ⊢
      simp only [ServerJob.restoreFields, Prod.mk.injEq] at this ⊢
      exact ⟨this.1, this.2.1, this.2.2.1, this.2.2.2.1, trivial⟩
    · simp only [e, if_false, jobAddInit_restoreFields]
  have hfn₄ : (s₄.jobs j).function = some fn := by
    have := hr₄ j
    simp only [if_true, ServerJob.restoreFields, Prod.mk.injEq] at this
    exact this.1
  have hnext₄ : (s₄.jobs j).functionNext = none := by
    rw [hs₄, Server.modifyJob_jobs, if_pos rfl]
    exact congrArg (fun d => d.2.2.2) hd₃
  -- it is queued
  obtain ⟨s₅, hq⟩ : ∃ s', gearmanServerJobQueue fuel s₄ j env.packetAdd = some (s', .success) :=
    h₄.queue_progress hfn₄ hfn ((hF₁.skeleton (k₃.trans k₄)) fn hfn).2
  have hj₄ : j ∈ s₄.live := by
    rw [hs₄, Server.modifyJob_live, hl₃]
    exact List.mem_cons_self _ _
  obtain ⟨_, -, hl₅, -, -, hsucc⟩ := h₄.queue hj₄ hu (.inr hnext₄) hq
  obtain ⟨k₅, -⟩ := frame_jobQueue hq
  obtain ⟨hlog₅, hrep₅⟩ := jobQueue_queueLog hq
  have k₁₅ := (k₃.trans k₄).trans k₅
  have hname₅ : ∀ g, (s₅.functions g).functionName = (s₁.functions g).functionName :=
    k₁₅.function_field ServerFunction.functionName fun _ => rfl
  have hr₅ : ∀ x, (s₅.jobs x).restoreFields = (s₄.jobs x).restoreFields :=
    jobQueue_field ServerJob.restoreFields (fun _ _ _ _ _ => rfl) hq
  refine ⟨s₅, j, fs₁, _, ?_, (hsucc rfl).1, hF₁.skeleton k₁₅, hfs₁, ?_, ?_, hl₁ ▸ hjl, ?_,
    jobRecord_eq_some ((hr₅ j).trans (by rw [hr₄, if_pos rfl])) ((hname₅ fn).trans hname),
    fun x hx => ?_⟩
  · simp only [gearmanServerJobAdd, hm₁, hm₂, hm₃, hg, hlk, hfound, (hF₁ fn hfn).1, hcr, jobAddNew,
      hp, hq, Option.bind_eq_bind, Option.some_bind, lt_self_iff_false, false_and, ↓reduceIte,
      ne_eq, not_true_eq_false, Option.pure_def, jobAddClient]
  · rw [hrep₅, hs₄]
    simp only [Server.modifyJob, jobAddInit_queueReplay, hrep₂]
  · rw [hlog₅, hs₄]
    simp only [Server.modifyJob, jobAddInit_queueLog, hlog₂]
  · rw [hl₅, hs₄, Server.modifyJob_live, hl₃, hl₁]
  · have hxj : x ≠ j := fun e => hjl (e ▸ hl₁ ▸ hx)
    refine jobRecord_congr ?_ fun g hg' => ?_
    · rw [hr₅, hr₄, if_neg hxj, ← hj₁]
      have e := congrArg ServerJob.restoreFields (hpay₂ x hxj)
      exact e
    · rw [hname₅, hnames g (h.function_mem hx hg')]

end

/-! ## A replay -/

structure Replayed (s : Server) (fs : List Nat) (qs : Nat → GearmanJobPriority → List Nat)
    (done : List QueueRecord) : Prop where
  inv : BrokerInv s fs qs
  fresh : FunctionsFresh s fs
  replaying : s.queueReplay = true
  functions_le : fs.length ≤ done.length
  valid : ∀ r ∈ done, r.Valid
  keys : ∀ J ∈ s.live, (s.jobs J).Keyed
  jobs : s.live.map (jobRecord s) = done.map fun r => some (r, true)

section
variable {s : Server} {fs : List Nat} {qs : Nat → GearmanJobPriority → List Nat}
  {done : List QueueRecord} {fuel : Nat} {env : AddEnv}

theorem Replayed.initial (hi : Initial s) (hrep : s.queueReplay = true)
    (hnf : s.functionList = none) : ∃ fs qs, Replayed s fs qs [] := by
  obtain ⟨fs, h, -⟩ := BrokerInv.initial hi
  have hfs : fs = [] := chain_none_iff.1 (hnf ▸ h.functions.list.chain)
  subst hfs
  exact ⟨[], _, ⟨h, fun _ h => (by cases h), hrep, le_rfl, fun _ h => (by cases h),
    fun _ hJ => absurd (hi.live_eq ▸ hJ) (List.not_mem_nil _), by rw [hi.live_eq]; rfl⟩⟩

theorem Replayed.mem_done (h : Replayed s fs qs done) {J : Nat} (hJ : J ∈ s.live) :
    ∃ r ∈ done, jobRecord s J = some (r, true) := by
  have : jobRecord s J ∈ done.map fun r => some (r, true) := h.jobs ▸ List.mem_map_of_mem _ hJ
  obtain ⟨r, hr, e⟩ := List.mem_map.1 this
  exact ⟨r, hr, e.symm⟩

theorem Replayed.no_match {r : QueueRecord} (h : Replayed s fs qs done) (hv : r.Valid)
    (hd : ∀ r' ∈ done, ¬r'.Collides r) :
    ∀ J ∈ s.live, ∀ fn, (s.jobs J).function = some fn →
      (s.functions fn).functionName = r.functionName →
      ¬addKeyMatches (s.jobs J) fn r.unique r.data := by
  intro J hJ fn hfn hn hm
  obtain ⟨r', hr', e⟩ := h.mem_done hJ
  simp only [jobRecord, hfn, Option.map_some', Option.some.injEq, Prod.mk.injEq] at e
  obtain ⟨rfl, -⟩ := e
  refine hd _ hr' ⟨hn, ?_⟩
  split_ifs with hdash
  · rw [hdash] at hm
    obtain ⟨hpos, hdat, hor⟩ := (h.keys J hJ).dash_match hm
    exact ⟨hpos, hdat, (em _).imp_right hor⟩
  · obtain ⟨-, hk⟩ := hm
    rw [if_neg hdash] at hk
    obtain ⟨hne, -, hc⟩ := hk
    rw [cString_of_not_mem (h.valid _ hr').2, cString_of_not_mem hv.2] at hc
    exact ⟨hne, hc⟩

theorem Replayed.add {r : QueueRecord} (h : Replayed s fs qs done) (hv : r.Valid)
    (hd : ∀ r' ∈ done, r'.KeyApart r) (hfuel : done.length < fuel)
    (hm : env.functionMalloc = true ∧ env.nameMalloc = true ∧ env.jobMalloc = true) :
    ∃ s' fs' qs', replayAdd fuel env s r.addCall = some s' ∧ Replayed s' fs' qs' (r :: done) ∧
      s'.queueLog = s.queueLog := by
  have hlen : s.live.length = done.length := by simpa using congrArg List.length h.jobs
  obtain ⟨s', j, fs', qs', ha, h', hF', hfs', hrep', hlog', -, hl', hrj, hold⟩ :=
    h.inv.replay_add r.priority h.fresh h.replaying hm ⟨h.functions_le.trans hfuel.le, hlen ▸ hfuel.le⟩
      (h.no_match hv fun r' hr' => (hd r' hr').1)
  have hfu := formatUnique_of_valid hv.1 hv.2
  refine ⟨s', fs', qs', ?_, ⟨h', hF', hrep', ?_, ?_, fun x hx => ?_, ?_⟩, hlog'⟩
  · simp only [replayAdd, QueueRecord.addCall, uniqueField_take hv.1 hv.2, ha]
  · simp only [List.length_cons]
    exact hfs'.trans (Nat.succ_le_succ h.functions_le)
  · exact List.forall_mem_cons.2 ⟨hv, h.valid⟩
  · rcases h.inv.add_keys ha x hx with ⟨hx', e⟩ | ⟨key, hkey, e⟩
    · exact (h.keys x hx').of_keyFields e
    · exact ServerJob.keyed_of_new hfu hkey e
  · rw [hl', List.map_cons, hrj, hfu, List.map_congr_left hold, h.jobs]
    rfl

theorem Replayed.replay (hm : env.functionMalloc = true ∧ env.nameMalloc = true ∧ env.jobMalloc = true)
    (rs : List QueueRecord) (h : Replayed s fs qs done) (hv : ∀ r ∈ rs, r.Valid)
    (hd : (done.reverse ++ rs).Pairwise QueueRecord.KeyApart)
    (hfuel : done.length + rs.length ≤ fuel) :
    ∃ s' fs' qs', replay fuel env s (rs.map QueueRecord.addCall) = some s' ∧
      Replayed s' fs' qs' (rs.reverse ++ done) ∧ s'.queueLog = s.queueLog := by
  induction rs generalizing s fs qs done with
  | nil => exact ⟨s, fs, qs, rfl, h, rfl⟩
  | cons r rs ih =>
    have hsplit : done.reverse ++ r :: rs = (r :: done).reverse ++ rs := by simp
    have hap : ∀ r' ∈ done, r'.KeyApart r := fun r' hr' =>
      (List.pairwise_append.1 hd).2.2 r' (List.mem_reverse.2 hr') r (List.mem_cons_self _ _)
    simp only [List.length_cons] at hfuel
    obtain ⟨s₁, fs₁, qs₁, h₁, hR₁, hlog₁⟩ :=
      h.add (hv r (List.mem_cons_self _ _)) hap (show done.length < fuel by omega) hm
    obtain ⟨s', fs', qs', h', hR', hlog'⟩ := ih hR₁ (fun r' hr' => hv r' (List.mem_cons_of_mem _ hr'))
      (hsplit ▸ hd) (by simp only [List.length_cons]; omega)
    refine ⟨s', fs', qs', ?_, by simpa using hR', hlog'.trans hlog₁⟩
    simp only [replay, List.map_cons, List.foldlM_cons, h₁, Option.bind_eq_bind, Option.some_bind]
    exact h'

end

/-! ## Writing -/

section
variable {ok : Server → Op → Outcome → Prop} {fuel : Nat} {s s' : Server} {fname unique : Bytes}
  {data : Option Bytes} {priority : GearmanJobPriority} {env : AddEnv} {j : Nat}

end

theorem QueueRecord.KeyApart.symm {a b : QueueRecord} (h : a.KeyApart b) : b.KeyApart a :=
  ⟨h.2, h.1⟩

set_option maxRecDepth 4000 in
/-- A unique of 64 bytes reaches `queue_add_fn` as the 63 bytes the field keeps and a NUL, with
`unique_size` 64, so the record's first `unique_size` bytes are not the unique. -/
theorem queue_add_long_unique_hands_cut_field :
    ∃ s, gearmanServerJobAdd 1 { queueAddFn := true } [102] (List.replicate 64 117) none .normal
        none {} = some (s, some 0, .success) ∧
      ∃ u, s.queueLog = [QueueCall.add u 64 [102] none .normal] ∧
        u.take 64 ≠ List.replicate 64 117 :=
  ⟨_, rfl, _, rfl, by decide⟩

end GearmanServer
