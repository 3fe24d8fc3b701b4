import GearmanServer.Invariant.Clients

/-!
# The broker invariant

`BrokerInv s fs qs` gathers the invariants of the broker's tables: the function list `fs` and
the worker lists, both hash tables and the job pool over the live jobs, the function counters,
the job lists `qs`, and the client lists. No job call rewrites the function list or a worker
list (`SkeletonEq`), and the calls that do not add or free a job write neither the hash tables
nor the pool (`TablesEq`). Each call keeps `BrokerInv`, with the job lists it appends to or
takes from, and each call but a failed re-queue keeps `QueueComplete`.
-/

namespace GearmanServer

/-! ## What the job calls leave alone -/

def ServerFunction.entry (f : ServerFunction) : ServerFunction :=
  { f with jobTotal := 0, jobRunning := 0, jobCount := 0, jobList := fun _ => none,
           jobEnd := fun _ => none }

def ServerWorker.links (w : ServerWorker) : ServerWorker := { w with job := none }

structure SkeletonEq (s s' : Server) : Prop where
  functionList : s'.functionList = s.functionList
  functionCount : s'.functionCount = s.functionCount
  functionTop : s'.functionTop = s.functionTop
  functions : ∀ f, (s'.functions f).entry = (s.functions f).entry
  workers : ∀ w, (s'.workers w).links = (s.workers w).links
  cons : ∀ c, (s'.cons c).workerList = (s.cons c).workerList

def ServerJob.tableFields (job : ServerJob) :=
  (job.hashFields, job.clientList, job.clientCount)

structure TablesEq (s s' : Server) : Prop where
  live : s'.live = s.live
  jobTop : s'.jobTop = s.jobTop
  jobHash : s'.jobHash = s.jobHash
  jobCount : s'.jobCount = s.jobCount
  uniqueHash : s'.uniqueHash = s.uniqueHash
  uniqueCount : s'.uniqueCount = s.uniqueCount
  freeJobList : s'.freeJobList = s.freeJobList
  freeJobCount : s'.freeJobCount = s.freeJobCount
  clients : s'.clients = s.clients
  jobHandlePrefix : s'.jobHandlePrefix = s.jobHandlePrefix
  jobHandleCount : s'.jobHandleCount = s.jobHandleCount
  handleLog : s'.handleLog = s.handleLog
  jobs : ∀ x, (s'.jobs x).tableFields = (s.jobs x).tableFields

section
variable {s s' s'' : Server} {fs : List Nat}

theorem SkeletonEq.refl (s : Server) : SkeletonEq s s :=
  ⟨rfl, rfl, rfl, fun _ => rfl, fun _ => rfl, fun _ => rfl⟩

theorem SkeletonEq.trans (h : SkeletonEq s s') (h' : SkeletonEq s' s'') : SkeletonEq s s'' :=
  ⟨h'.functionList.trans h.functionList, h'.functionCount.trans h.functionCount,
    h'.functionTop.trans h.functionTop, fun f => (h'.functions f).trans (h.functions f),
    fun w => (h'.workers w).trans (h.workers w), fun c => (h'.cons c).trans (h.cons c)⟩

theorem TablesEq.refl (s : Server) : TablesEq s s :=
  ⟨rfl, rfl, rfl, rfl, rfl, rfl, rfl, rfl, rfl, rfl, rfl, rfl, fun _ => rfl⟩

theorem TablesEq.trans (h : TablesEq s s') (h' : TablesEq s' s'') : TablesEq s s'' :=
  ⟨h'.live.trans h.live, h'.jobTop.trans h.jobTop, h'.jobHash.trans h.jobHash,
    h'.jobCount.trans h.jobCount, h'.uniqueHash.trans h.uniqueHash,
    h'.uniqueCount.trans h.uniqueCount, h'.freeJobList.trans h.freeJobList,
    h'.freeJobCount.trans h.freeJobCount, h'.clients.trans h.clients,
    h'.jobHandlePrefix.trans h.jobHandlePrefix, h'.jobHandleCount.trans h.jobHandleCount,
    h'.handleLog.trans h.handleLog, fun x => (h'.jobs x).trans (h.jobs x)⟩

theorem SkeletonEq.function_field {β : Type} (hk : SkeletonEq s s') (P : ServerFunction → β)
    (hP : ∀ g, P g.entry = P g) (f : Nat) : P (s'.functions f) = P (s.functions f) := by
  rw [← hP, hk.functions f, hP]

theorem FunctionsInv.skeleton (h : FunctionsInv s fs) (hk : SkeletonEq s s') :
    FunctionsInv s' fs := by
  have e : ∀ f, (s'.functions f).next = (s.functions f).next ∧
      (s'.functions f).prev = (s.functions f).prev ∧
      (s'.functions f).functionName = (s.functions f).functionName ∧
      (s'.functions f).functionNameSize = (s.functions f).functionNameSize := fun f =>
    ⟨hk.function_field ServerFunction.next (fun _ => rfl) f,
      hk.function_field ServerFunction.prev (fun _ => rfl) f,
      hk.function_field ServerFunction.functionName (fun _ => rfl) f,
      hk.function_field ServerFunction.functionNameSize (fun _ => rfl) f⟩
  refine ⟨?_, fun f hf => hk.functionTop ▸ h.lt_top f hf, fun f hf => ?_, ?_⟩
  · rw [hk.functionList, hk.functionCount]
    exact h.list.congr fun f _ => ⟨(e f).1, (e f).2.1⟩
  · rw [(e f).2.2.1, (e f).2.2.2]
    exact h.name_size f hf
  · exact h.names.imp_of_mem fun {f g} _ _ hne => by rwa [(e f).2.2.1, (e g).2.2.1]

theorem WorkersInv.skeleton (h : WorkersInv s fs) (hk : SkeletonEq s s') : WorkersInv s' fs := by
  refine h.congr (fun w => ?_) hk.cons fun f _ => ?_
  · have e := hk.workers w
    simp only [ServerWorker.links, ServerWorker.mk.injEq] at e
    exact ⟨e.2.2.2.1, e.2.2.2.2, e.2.1⟩
  · exact hk.function_field ServerFunction.workerList (fun _ => rfl) f

theorem HashInv.tables {hs : List Nat} (h : HashInv s hs) (ht : TablesEq s s') : HashInv s' hs :=
  h.congr ht.jobTop.ge ⟨ht.jobHash, ht.jobCount, ht.uniqueHash, ht.uniqueCount⟩
    fun x _ => congrArg Prod.fst (ht.jobs x)

theorem PoolInv.tables {hs : List Nat} (hp : PoolInv s hs) (ht : TablesEq s s') : PoolInv s' hs :=
  hp.congr ht.jobTop.ge ht.freeJobList ht.freeJobCount fun x _ => by
    have e := ht.jobs x
    simp only [ServerJob.tableFields, ServerJob.hashFields, Prod.mk.injEq] at e
    exact ⟨e.1.1, e.1.2.1⟩

theorem ClientsInv.tables (h : ClientsInv s) (ht : TablesEq s s') : ClientsInv s' :=
  h.congr ht.clients ht.live fun x _ => by
    have e := ht.jobs x
    simp only [ServerJob.tableFields, Prod.mk.injEq] at e
    exact e.2

/-! ## One lemma per write -/

theorem skeletonEq_modifyJob (j : Nat) (f : ServerJob → ServerJob) :
    SkeletonEq s (s.modifyJob j f) :=
  ⟨rfl, rfl, rfl, fun _ => rfl, fun _ => rfl, fun _ => rfl⟩

theorem tablesEq_modifyJob {j : Nat} {f : ServerJob → ServerJob}
    (hf : ∀ job, (f job).tableFields = job.tableFields) : TablesEq s (s.modifyJob j f) :=
  ⟨rfl, rfl, rfl, rfl, rfl, rfl, rfl, rfl, rfl, rfl, rfl, rfl, Server.modifyJob_field _ hf⟩

theorem skeletonEq_modifyFunction {fn : Nat} {f : ServerFunction → ServerFunction}
    (hf : ∀ g, (f g).entry = g.entry) : SkeletonEq s (s.modifyFunction fn f) :=
  ⟨rfl, rfl, rfl, Server.modifyFunction_field _ hf, fun _ => rfl, fun _ => rfl⟩

theorem tablesEq_modifyFunction (fn : Nat) (f : ServerFunction → ServerFunction) :
    TablesEq s (s.modifyFunction fn f) :=
  ⟨rfl, rfl, rfl, rfl, rfl, rfl, rfl, rfl, rfl, rfl, rfl, rfl, fun _ => rfl⟩

theorem SkeletonEq.clientsOnly (hc : ClientsOnly s s') : SkeletonEq s s' := by
  rw [hc.eq]
  exact ⟨rfl, rfl, rfl, fun _ => rfl, fun _ => rfl, fun _ => rfl⟩

theorem skeletonEq_jobFree {fuel j : Nat} (hf : gearmanServerJobFree fuel s j = some s') :
    SkeletonEq s s' := by
  obtain ⟨fn, s₁, -, h₁, rfl⟩ := gearmanServerJobFree_eq_some.1 hf
  have h₀ : SkeletonEq s (jobFreeCounters s j fn) := by
    refine ⟨by rw [jobFreeCounters_eq], by rw [jobFreeCounters_eq], by rw [jobFreeCounters_eq],
      fun f => ?_, fun _ => by rw [jobFreeCounters_eq], fun _ => by rw [jobFreeCounters_eq]⟩
    rw [jobFreeCounters_functions]
    by_cases e : f = fn
    · subst e; simp [ServerFunction.entry]
    · simp [e]
  have h₂ : SkeletonEq s₁ (jobFreeRelease (jobFreeUnhash s₁ j) j) := by
    refine ⟨by rw [jobFreeRelease_eq, jobFreeUnhash_eq], by rw [jobFreeRelease_eq, jobFreeUnhash_eq],
      by rw [jobFreeRelease_eq, jobFreeUnhash_eq], fun _ => by rw [jobFreeRelease_eq, jobFreeUnhash_eq],
      fun w => ?_, fun _ => by rw [jobFreeRelease_eq, jobFreeUnhash_eq]⟩
    rw [jobFreeRelease_eq]
    simp only [jobFreeUnhash, clearWorkerJob_eq]
    split_ifs <;> rfl
  exact h₀.trans ((SkeletonEq.clientsOnly (clientsOnly_freeClientList h₁)).trans h₂)

theorem jobQueueNoops_workerList {packetAdd : Nat → GearmanReturn} {fuel k : Nat}
    {w : Option Nat} {r : GearmanReturn} (h : jobQueueNoops packetAdd fuel s k w = some (s', r))
    (c : Nat) : (s'.cons c).workerList = (s.cons c).workerList := by
  induction fuel generalizing s k w with
  | zero =>
    cases w <;> simp only [jobQueueNoops, Option.some.injEq, Prod.mk.injEq, reduceCtorEq] at h
    rw [← h.1]
  | succ fuel ih =>
    cases w with
    | none =>
      simp only [jobQueueNoops, Option.some.injEq, Prod.mk.injEq] at h
      rw [← h.1]
    | some w =>
      simp only [jobQueueNoops] at h
      split_ifs at h
      · exact ih h
      · simp only [Option.some.injEq, Prod.mk.injEq] at h
        rw [← h.1]
      · rw [ih h, Server.modifyCon_cons]
        split_ifs <;> simp_all

theorem frame_jobQueueNoops {packetAdd : Nat → GearmanReturn} {fuel k : Nat}
    {w : Option Nat} {r : GearmanReturn} (h : jobQueueNoops packetAdd fuel s k w = some (s', r)) :
    SkeletonEq s s' ∧ TablesEq s s' := by
  have e := jobQueueNoops_eq h
  refine ⟨⟨by rw [e], by rw [e], by rw [e], fun _ => by rw [e], fun _ => by rw [e],
    jobQueueNoops_workerList h⟩, ?_⟩
  rw [e]
  exact ⟨rfl, rfl, rfl, rfl, rfl, rfl, rfl, rfl, rfl, rfl, rfl, rfl, fun _ => rfl⟩

theorem frame_jobQueueRelease (s : Server) (j fn : Nat) :
    SkeletonEq s (jobQueueRelease s j fn) ∧ TablesEq s (jobQueueRelease s j fn) := by
  rw [jobQueueRelease_eq]
  refine ⟨⟨rfl, rfl, rfl, fun f => ?_, fun _ => rfl, fun _ => rfl⟩,
    ⟨rfl, rfl, rfl, rfl, rfl, rfl, rfl, rfl, rfl, rfl, rfl, rfl, fun x => ?_⟩⟩
  · split_ifs
    · by_cases e : f = fn
      · subst e; simp [ServerFunction.entry]
      · simp [e]
    · rfl
  · by_cases e : x = j
    · subst e; simp [ServerJob.tableFields, ServerJob.hashFields]
    · simp [e]

theorem frame_jobQueueAppend {j fn : Nat} (h : jobQueueAppend s j fn = some s') :
    SkeletonEq s s' ∧ TablesEq s s' := by
  obtain ⟨s₁, h₁, rfl⟩ := jobQueueAppend_some h
  have h₂ : SkeletonEq s s₁ ∧ TablesEq s s₁ := by
    rcases h₁ with ⟨-, rfl⟩ | ⟨x, e, -, -, rfl⟩
    · exact ⟨skeletonEq_modifyFunction fun _ => rfl, tablesEq_modifyFunction _ _⟩
    · exact ⟨skeletonEq_modifyJob _ _, tablesEq_modifyJob fun _ => rfl⟩
  refine ⟨h₂.1.trans ⟨rfl, rfl, rfl, fun f => ?_, fun _ => rfl, fun _ => rfl⟩,
    h₂.2.trans ⟨rfl, rfl, rfl, rfl, rfl, rfl, rfl, rfl, rfl, rfl, rfl, rfl, fun _ => rfl⟩⟩
  dsimp only
  rw [Server.modifyFunction_functions]
  split_ifs with e
  · rw [e]; rfl
  · rfl

theorem frame_jobQueue {fuel j : Nat} {packetAdd : Nat → GearmanReturn} {ret : GearmanReturn}
    (h : gearmanServerJobQueue fuel s j packetAdd = some (s', ret)) :
    SkeletonEq s s' ∧ TablesEq s s' := by
  obtain ⟨fn, s₁, r, -, hn, hr⟩ := gearmanServerJobQueue_some h
  have h₁ := frame_jobQueueRelease s j fn
  have h₂ := frame_jobQueueNoops hn
  have h₃ : SkeletonEq s s₁ ∧ TablesEq s s₁ := ⟨h₁.1.trans h₂.1, h₁.2.trans h₂.2⟩
  rcases hr with ⟨-, rfl, -⟩ | ⟨-, ha, -⟩
  · exact h₃
  · have h₄ := frame_jobQueueAppend ha
    exact ⟨h₃.1.trans h₄.1, h₃.2.trans h₄.2⟩

theorem frame_jobTakeHead {w j : Nat} {p : GearmanJobPriority} (h : jobTakeHead s w j p = some s') :
    SkeletonEq s s' ∧ TablesEq s s' := by
  obtain ⟨fn, -, rfl⟩ := jobTakeHead_eq_some.1 h
  refine ⟨⟨rfl, rfl, rfl, fun f => ?_, fun w' => ?_, fun _ => rfl⟩,
    ⟨rfl, rfl, rfl, rfl, rfl, rfl, rfl, rfl, rfl, rfl, rfl, rfl, fun x => ?_⟩⟩
  · by_cases e : f = fn
    · subst e; simp [ServerFunction.entry]
    · simp [e]
  · by_cases e : w' = w
    · subst e; simp [ServerWorker.links]
    · simp [e]
  · by_cases e : x = j
    · subst e; simp [ServerJob.tableFields, ServerJob.hashFields]
    · simp [e]

end

/-! ## The invariant -/

structure BrokerInv (s : Server) (fs : List Nat) (qs : Nat → GearmanJobPriority → List Nat) :
    Prop where
  functions : FunctionsInv s fs
  workers : WorkersInv s fs
  hash : HashInv s s.live
  pool : PoolInv s s.live
  counters : CounterInv s fs
  queues : QueueInv s fs qs
  clients : ClientsInv s

section
variable {s s' : Server} {fs : List Nat} {qs qs' : Nat → GearmanJobPriority → List Nat}

theorem BrokerInv.frame (h : BrokerInv s fs qs) (hk : SkeletonEq s s') (ht : TablesEq s s')
    (hc : CounterInv s' fs) (hq : QueueInv s' fs qs') : BrokerInv s' fs qs' :=
  ⟨h.functions.skeleton hk, h.workers.skeleton hk, ht.live ▸ h.hash.tables ht,
    ht.live ▸ h.pool.tables ht, hc, hq, h.clients.tables ht⟩

theorem BrokerInv.dispatchEq (h : BrokerInv s fs qs) (hk : SkeletonEq s s') (ht : TablesEq s s')
    (hd : DispatchEq s s') : BrokerInv s' fs qs :=
  h.frame hk ht (h.counters.dispatchEq hd) (h.queues.dispatchEq hd)

theorem BrokerInv.function_mem (h : BrokerInv s fs qs) {j fn : Nat} (hj : j ∈ s.live)
    (hfn : (s.jobs j).function = some fn) : fn ∈ fs := by
  obtain ⟨f, hf, e⟩ := h.counters.function j hj
  rw [hfn] at e
  exact Option.some.inj e ▸ hf

theorem BrokerInv.clientFree (h : BrokerInv s fs qs) (c : Nat) :
    BrokerInv (gearmanServerClientFree s c) fs qs := by
  have hc := clientsOnly_clientFree s c
  have hl := clientFree_live s c
  exact ⟨h.functions.skeleton (.clientsOnly hc), h.workers.skeleton (.clientsOnly hc),
    hl ▸ h.hash.clientsOnly hc, hl ▸ h.pool.clientsOnly hc, h.counters.dispatchEq hc.dispatchEq,
    h.queues.dispatchEq hc.dispatchEq, h.clients.clientFree c⟩

theorem QueueComplete.clientsOnly (h : QueueComplete s qs s.live) (hc : ClientsOnly s s') :
    QueueComplete s' qs s'.live := by
  rw [hc.dispatchEq.live]
  exact h.congr fun x _ => hc.dispatchEq.jobs x

theorem jobFree_live {fuel j : Nat} (hf : gearmanServerJobFree fuel s j = some s') :
    s'.live = s.live.erase j := by
  obtain ⟨fn, -, hd⟩ := dispatchEq_free hf
  exact hd.live

theorem BrokerInv.free {fuel j : Nat} (h : BrokerInv s fs qs) (hj : j ∈ s.live)
    (hu : Unqueued fs qs j) (hf : gearmanServerJobFree fuel s j = some s') : BrokerInv s' fs qs := by
  obtain ⟨hh, hp⟩ := h.hash.free h.pool hj hf
  rw [← jobFree_live hf] at hh hp
  exact ⟨h.functions.skeleton (skeletonEq_jobFree hf), h.workers.skeleton (skeletonEq_jobFree hf),
    hh, hp, h.counters.free hj hf, h.queues.free hu hf, h.clients.free hj hf⟩

theorem QueueComplete.jobFree {fuel j : Nat} {hs : List Nat} (h : QueueComplete s qs hs)
    (hsub : ∀ x ∈ s.live.erase j, x ∈ hs) (hf : gearmanServerJobFree fuel s j = some s') :
    QueueComplete s' qs s'.live := by
  rw [jobFree_live hf]
  exact (h.free hf).mono hsub

theorem BrokerInv.queue {fuel j : Nat} {packetAdd : Nat → GearmanReturn} {ret : GearmanReturn}
    (h : BrokerInv s fs qs) (hj : j ∈ s.live) (hu : Unqueued fs qs j)
    (hn : (s.jobs j).worker.isSome ∨ (s.jobs j).functionNext = none)
    (hq : gearmanServerJobQueue fuel s j packetAdd = some (s', ret)) :
    ∃ fn, (s.jobs j).function = some fn ∧ s'.live = s.live ∧ (s'.jobs j).worker = none ∧
      (ret ≠ .success → BrokerInv s' fs qs ∧
        (QueueComplete s qs (s.live.erase j) → QueueComplete s' qs (s.live.erase j))) ∧
      (ret = .success → BrokerInv s' fs (enqueue qs fn (s.jobs j).priority j) ∧
        (QueueComplete s qs (s.live.erase j) →
          QueueComplete s' (enqueue qs fn (s.jobs j).priority j) s'.live)) := by
  obtain ⟨fn, s₁, r, hfn, hn', hr⟩ := gearmanServerJobQueue_some hq
  have hfs := h.function_mem hj hfn
  have fR := frame_jobQueueRelease s j fn
  have hR : BrokerInv (jobQueueRelease s j fn) fs qs :=
    h.frame fR.1 fR.2 (h.counters.release h.hash.nodup hj hfn) (h.queues.release hu)
  have fN := frame_jobQueueNoops hn'
  have dN := dispatchEq_jobQueueNoops hn'
  have hN : BrokerInv s₁ fs qs := hR.dispatchEq fN.1 fN.2 dN
  have hl₁ : s₁.live = s.live := fN.2.live.trans fR.2.live
  have hjR : (jobQueueRelease s j fn).jobs j = { s.jobs j with
      worker := none
      numerator := 0
      denominator := 0
      functionNext := none } := by
    rw [jobQueueRelease_eq]
    rcases hn with hw | hn
    · simp [hw]
    · simp [hn]
  have hj₁ : (s₁.jobs j).function = some fn ∧ (s₁.jobs j).priority = (s.jobs j).priority ∧
      (s₁.jobs j).worker = none ∧ (s₁.jobs j).functionNext = none := by
    rw [dN.function, dN.priority, dN.worker, dN.functionNext, hjR]
    exact ⟨hfn, rfl, rfl, rfl⟩
  have hc₁ : QueueComplete s qs (s.live.erase j) → QueueComplete s₁ qs (s.live.erase j) :=
    fun hc => (hc.release (h.hash.nodup.not_mem_erase)).congr fun x _ => dN.jobs x
  rcases hr with ⟨hr, rfl, rfl⟩ | ⟨rfl, ha, rfl⟩
  · exact ⟨fn, hfn, hl₁, hj₁.2.2.1, fun _ => ⟨hN, hc₁⟩, fun e => absurd e hr⟩
  · have fA := frame_jobQueueAppend ha
    have hq' := hN.queues.append hfs hj₁.1 (hl₁ ▸ hj) hj₁.2.2.1 hj₁.2.2.2 hu ha
    rw [hj₁.2.1] at hq'
    obtain ⟨-, -, -, hjobs, -⟩ := jobQueueAppend_effect hN.queues hfs ha
    refine ⟨fn, hfn, fA.2.live.trans hl₁, ((hjobs j).2.2.1).trans hj₁.2.2.1,
      fun e => absurd rfl e, fun _ => ⟨hN.frame fA.1 fA.2 (hN.counters.append ha) hq', fun hc => ?_⟩⟩
    have := (hc₁ hc).append hfs hN.queues hj₁.1 ha
    rw [hj₁.2.1] at this
    rw [fA.2.live, hl₁]
    refine this.mono fun x hx => ?_
    by_cases e : x = j
    · exact e ▸ List.mem_cons_self _ _
    · exact List.mem_cons_of_mem _ ((List.mem_erase_of_ne e).2 hx)

theorem BrokerInv.listHead {f j : Nat} {p : GearmanJobPriority} (h : BrokerInv s fs qs)
    (hf : f ∈ fs) (hj : (s.functions f).jobList p = some j) :
    ∃ rest, qs f p = j :: rest ∧ j ∈ s.live ∧ (s.jobs j).worker = none := by
  have hc := h.queues.chain f hf p
  rw [hj] at hc
  obtain ⟨rest, hq⟩ : ∃ rest, qs f p = j :: rest := by
    cases e : qs f p with
    | nil => rw [e] at hc; cases hc
    | cons y ys => rw [e] at hc; exact ⟨ys, by rw [Option.some.inj hc.1]⟩
  obtain ⟨hjl, -, -, hjw⟩ := h.queues.mem f hf p j (hq ▸ List.mem_cons_self _ _)
  exact ⟨rest, hq, hjl, hjw⟩

theorem BrokerInv.takeHead {w f j : Nat} {p : GearmanJobPriority} (h : BrokerInv s fs qs)
    (hf : f ∈ fs) (hj : (s.functions f).jobList p = some j) (ht : jobTakeHead s w j p = some s') :
    BrokerInv s' fs (dequeue qs f p) ∧
      (QueueComplete s qs s.live → QueueComplete s' (dequeue qs f p) s'.live) ∧
      j ∈ s'.live ∧ (s'.jobs j).worker = some w ∧ Unqueued fs (dequeue qs f p) j := by
  have fT := frame_jobTakeHead ht
  obtain ⟨rest, hq, hjl, hjw⟩ := h.listHead hf hj
  have hQ := h.queues.takeHead hf hj ht
  obtain ⟨-, -, -, -, -, -, hjob, -⟩ := jobTakeHead_effect ht
  have hw : (s'.jobs j).worker = some w := by rw [hjob]
  exact ⟨h.frame fT.1 fT.2 (h.counters.takeHead h.hash.nodup hjl hjw ht) hQ,
    fun hc => fT.2.live ▸ hc.takeHead h.queues hf hj ht, fT.2.live ▸ hjl, hw,
    hQ.unqueued (by rw [hw]; rfl)⟩

theorem BrokerInv.found {fuel con w : Nat} {pr : Nat → Bool} (h : BrokerInv s fs qs)
    (hfound : chainFind (fun w => (s.workers w).conNext) pr fuel (s.cons con).workerList =
      some (some w)) : (s.workers w).function ∈ fs ∧ pr w := by
  obtain ⟨ws, hws, hm⟩ := h.workers.con con
  have e := chainFind_eq hws hfound
  exact ⟨hm w (List.mem_of_find?_eq_some e.symm), List.find?_some e.symm⟩

theorem firstPriority_some {f : ServerFunction} {p : GearmanJobPriority}
    (hp : firstPriority f = some p) : (f.jobList p).isSome := by
  unfold firstPriority at hp
  have := List.find?_some hp
  exact this

theorem BrokerInv.take {fuel con : Nat} {r : Option Nat} (h : BrokerInv s fs qs)
    (ht : gearmanServerJobTake fuel s con = some (s', r)) :
    ∃ qs', BrokerInv s' fs qs' ∧ (QueueComplete s qs s.live → QueueComplete s' qs' s'.live) ∧
      ∀ j, r = some j → j ∈ s'.live ∧ (s'.jobs j).worker.isSome := by
  induction fuel generalizing s qs with
  | zero => simp [gearmanServerJobTake] at ht
  | succ fuel ih =>
    obtain ⟨_, hfound, ⟨-, rfl, rfl⟩ | ⟨w, p, j, s₁, rfl, -, hj, h₁, hcase⟩⟩ :=
      gearmanServerJobTake_succ ht
    · exact ⟨qs, h, id, fun _ e => by cases e⟩
    obtain ⟨hB, hc, hjl, hjw, hu⟩ := h.takeHead (h.found hfound).1 hj h₁
    rcases hcase with ⟨-, rfl, rfl⟩ | ⟨-, s₂, h₂, ht⟩
    · exact ⟨_, hB, hc, fun j' e => by cases e; exact ⟨hjl, by rw [hjw]; rfl⟩⟩
    · obtain ⟨qs', h', hc', hr⟩ := ih (hB.free hjl hu h₂) ht
      exact ⟨qs', h', fun hq => hc' ((hc hq).jobFree (fun _ => List.mem_of_mem_erase) h₂), hr⟩

theorem BrokerInv.peek {fuel con : Nat} {r : Option Nat} (h : BrokerInv s fs qs)
    (ht : gearmanServerJobPeek fuel s con = some (s', r)) :
    ∃ qs', BrokerInv s' fs qs' ∧ (QueueComplete s qs s.live → QueueComplete s' qs' s'.live) := by
  induction fuel generalizing s qs with
  | zero => simp [gearmanServerJobPeek] at ht
  | succ fuel ih =>
    obtain ⟨_, -, ⟨-, rfl, -⟩ | ⟨_, _, j, -, -, -, ⟨-, rfl, -⟩ | ⟨-, s₁, t, s₂, h₁, h₂, ht⟩⟩⟩ :=
      gearmanServerJobPeek_succ ht
    · exact ⟨qs, h, id⟩
    · exact ⟨qs, h, id⟩
    set s₀ := s.modifyJob j fun job => { job with ignore := false }
    have d₀ : DispatchEq s s₀ := dispatchEq_modifyJob fun _ => rfl
    have h₀ : BrokerInv s₀ fs qs :=
      h.dispatchEq (skeletonEq_modifyJob _ _) (tablesEq_modifyJob fun _ => rfl) d₀
    obtain ⟨qs₁, hB₁, hc₁, hr⟩ := h₀.take h₁
    obtain ⟨htl, htw⟩ := hr t rfl
    obtain ⟨qs', h', hc'⟩ := ih (hB₁.free htl (hB₁.queues.unqueued htw) h₂) ht
    refine ⟨qs', h', fun hq => hc' (hc₁ ?_ |>.jobFree (fun _ => List.mem_of_mem_erase) h₂)⟩
    exact (hq.congr fun x _ => d₀.jobs x).mono fun x hx => d₀.live ▸ hx

end

end GearmanServer
