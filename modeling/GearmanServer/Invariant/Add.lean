import GearmanServer.Invariant.Broker

/-!
# `gearman_server_job_add` keeps the invariant

The call finds or creates its function, then either attaches the client to the job its
lookup finds, or creates a job, fills it in, hashes it, hands it to the persistent queue and
queues it; each failure after the creation frees the job again. A function that
`gearman_server_function_get` adds has empty lists and zero counters, so the lists of the
functions grow by empty lists (`extendQueues`).
-/

namespace GearmanServer

def extendQueues (fs : List Nat) (qs : Nat → GearmanJobPriority → List Nat) :
    Nat → GearmanJobPriority → List Nat :=
  fun f p => if f ∈ fs then qs f p else []

section
variable {s s' : Server} {fs fs' : List Nat} {qs : Nat → GearmanJobPriority → List Nat}

/-! ## Functions without jobs -/

def ServerFunction.Idle (f : ServerFunction) : Prop :=
  f.jobTotal = 0 ∧ f.jobRunning = 0 ∧ f.jobCount = 0 ∧ (∀ p, f.jobList p = none) ∧
    (∀ p, f.jobEnd p = none) ∧ f.workerList = none

theorem WorkersInv.extend (h : WorkersInv s fs) (hsub : ∀ f ∈ fs, f ∈ fs')
    (hnew : ∀ f ∈ fs', f ∉ fs → (s.functions f).Idle) : WorkersInv s fs' := by
  refine ⟨fun c => ?_, fun f hf => ?_⟩
  · obtain ⟨ws, hws, hm⟩ := h.con c
    exact ⟨ws, hws, fun w hw => hsub _ (hm w hw)⟩
  · by_cases hfs : f ∈ fs
    · exact h.function f hfs
    · exact ⟨[], (hnew f hf hfs).2.2.2.2.2⟩

theorem CounterInv.not_mem {f : Nat} (h : CounterInv s fs) (hf : f ∉ fs) :
    jobTotalOf s f = 0 ∧ jobRunningOf s f = 0 := by
  have hno : ∀ x ∈ s.live, (s.jobs x).function ≠ some f := fun x hx e => by
    obtain ⟨g, hg, e'⟩ := h.function x hx
    rw [e] at e'
    exact hf (Option.some.inj e' ▸ hg)
  constructor
  · exact List.countP_eq_zero.2 fun x hx => by simpa using hno x hx
  · exact List.countP_eq_zero.2 fun x hx => by simp [hno x hx]

theorem CounterInv.extend (h : CounterInv s fs) (hsub : ∀ f ∈ fs, f ∈ fs')
    (hnew : ∀ f ∈ fs', f ∉ fs → (s.functions f).Idle) : CounterInv s fs' := by
  refine ⟨fun f hf => ?_, fun f hf => ?_, fun x hx => ?_⟩
  · by_cases hfs : f ∈ fs
    · exact h.total f hfs
    · rw [(hnew f hf hfs).1, (h.not_mem hfs).1]
  · by_cases hfs : f ∈ fs
    · exact h.running f hfs
    · rw [(hnew f hf hfs).2.1, (h.not_mem hfs).2]
  · obtain ⟨f, hf, e⟩ := h.function x hx
    exact ⟨f, hsub f hf, e⟩

theorem QueueInv.extend (h : QueueInv s fs qs)
    (hnew : ∀ f ∈ fs', f ∉ fs → (s.functions f).Idle) : QueueInv s fs' (extendQueues fs qs) := by
  have hin : ∀ {f} p, f ∈ fs → extendQueues fs qs f p = qs f p := fun p hfs => if_pos hfs
  have hout : ∀ {f} p, f ∉ fs → extendQueues fs qs f p = [] := fun p hfs => if_neg hfs
  refine ⟨fun f hf p => ?_, fun f hf p => ?_, fun f hf p x hx => ?_, fun f hf => ?_,
    fun f hf p => ?_, fun f hf p x hx => ?_⟩ <;> by_cases hfs : f ∈ fs
  · rw [hin p hfs]; exact h.chain f hfs p
  · rw [hout p hfs, (hnew f hf hfs).2.2.2.1 p]; rfl
  · rw [hin p hfs]; exact h.last f hfs p
  · rw [hout p hfs]; exact (hnew f hf hfs).2.2.2.2.1 p
  · rw [hin p hfs] at hx; exact h.mem f hfs p x hx
  · rw [hout p hfs] at hx; cases hx
  · rw [hin _ hfs, hin _ hfs, hin _ hfs]; exact h.count f hfs
  · rw [hout _ hfs, hout _ hfs, hout _ hfs]; exact (hnew f hf hfs).2.2.1
  · rw [hin p hfs]; exact h.sorted f hfs p
  · rw [hout p hfs]; exact List.Pairwise.nil
  · rw [hin p hfs] at hx; exact h.stamp f hfs p x hx
  · rw [hout p hfs] at hx; cases hx

theorem QueueComplete.extend {hs : List Nat} (h : QueueComplete s qs hs) (hc : CounterInv s fs)
    (hsub : ∀ x ∈ hs, x ∈ s.live) : QueueComplete s (extendQueues fs qs) hs := by
  intro x hx hw
  obtain ⟨f, hf, hm⟩ := h x hx hw
  obtain ⟨g, hg, e⟩ := hc.function x (hsub x hx)
  rw [hf] at e
  obtain rfl := Option.some.inj e
  exact ⟨f, hf, by simpa [extendQueues, hg] using hm⟩

/-! ## `gearman_server_function_get` -/

theorem BrokerInv.functionGet {fuel : Nat} {name : Bytes} {fm nm : Bool} {fo : Option Nat}
    (h : BrokerInv s fs qs) (hg : gearmanServerFunctionGet fuel s name fm nm = some (s', fo)) :
    ∃ fs', BrokerInv s' fs' (extendQueues fs qs) ∧
      (QueueComplete s qs s.live → QueueComplete s' (extendQueues fs qs) s'.live) ∧
      s'.live = s.live ∧ s'.jobs = s.jobs ∧ s'.clients = s.clients ∧
      (∀ fn, fo = some fn → fn ∈ fs' ∧ (s'.functions fn).functionName = name) ∧
      ∀ f ∈ fs, f ∈ fs' := by
  obtain ⟨e, -, hbody, fs', hF, hfs', hfo⟩ := h.functions.get hg
  have hT : TablesEq s s' := by
    refine ⟨?_, ?_, ?_, ?_, ?_, ?_, ?_, ?_, ?_, ?_, ?_, ?_, fun x => ?_⟩ <;> rw [e]
  have hj : s'.jobs = s.jobs := by rw [e]
  have hb : ∀ f ∈ fs, (s'.functions f).body = (s.functions f).body := fun f hf =>
    hbody f (Nat.ne_of_lt (h.functions.lt_top f hf))
  have hsub : ∀ f ∈ fs, f ∈ fs' := by
    rcases hfs' with rfl | ⟨rfl, -⟩
    · exact fun f hf => hf
    · exact fun f hf => List.mem_cons_of_mem _ hf
  have hnew : ∀ f ∈ fs', f ∉ fs → (s'.functions f).Idle := by
    rcases hfs' with rfl | ⟨rfl, hb'⟩
    · exact fun f hf hf' => absurd hf hf'
    · intro f hf hf'
      obtain rfl : f = s.functionTop := (List.mem_cons.1 hf).resolve_right hf'
      have e' := congrArg (fun g : ServerFunction => (g.jobTotal, g.jobRunning, g.jobCount,
        g.jobList, g.jobEnd, g.workerList)) hb'
      simp only [ServerFunction.body, Prod.mk.injEq] at e'
      exact ⟨e'.1, e'.2.1, e'.2.2.1, fun p => congrFun e'.2.2.2.1 p,
        fun p => congrFun e'.2.2.2.2.1 p, e'.2.2.2.2.2⟩
  have hW : WorkersInv s' fs := h.workers.congr (fun w => by rw [e]; exact ⟨rfl, rfl, rfl⟩)
    (fun c => by rw [e]) fun f hf => by
      have e' := congrArg ServerFunction.workerList (hb f hf)
      exact e'
  have hC : CounterInv s' fs := h.counters.congr hT.live (fun x => by rw [hj]; exact ⟨rfl, rfl⟩)
    fun f hf => by
      have e' := congrArg (fun g : ServerFunction => (g.jobTotal, g.jobRunning)) (hb f hf)
      exact Prod.mk.inj e'
  have hQ : QueueInv s' fs qs := h.queues.congr (fun f hf => by
      have e' := congrArg (fun g : ServerFunction => (g.jobList, g.jobEnd, g.jobCount)) (hb f hf)
      simpa only [Prod.mk.injEq] using e')
    (fun f hf p x hx => ⟨hT.live ▸ (h.queues.mem f hf p x hx).1, by rw [hj], by rw [e]⟩)
    (by rw [e])
  refine ⟨fs', ⟨hF, hW.extend hsub hnew, hT.live ▸ h.hash.tables hT, hT.live ▸ h.pool.tables hT,
    hC.extend hsub hnew, hQ.extend hnew, h.clients.tables hT⟩, fun hq => ?_, hT.live, hj,
    hT.clients, hfo, hsub⟩
  refine QueueComplete.extend ?_ hC fun x hx => hx
  rw [hT.live]
  exact hq.congr fun x _ => by rw [hj]

end

/-! ## The outcomes of the call -/

section
variable {fuel : Nat} {s s' : Server} {fname unique : Bytes} {data : Option Bytes}
  {priority : GearmanJobPriority} {client : Option Nat} {env : AddEnv} {jo : Option Nat}
  {ret : GearmanReturn}

theorem gearmanServerJobAdd_cases
    (ha : gearmanServerJobAdd fuel s fname unique data priority client env = some (s', jo, ret)) :
    ∃ s₁ fo, gearmanServerFunctionGet fuel s fname env.functionMalloc env.nameMalloc =
        some (s₁, fo) ∧
      (fo = none ∧ s' = s₁ ∧ jo = none ∧ ret = .memoryAllocationFailure ∨
        ∃ fn key found, fo = some fn ∧ jobAddLookup fuel s₁ fn unique data env = some (key, found) ∧
          ((∃ j, found = some j ∧ s' = jobAddClient s₁ j client ∧ jo = some j ∧
              ret = .jobExists) ∨
            found = none ∧
              ((0 < (s₁.functions fn).maxQueueSize ∧
                  (s₁.functions fn).maxQueueSize ≤ (s₁.functions fn).jobTotal) ∧
                  s' = s₁ ∧ jo = none ∧ ret = .jobQueueFull ∨
                ¬(0 < (s₁.functions fn).maxQueueSize ∧
                  (s₁.functions fn).maxQueueSize ≤ (s₁.functions fn).jobTotal) ∧
                ∃ s₂ jo₂, gearmanServerJobCreate s₁ env.jobMalloc = some (s₂, jo₂) ∧
                  (jo₂ = none ∧ s' = s₂ ∧ jo = none ∧ ret = .memoryAllocationFailure ∨
                    ∃ j, jo₂ = some j ∧
                      jobAddNew fuel s₂ j fn fname unique data priority client env key =
                        some (s', jo, ret))))) := by
  simp only [gearmanServerJobAdd, Option.bind_eq_bind, Option.bind_eq_some] at ha
  obtain ⟨⟨s₁, fo⟩, hg, ha⟩ := ha
  refine ⟨s₁, fo, hg, ?_⟩
  rcases fo with _ | fn
  · simp only [Option.pure_def, Option.some.injEq, Prod.mk.injEq] at ha
    exact .inl ⟨rfl, ha.1.symm, ha.2.1.symm, ha.2.2.symm⟩
  simp only [Option.bind_eq_some] at ha
  obtain ⟨⟨key, found⟩, hlk, ha⟩ := ha
  refine .inr ⟨fn, key, found, rfl, hlk, ?_⟩
  rcases found with _ | j
  · refine .inr ⟨rfl, ?_⟩
    split_ifs at ha with hfull
    · simp only [Option.pure_def, Option.some.injEq, Prod.mk.injEq] at ha
      exact .inl ⟨hfull, ha.1.symm, ha.2.1.symm, ha.2.2.symm⟩
    simp only [Option.bind_eq_some] at ha
    obtain ⟨⟨s₂, jo₂⟩, hcr, ha⟩ := ha
    refine .inr ⟨hfull, s₂, jo₂, hcr, ?_⟩
    rcases jo₂ with _ | j
    · simp only [Option.pure_def, Option.some.injEq, Prod.mk.injEq] at ha
      exact .inl ⟨rfl, ha.1.symm, ha.2.1.symm, ha.2.2.symm⟩
    · exact .inr ⟨j, rfl, ha⟩
  · simp only [Option.pure_def, Option.some.injEq, Prod.mk.injEq] at ha
    exact .inl ⟨j, rfl, ha.1.symm, ha.2.1.symm, ha.2.2.symm⟩

theorem jobAddNew_cases {j fn : Nat} {key : UInt32}
    (ha : jobAddNew fuel s j fn fname unique data priority client env key = some (s', jo, ret)) :
    ∃ s₄ err, jobAddPersist fuel (jobAddInit s j fn unique data priority key) j fname unique data
        priority client env = some (s₄, err) ∧
      ((∃ r, err = some r ∧ s' = s₄ ∧ jo = none ∧ ret = r) ∨
        err = none ∧ ∃ s₅ r, gearmanServerJobQueue fuel s₄ j env.packetAdd = some (s₅, r) ∧
          (r ≠ .success ∧ jo = none ∧ ret = r ∧
              gearmanServerJobFree fuel (jobAddDoneLog s₅ j fn unique client) j = some s' ∨
            r = .success ∧ s' = jobAddClient s₅ j client ∧ jo = some j ∧ ret = .success)) := by
  simp only [jobAddNew, Option.bind_eq_bind, Option.bind_eq_some] at ha
  obtain ⟨⟨s₄, err⟩, hp, ha⟩ := ha
  refine ⟨s₄, err, hp, ?_⟩
  rcases err with _ | r
  · simp only [Option.bind_eq_some] at ha
    obtain ⟨⟨s₅, r⟩, hq, ha⟩ := ha
    refine .inr ⟨rfl, s₅, r, hq, ?_⟩
    by_cases hr : r = .success
    · simp only [hr, ne_eq, not_true_eq_false, if_false, Option.pure_def, Option.some.injEq,
        Prod.mk.injEq] at ha
      exact .inr ⟨hr, ha.1.symm, ha.2.1.symm, ha.2.2.symm⟩
    · simp only [hr, ne_eq, not_false_eq_true, if_true, Option.bind_eq_some, Option.pure_def,
        Option.some.injEq, Prod.mk.injEq] at ha
      obtain ⟨s₆, h₆, rfl, rfl, rfl⟩ := ha
      exact .inl ⟨hr, rfl, rfl, h₆⟩
  · simp only [Option.pure_def, Option.some.injEq, Prod.mk.injEq] at ha
    exact .inl ⟨r, rfl, ha.1.symm, ha.2.1.symm, ha.2.2.symm⟩

end

/-! ## Each step of the call -/

section
variable {s s' : Server} {fs : List Nat} {qs : Nat → GearmanJobPriority → List Nat}

theorem frame_queueLog (s : Server) (l : List QueueCall) :
    SkeletonEq s { s with queueLog := l } ∧ TablesEq s { s with queueLog := l } ∧
      DispatchEq s { s with queueLog := l } :=
  ⟨⟨rfl, rfl, rfl, fun _ => rfl, fun _ => rfl, fun _ => rfl⟩,
    ⟨rfl, rfl, rfl, rfl, rfl, rfl, rfl, rfl, rfl, rfl, rfl, rfl, fun _ => rfl⟩, ⟨rfl, fun _ => rfl, rfl, rfl, rfl⟩⟩

theorem frame_jobAddDoneLog (s : Server) (j fn : Nat) (unique : Bytes) (client : Option Nat) :
    SkeletonEq s (jobAddDoneLog s j fn unique client) ∧
      TablesEq s (jobAddDoneLog s j fn unique client) ∧
      DispatchEq s (jobAddDoneLog s j fn unique client) := by
  unfold jobAddDoneLog
  split_ifs
  · exact frame_queueLog s _
  · exact ⟨.refl s, .refl s, .refl s⟩

theorem jobAddHash_field {β : Type} (P : ServerJob → β)
    (hj : ∀ a p, P (jobLinks.setNext a p) = P a ∧ P (jobLinks.setPrev a p) = P a)
    (hu : ∀ a p, P (uniqueLinks.setNext a p) = P a ∧ P (uniqueLinks.setPrev a p) = P a)
    (hk : ∀ (a : ServerJob) k, P { a with jobHandleKey := k } = P a) (s : Server) (j : Nat)
    (key : UInt32) (x : Nat) : P ((jobAddHash s j key).jobs x) = P (s.jobs x) := by
  simp only [jobAddHash]
  rw [jobLinks.field_hashAdd P (fun a p => (hj a p).1) (fun a p => (hj a p).2),
    Server.modifyJob_field P (fun a => hk a _),
    uniqueLinks.field_hashAdd P (fun a p => (hu a p).1) (fun a p => (hu a p).2)]

theorem skeletonEq_jobAddHash (s : Server) (j : Nat) (key : UInt32) :
    SkeletonEq s (jobAddHash s j key) :=
  ⟨rfl, rfl, rfl, fun _ => rfl, fun _ => rfl, fun _ => rfl⟩

theorem skeletonEq_jobAddFields (s : Server) (j fn : Nat) (unique : Bytes) (data : Option Bytes)
    (priority : GearmanJobPriority) (key : UInt32) :
    SkeletonEq s (jobAddFields s j fn unique data priority key) := by
  rw [jobAddFields_eq]
  refine ⟨rfl, rfl, rfl, fun f => ?_, fun _ => rfl, fun _ => rfl⟩
  dsimp only
  rw [Server.modifyFunction_functions]
  split_ifs with e
  · rw [e]; rfl
  · rfl

theorem serverJobGetUnique_mem {hs : List Nat} {fuel j fn n : Nat} {key : UInt32} {unique : Bytes}
    (h : HashInv s hs) (hg : serverJobGetUnique fuel s key fn unique n = some (some j)) :
    j ∈ hs ∧ uniqueMatches (s.jobs j) key fn unique n = true := by
  have e := chainFind_eq (h.unique.bucket (hashBucket key)).chain hg
  have hm := List.find?_some e.symm
  exact ⟨(mem_bucketOf.1 (List.mem_of_find?_eq_some e.symm)).1, hm⟩

theorem jobAddLookup_mem {hs : List Nat} {fuel fn j : Nat} {unique : Bytes} {data : Option Bytes}
    {env : AddEnv} {key : UInt32} (h : HashInv s hs)
    (hl : jobAddLookup fuel s fn unique data env = some (key, some j)) : j ∈ hs := by
  unfold jobAddLookup at hl
  split_ifs at hl
  · simp only [Option.some.injEq, Prod.mk.injEq, reduceCtorEq, and_false] at hl
  · simp only [Option.some.injEq, Prod.mk.injEq, reduceCtorEq, and_false] at hl
  all_goals
    obtain ⟨r, hr, e⟩ := Option.map_eq_some'.1 hl
    rw [(Prod.mk.inj e).2] at hr
    exact (serverJobGetUnique_mem h hr).1

theorem BrokerInv.addClient {j : Nat} {client : Option Nat} (h : BrokerInv s fs qs)
    (hj : j ∈ s.live) (hc : ∀ c, client = some c → (s.clients c).job = none) :
    BrokerInv (jobAddClient s j client) fs qs := by
  have hco := clientsOnly_jobAddClient s j client
  have hl := hco.dispatchEq.live
  exact ⟨h.functions.skeleton (.clientsOnly hco), h.workers.skeleton (.clientsOnly hco),
    hl ▸ h.hash.clientsOnly hco, hl ▸ h.pool.clientsOnly hco, h.counters.dispatchEq hco.dispatchEq,
    h.queues.dispatchEq hco.dispatchEq, h.clients.addClient hj hc⟩

theorem BrokerInv.init {ok : Bool} {s₂ : Server} {j fn : Nat} (unique : Bytes)
    (data : Option Bytes) (priority : GearmanJobPriority) (key : UInt32) (h : BrokerInv s fs qs)
    (hfn : fn ∈ fs) (hc : gearmanServerJobCreate s ok = some (s₂, some j)) :
    BrokerInv (jobAddInit s₂ j fn unique data priority key) fs qs ∧ Unqueued fs qs j ∧
      j ∉ s.live ∧ (jobAddInit s₂ j fn unique data priority key).live = j :: s.live ∧
      (jobAddInit s₂ j fn unique data priority key).clients = s.clients ∧
      ((jobAddInit s₂ j fn unique data priority key).jobs j).dispatch =
        (some fn, priority, none, none) ∧
      (QueueComplete s qs s.live →
        QueueComplete (jobAddInit s₂ j fn unique data priority key) qs s.live) := by
  obtain ⟨hj, hjt, hH, hP⟩ := h.hash.create h.pool hc
  obtain ⟨e, hjob, -⟩ := gearmanServerJobCreate_some hc
  have eF := jobAddFields_eq s₂ j fn unique data priority key
  rw [jobAddInit_eq]
  set F := jobAddFields s₂ j fn unique data priority key
  have dH := dispatchEq_jobAddHash F j key
  have hFj : ∀ x, x ≠ j → F.jobs x = s₂.jobs x := fun x hx => by
    rw [eF]; exact Function.update_noteq hx _ _
  have htop : F.jobTop = s₂.jobTop := by rw [eF]; rfl
  have hHF : HashInv F s.live := hH.congr htop.ge (by rw [eF]; exact ⟨rfl, rfl, rfl, rfl⟩)
    fun x hx => by rw [hFj x fun e' => hj (e' ▸ hx)]
  have hPF : PoolInv F (j :: s.live) := hP.congr htop.ge (by rw [eF]; rfl) (by rw [eF]; rfl)
    fun x hx => by rw [hFj x fun e' => hx (e' ▸ List.mem_cons_self _ _)]; exact ⟨rfl, rfl⟩
  have hk : (F.jobs j).uniqueKey = key := by rw [eF]; simp
  obtain ⟨hHI, hPI⟩ := hHF.insert hPF hj (hjt.trans_eq htop.symm) hk
  have hl₂ : s₂.live = j :: s.live := by rw [e]
  have hl : (jobAddHash F j key).live = j :: s.live := by
    rw [jobAddHash_live, ← hl₂, eF]; rfl
  have hk₂ : SkeletonEq s s₂ := by
    rw [e]; exact ⟨rfl, rfl, rfl, fun _ => rfl, fun _ => rfl, fun _ => rfl⟩
  have hkI : SkeletonEq s (jobAddHash F j key) :=
    hk₂.trans ((skeletonEq_jobAddFields _ _ _ _ _ _ _).trans (skeletonEq_jobAddHash _ _ _))
  obtain ⟨hQ, hu⟩ : QueueInv F fs qs ∧ Unqueued fs qs j := h.queues.create hj hc
  have hC : ClientsInv F := h.clients.create hj hc
  refine ⟨⟨h.functions.skeleton hkI, h.workers.skeleton hkI, hl ▸ hHI, hl ▸ hPI,
    (h.counters.create hfn hj hc).dispatchEq dH, hQ.dispatchEq dH,
    hC.congr rfl rfl fun x _ => ⟨?_, ?_⟩⟩, hu, hj, hl, ?_, ?_, fun hq => ?_⟩
  · exact jobAddHash_field ServerJob.clientList (fun _ _ => ⟨rfl, rfl⟩) (fun _ _ => ⟨rfl, rfl⟩)
      (fun _ _ => rfl) F j key x
  · exact jobAddHash_field ServerJob.clientCount (fun _ _ => ⟨rfl, rfl⟩) (fun _ _ => ⟨rfl, rfl⟩)
      (fun _ _ => rfl) F j key x
  · rw [jobAddHash_clients, eF]
    exact (congrArg Server.clients e :)
  · rw [dH.jobs j, eF]
    simp [hjob, ServerJob.dispatch]
  · exact (hq.create hj hc).congr fun x _ => dH.jobs x

theorem jobAddPersist_cases {fuel j : Nat} {fname unique : Bytes} {data : Option Bytes}
    {priority : GearmanJobPriority} {client : Option Nat} {env : AddEnv}
    {err : Option GearmanReturn}
    (h : jobAddPersist fuel s j fname unique data priority client env = some (s', err)) :
    ∃ s₀, SkeletonEq s s₀ ∧ TablesEq s s₀ ∧ DispatchEq s s₀ ∧ s₀.workers = s.workers ∧
      (err = none ∧ s' = s₀ ∨ ∃ r, err = some r ∧ gearmanServerJobFree fuel s₀ j = some s') := by
  have ha : ∀ (s : Server) (r : GearmanReturn),
      jobAddAbort fuel s j r = some (s', err) →
        SkeletonEq s (s.modifyJob j fun job => { job with data := none }) ∧
        TablesEq s (s.modifyJob j fun job => { job with data := none }) ∧
        DispatchEq s (s.modifyJob j fun job => { job with data := none }) ∧ err = some r ∧
        gearmanServerJobFree fuel (s.modifyJob j fun job => { job with data := none }) j =
          some s' := fun s r h => by
    obtain ⟨s₁, h₁, e⟩ := Option.map_eq_some'.1 h
    cases e
    exact ⟨skeletonEq_modifyJob _ _, tablesEq_modifyJob fun _ => rfl,
      dispatchEq_modifyJob fun _ => rfl, rfl, h₁⟩
  unfold jobAddPersist at h
  dsimp only at h
  have f₁ := frame_queueLog s (QueueCall.add (uniqueField (s.jobs j).unique) unique.length fname
    data priority :: s.queueLog)
  have f₂ := frame_queueLog { s with queueLog := (QueueCall.add (uniqueField (s.jobs j).unique)
    unique.length fname data priority :: s.queueLog) } (QueueCall.flush :: QueueCall.add
      (uniqueField (s.jobs j).unique) unique.length fname data priority :: s.queueLog)
  split_ifs at h
  · cases h
    refine ⟨_, ?_, ?_, ?_, ?_, .inl ⟨rfl, rfl⟩⟩
    exacts [skeletonEq_modifyJob _ _, tablesEq_modifyJob fun _ => rfl,
      dispatchEq_modifyJob fun _ => rfl, rfl]
  · obtain ⟨k, t, d, rfl, hf⟩ := ha _ _ h
    exact ⟨_, f₁.1.trans k, f₁.2.1.trans t, f₁.2.2.trans d, rfl, .inr ⟨_, rfl, hf⟩⟩
  · obtain ⟨k, t, d, rfl, hf⟩ := ha _ _ h
    exact ⟨_, (f₁.1.trans f₂.1).trans k, (f₁.2.1.trans f₂.2.1).trans t,
      (f₁.2.2.trans f₂.2.2).trans d, rfl, .inr ⟨_, rfl, hf⟩⟩
  · cases h
    refine ⟨_, ?_, ?_, ?_, ?_, .inl ⟨rfl, rfl⟩⟩
    exacts [(f₁.1.trans f₂.1).trans (skeletonEq_modifyJob _ _),
      (f₁.2.1.trans f₂.2.1).trans (tablesEq_modifyJob fun _ => rfl),
      (f₁.2.2.trans f₂.2.2).trans (dispatchEq_modifyJob fun _ => rfl), rfl]
  · cases h
    refine ⟨_, ?_, ?_, ?_, ?_, .inl ⟨rfl, rfl⟩⟩
    exacts [f₁.1.trans (skeletonEq_modifyJob _ _), f₁.2.1.trans (tablesEq_modifyJob fun _ => rfl),
      f₁.2.2.trans (dispatchEq_modifyJob fun _ => rfl), rfl]
  · cases h
    exact ⟨s, .refl s, .refl s, .refl s, rfl, .inl ⟨rfl, rfl⟩⟩

theorem BrokerInv.addNew {fuel : Nat} {ok : Bool} {s₂ : Server} {j fn : Nat} {fname unique : Bytes}
    {data : Option Bytes} {priority : GearmanJobPriority} {client : Option Nat} {env : AddEnv}
    {key : UInt32} {jo : Option Nat} {ret : GearmanReturn} (h : BrokerInv s fs qs)
    (hfn : fn ∈ fs) (hcr : gearmanServerJobCreate s ok = some (s₂, some j))
    (hc : ∀ c, client = some c → (s.clients c).job = none)
    (ha : jobAddNew fuel s₂ j fn fname unique data priority client env key = some (s', jo, ret)) :
    ∃ qs', BrokerInv s' fs qs' ∧ (QueueComplete s qs s.live → QueueComplete s' qs' s'.live) := by
  obtain ⟨h₃, hu, hj, hl₃, hcl₃, hd₃, hq₃⟩ := h.init unique data priority key hfn hcr
  obtain ⟨s₄, err, hp, ha⟩ := jobAddNew_cases ha
  obtain ⟨s₀, k₀, t₀, d₀, -, hp⟩ := jobAddPersist_cases hp
  have h₀ := h₃.dispatchEq k₀ t₀ d₀
  have hl₀ : s₀.live = j :: s.live := t₀.live.trans hl₃
  have hj₀ : j ∈ s₀.live := hl₀ ▸ List.mem_cons_self _ _
  have he₀ : ∀ x ∈ s₀.live.erase j, x ∈ s.live := fun x hx => by
    rwa [hl₀, List.erase_cons_head] at hx
  have hq₀ : QueueComplete s qs s.live → QueueComplete s₀ qs s.live := fun hq =>
    (hq₃ hq).congr fun x _ => d₀.jobs x
  rcases ha with ⟨r, rfl, rfl, -, -⟩ | ⟨rfl, s₅, r, hq, ha⟩
  · -- a queue callback failed
    obtain ⟨h', -⟩ | ⟨r', -, hf⟩ := hp
    · cases h'
    exact ⟨qs, h₀.free hj₀ hu hf, fun hq => (hq₀ hq).jobFree he₀ hf⟩
  obtain ⟨-, rfl⟩ | ⟨r', h', -⟩ := hp
  swap
  · cases h'
  have hn : (s₄.jobs j).worker.isSome ∨ (s₄.jobs j).functionNext = none := by
    right
    rw [d₀.functionNext]
    exact congrArg (fun d => d.2.2.2) hd₃
  obtain ⟨fn', -, hl₅, -, hfail, hsucc⟩ := h₀.queue hj₀ hu hn hq
  have hc₀ : QueueComplete s qs s.live → QueueComplete s₄ qs (s₄.live.erase j) := fun hq' => by
    rw [hl₀, List.erase_cons_head]
    exact hq₀ hq'
  rcases ha with ⟨hr, -, -, hf⟩ | ⟨rfl, rfl, -, -⟩
  · -- the queueing failed: the job is freed
    obtain ⟨h₅, hq₅⟩ := hfail hr
    obtain ⟨k₆, t₆, d₆⟩ := frame_jobAddDoneLog s₅ j fn unique client
    refine ⟨qs, (h₅.dispatchEq k₆ t₆ d₆).free (t₆.live ▸ hl₅ ▸ hj₀) hu hf, fun hq' => ?_⟩
    refine ((hq₅ (hc₀ hq')).congr fun x _ => d₆.jobs x).jobFree (fun x hx => ?_) hf
    rwa [t₆.live, hl₅] at hx
  · -- queued: the client is attached
    obtain ⟨h₅, hq₅⟩ := hsucc rfl
    obtain ⟨-, t₅⟩ := frame_jobQueue hq
    have hcl : s₅.clients = s.clients := t₅.clients.trans (t₀.clients.trans hcl₃)
    refine ⟨_, h₅.addClient (hl₅ ▸ hj₀) fun c e => hcl ▸ hc c e, fun hq' => ?_⟩
    exact (hq₅ (hc₀ hq')).clientsOnly (clientsOnly_jobAddClient _ _ _)

theorem BrokerInv.add {fuel : Nat} {fname unique : Bytes} {data : Option Bytes}
    {priority : GearmanJobPriority} {client : Option Nat} {env : AddEnv} {jo : Option Nat}
    {ret : GearmanReturn} (h : BrokerInv s fs qs)
    (hc : ∀ c, client = some c → (s.clients c).job = none)
    (ha : gearmanServerJobAdd fuel s fname unique data priority client env = some (s', jo, ret)) :
    ∃ fs' qs', BrokerInv s' fs' qs' ∧ (QueueComplete s qs s.live → QueueComplete s' qs' s'.live) ∧
      ∀ f ∈ fs, f ∈ fs' := by
  obtain ⟨s₁, fo, hg, ha⟩ := gearmanServerJobAdd_cases ha
  obtain ⟨fs₁, h₁, hq₁, -, -, hcl₁, hfo, hsub⟩ := h.functionGet hg
  have hc₁ : ∀ c, client = some c → (s₁.clients c).job = none := fun c e => hcl₁ ▸ hc c e
  rcases ha with ⟨-, rfl, -, -⟩ | ⟨fn, key, found, rfl, hlk, ha⟩
  · exact ⟨fs₁, _, h₁, hq₁, hsub⟩
  rcases ha with ⟨j, rfl, rfl, -, -⟩ | ⟨rfl, ha⟩
  · exact ⟨fs₁, _, h₁.addClient (jobAddLookup_mem h₁.hash hlk) hc₁,
      fun hq => (hq₁ hq).clientsOnly (clientsOnly_jobAddClient _ _ _), hsub⟩
  rcases ha with ⟨-, rfl, -, -⟩ | ⟨-, s₂, jo₂, hcr, ⟨rfl, rfl, -, -⟩ | ⟨j, rfl, ha⟩⟩
  · exact ⟨fs₁, _, h₁, hq₁, hsub⟩
  · rw [gearmanServerJobCreate_none hcr]
    exact ⟨fs₁, _, h₁, hq₁, hsub⟩
  · obtain ⟨qs', h', hq'⟩ := h₁.addNew (hfo fn rfl).1 hcr hc₁ ha
    exact ⟨fs₁, qs', h', hq' ∘ hq₁, hsub⟩

end

end GearmanServer
