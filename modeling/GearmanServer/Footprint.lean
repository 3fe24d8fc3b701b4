import GearmanServer.Run

/-!
# What each call writes

A state `s'` that is `s` with only some fields written is stated as
`s' = { s with f := s'.f, … }`. `ClientsOnly s s'` says that `s'` is `s` with other clients and
other client fields of the jobs (`client_list`, `client_count` and the IGNORE bit): a client
disconnect, the client loop of `gearman_server_job_free`, the registration of a client by
`gearman_server_job_add` and peek's clearing of IGNORE write nothing else. Each composite call
gets a lemma splitting it into the calls it makes.
-/

namespace GearmanServer

def ServerJob.withoutClients (job : ServerJob) : ServerJob :=
  { job with clientList := none, clientCount := 0, ignore := false }

structure ClientsOnly (s s' : Server) : Prop where
  eq : s' = { s with jobs := s'.jobs, clients := s'.clients }
  jobs : ∀ x, (s'.jobs x).withoutClients = (s.jobs x).withoutClients

section
variable {s s' s'' : Server}

theorem ClientsOnly.refl (s : Server) : ClientsOnly s s := ⟨rfl, fun _ => rfl⟩

theorem ClientsOnly.trans (h : ClientsOnly s s') (h' : ClientsOnly s' s'') : ClientsOnly s s'' := by
  refine ⟨?_, fun x => (h'.jobs x).trans (h.jobs x)⟩
  rw [h'.eq, h.eq]

theorem clientsOnly_modifyJob {j : Nat} {f : ServerJob → ServerJob}
    (hf : ∀ job, (f job).withoutClients = job.withoutClients) : ClientsOnly s (s.modifyJob j f) := by
  refine ⟨rfl, fun x => ?_⟩
  simp only [Server.modifyJob_jobs]
  split_ifs with hx
  · rw [hf, hx]
  · rfl

theorem clientsOnly_clientFree (s : Server) (c : Nat) :
    ClientsOnly s (gearmanServerClientFree s c) := by
  unfold gearmanServerClientFree
  split
  · exact .refl s
  · refine ⟨rfl, fun x => ?_⟩
    simp only [Server.modifyJob_jobs]
    split_ifs with hx
    · subst hx; rfl
    · rfl

theorem clientsOnly_freeClientList {fuel : Nat} {j : Nat} (h : freeClientList fuel s j = some s') :
    ClientsOnly s s' := by
  induction fuel, s, j using freeClientList.induct with
  | case1 fuel s j hl =>
    unfold freeClientList at h
    simp only [hl, Option.some.injEq] at h
    exact h ▸ .refl s
  | case2 s j c hl =>
    unfold freeClientList at h
    simp [hl] at h
  | case3 s j c fuel hl ih =>
    unfold freeClientList at h
    simp only [hl] at h
    exact (clientsOnly_clientFree s c).trans (ih h)

theorem clientsOnly_jobAddClient (s : Server) (j : Nat) (client : Option Nat) :
    ClientsOnly s (jobAddClient s j client) := by
  cases client with
  | none => exact .refl s
  | some c =>
    refine ⟨rfl, fun x => ?_⟩
    simp only [jobAddClient, Server.modifyJob_jobs]
    split_ifs with hx
    · subst hx; rfl
    · rfl

end

/-! ## What the dispatcher reads -/

def ServerJob.dispatch (job : ServerJob) :
    Option Nat × GearmanJobPriority × Option Nat × Option Nat :=
  (job.function, job.priority, job.worker, job.functionNext)

structure DispatchEq (s s' : Server) : Prop where
  live : s'.live = s.live
  jobs : ∀ x, (s'.jobs x).dispatch = (s.jobs x).dispatch
  functions : s'.functions = s.functions
  queuedAt : s'.queuedAt = s.queuedAt
  queueClock : s'.queueClock = s.queueClock

section
variable {s s' s'' : Server}

theorem DispatchEq.refl (s : Server) : DispatchEq s s := ⟨rfl, fun _ => rfl, rfl, rfl, rfl⟩

theorem DispatchEq.trans (h : DispatchEq s s') (h' : DispatchEq s' s'') : DispatchEq s s'' :=
  ⟨h'.live.trans h.live, fun x => (h'.jobs x).trans (h.jobs x), h'.functions.trans h.functions,
    h'.queuedAt.trans h.queuedAt, h'.queueClock.trans h.queueClock⟩

theorem ClientsOnly.dispatchEq (h : ClientsOnly s s') : DispatchEq s s' := by
  refine ⟨by rw [h.eq], fun x => ?_, by rw [h.eq], by rw [h.eq], by rw [h.eq]⟩
  have e := congrArg ServerJob.dispatch (h.jobs x)
  exact e

theorem DispatchEq.function (h : DispatchEq s s') (x : Nat) :
    (s'.jobs x).function = (s.jobs x).function :=
  congrArg Prod.fst (h.jobs x)

theorem DispatchEq.priority (h : DispatchEq s s') (x : Nat) :
    (s'.jobs x).priority = (s.jobs x).priority :=
  congrArg (fun d => d.2.1) (h.jobs x)

theorem DispatchEq.worker (h : DispatchEq s s') (x : Nat) :
    (s'.jobs x).worker = (s.jobs x).worker :=
  congrArg (fun d => d.2.2.1) (h.jobs x)

theorem DispatchEq.functionNext (h : DispatchEq s s') (x : Nat) :
    (s'.jobs x).functionNext = (s.jobs x).functionNext :=
  congrArg (fun d => d.2.2.2) (h.jobs x)

theorem dispatchEq_modifyJob {j : Nat} {f : ServerJob → ServerJob}
    (hf : ∀ job, (f job).dispatch = job.dispatch) : DispatchEq s (s.modifyJob j f) := by
  refine ⟨rfl, fun x => ?_, rfl, rfl, rfl⟩
  simp only [Server.modifyJob_jobs]
  split_ifs with hx
  · rw [hf, hx]
  · rfl

end

theorem jobAddFields_eq (s : Server) (j fn : Nat) (unique : Bytes) (data : Option Bytes)
    (priority : GearmanJobPriority) (key : UInt32) :
    jobAddFields s j fn unique data priority key =
    { s.modifyFunction fn (fun f => { f with jobTotal := f.jobTotal + 1 }) with
      jobs := Function.update s.jobs j { s.jobs j with
        priority, function := some fn,
        jobHandle := formatJobHandle s.jobHandlePrefix s.jobHandleCount,
        unique := formatUnique unique, data, dataSize := payloadSize data, uniqueKey := key }
      jobHandleCount := s.jobHandleCount + 1
      handleLog := formatJobHandle s.jobHandlePrefix s.jobHandleCount :: s.handleLog } := by
  simp only [jobAddFields, Server.modifyJob, Server.modifyFunction, Function.update_same,
    Function.update_idem]

theorem jobAddInit_eq (s : Server) (j fn : Nat) (unique : Bytes) (data : Option Bytes)
    (priority : GearmanJobPriority) (key : UInt32) :
    jobAddInit s j fn unique data priority key =
      jobAddHash (jobAddFields s j fn unique data priority key) j key := rfl

@[simp] theorem jobAddHash_live (s : Server) (j : Nat) (key : UInt32) :
    (jobAddHash s j key).live = s.live := rfl

@[simp] theorem jobAddHash_clients (s : Server) (j : Nat) (key : UInt32) :
    (jobAddHash s j key).clients = s.clients := rfl

theorem dispatchEq_jobAddHash (s : Server) (j : Nat) (key : UInt32) :
    DispatchEq s (jobAddHash s j key) := by
  have hu : ∀ (s : Server) (t t' : Fin gearmanJobHashSize → Option Nat) (c c' : Nat) b, DispatchEq s
      { s with jobs := (uniqueLinks.hashAdd s.jobs t c b j).1, uniqueHash := t', uniqueCount := c' } :=
    fun s t _ c _ b =>
      ⟨rfl, fun x => show ((uniqueLinks.hashAdd s.jobs t c b j).1 x).dispatch = _ from
        uniqueLinks.field_hashAdd ServerJob.dispatch (fun _ _ => rfl) (fun _ _ => rfl) x, rfl, rfl,
        rfl⟩
  have hj : ∀ (s : Server) (t t' : Fin gearmanJobHashSize → Option Nat) (c c' : Nat) b, DispatchEq s
      { s with jobs := (jobLinks.hashAdd s.jobs t c b j).1, jobHash := t', jobCount := c' } :=
    fun s t _ c _ b =>
      ⟨rfl, fun x => show ((jobLinks.hashAdd s.jobs t c b j).1 x).dispatch = _ from
        jobLinks.field_hashAdd ServerJob.dispatch (fun _ _ => rfl) (fun _ _ => rfl) x, rfl, rfl,
        rfl⟩
  set r₁ := uniqueLinks.hashAdd s.jobs s.uniqueHash s.uniqueCount (hashBucket key) j
  set s₁ : Server := { s with jobs := r₁.1, uniqueHash := r₁.2.1, uniqueCount := r₁.2.2 }
  set hkey := serverJobHash (cString (s₁.jobs j).jobHandle)
  set s₂ := s₁.modifyJob j fun job => { job with jobHandleKey := hkey }
  have e : jobAddHash s j key = { s₂ with
      jobs := (jobLinks.hashAdd s₂.jobs s₂.jobHash s₂.jobCount (hashBucket hkey) j).1
      jobHash := (jobLinks.hashAdd s₂.jobs s₂.jobHash s₂.jobCount (hashBucket hkey) j).2.1
      jobCount := (jobLinks.hashAdd s₂.jobs s₂.jobHash s₂.jobCount (hashBucket hkey) j).2.2 } :=
    rfl
  rw [e]
  have h₁ : DispatchEq s s₁ := hu s _ _ _ _ _
  have h₂ : DispatchEq s₁ s₂ := dispatchEq_modifyJob fun _ => by simp only [ServerJob.dispatch]
  exact h₁.trans (h₂.trans (hj s₂ _ _ _ _ _))

/-! ## `gearman_server_job_create` -/

def ServerJob.payload (job : ServerJob) : ServerJob :=
  { job with next := none, prev := none, uniqueNext := none, uniquePrev := none }

section
variable {s s' : Server} {ok : Bool} {j : Nat}

theorem gearmanServerJobCreate_none (h : gearmanServerJobCreate s ok = some (s', none)) :
    s' = s := by
  unfold gearmanServerJobCreate at h
  split_ifs at h
  · split at h <;> simp at h
  · simp at h
  · simpa using h.symm

theorem gearmanServerJobCreate_some (h : gearmanServerJobCreate s ok = some (s', some j)) :
    s' = { s with
      jobs := s'.jobs
      live := j :: s.live
      jobTop := s'.jobTop
      freeJobList := s'.freeJobList
      freeJobCount := s'.freeJobCount } ∧
    s'.jobs j = { allocated := true } ∧ ∀ x, x ≠ j → (s'.jobs x).payload = (s.jobs x).payload := by
  unfold gearmanServerJobCreate at h
  split_ifs at h
  · split at h
    · cases h
    · simp only [Option.some.injEq, Prod.mk.injEq] at h
      obtain ⟨rfl, rfl⟩ := h
      refine ⟨rfl, by simp, fun x hx => ?_⟩
      simp only [Function.update_noteq hx]
      exact jobLinks.field_listDel ServerJob.payload (fun _ _ => rfl) (fun _ _ => rfl) _ _ _ _ x
  · simp only [Option.some.injEq, Prod.mk.injEq] at h
    obtain ⟨rfl, rfl⟩ := h
    exact ⟨rfl, by simp, fun x hx => by simp [Function.update_noteq hx]⟩
  · simp at h

end

/-! ## `gearman_server_job_queue` -/

theorem jobQueueNoops_eq {packetAdd : Nat → GearmanReturn} {fuel k : Nat} {s s' : Server}
    {w : Option Nat} {r : GearmanReturn} (h : jobQueueNoops packetAdd fuel s k w = some (s', r)) :
    s' = { s with cons := s'.cons } := by
  induction fuel generalizing s k w with
  | zero =>
    cases w <;> simp only [jobQueueNoops, Option.some.injEq, Prod.mk.injEq, reduceCtorEq] at h
    rw [← h.1]
  | succ fuel ih =>
    cases w with
    | none =>
      simp only [jobQueueNoops, Option.some.injEq, Prod.mk.injEq] at h
      rw [← h.1]
    | some w =>
      simp only [jobQueueNoops] at h
      split_ifs at h
      · exact ih h
      · simp only [Option.some.injEq, Prod.mk.injEq] at h
        rw [← h.1]
      · rw [ih h]
        rfl

theorem jobQueueRelease_eq (s : Server) (j fn : Nat) :
    jobQueueRelease s j fn = { s with
      jobs := Function.update s.jobs j { s.jobs j with
        worker := none, numerator := 0, denominator := 0,
        functionNext := if (s.jobs j).worker.isSome then none else (s.jobs j).functionNext }
      functions := if (s.jobs j).worker.isSome then
        Function.update s.functions fn
          { s.functions fn with jobRunning := (s.functions fn).jobRunning - 1 }
        else s.functions } := by
  unfold jobQueueRelease
  split_ifs <;> simp only [Server.modifyJob, Server.modifyFunction, Function.update_same,
    Function.update_idem]

theorem jobQueueAppend_some {s s' : Server} {j fn : Nat} (h : jobQueueAppend s j fn = some s') :
    ∃ s₁, (((s.functions fn).jobList (s.jobs j).priority = none ∧
        s₁ = s.modifyFunction fn fun f =>
          { f with jobList := Function.update f.jobList (s.jobs j).priority (some j) }) ∨
      ∃ x e, (s.functions fn).jobList (s.jobs j).priority = some x ∧
        (s.functions fn).jobEnd (s.jobs j).priority = some e ∧
        s₁ = s.modifyJob e fun job => { job with functionNext := some j }) ∧
    s' = { s₁.modifyFunction fn (fun f => { f with
        jobEnd := Function.update f.jobEnd (s.jobs j).priority (some j)
        jobCount := f.jobCount + 1 }) with
      queuedAt := Function.update s.queuedAt j s.queueClock
      queueClock := s.queueClock + 1 } := by
  unfold jobQueueAppend at h
  rcases hl : (s.functions fn).jobList (s.jobs j).priority with _ | x
  · simp only [hl, Option.bind_eq_bind, Option.some_bind, Option.pure_def,
      Option.some.injEq] at h
    exact ⟨_, .inl ⟨rfl, rfl⟩, h.symm⟩
  · rcases he : (s.functions fn).jobEnd (s.jobs j).priority with _ | e
    · simp [hl, he] at h
    · simp only [hl, he, Option.map_some', Option.bind_eq_bind, Option.some_bind,
        Option.pure_def, Option.some.injEq] at h
      exact ⟨_, .inr ⟨x, e, rfl, rfl, rfl⟩, h.symm⟩

theorem gearmanServerJobQueue_some {fuel : Nat} {s s' : Server} {j : Nat}
    {packetAdd : Nat → GearmanReturn} {ret : GearmanReturn}
    (h : gearmanServerJobQueue fuel s j packetAdd = some (s', ret)) :
    ∃ fn s₁ r, (s.jobs j).function = some fn ∧
      jobQueueNoops packetAdd fuel (jobQueueRelease s j fn) 0
        ((jobQueueRelease s j fn).functions fn).workerList = some (s₁, r) ∧
      (r ≠ .success ∧ s' = s₁ ∧ ret = r ∨
        r = .success ∧ jobQueueAppend s₁ j fn = some s' ∧ ret = .success) := by
  simp only [gearmanServerJobQueue, Option.bind_eq_bind, Option.bind_eq_some] at h
  obtain ⟨fn, hfn, ⟨s₁, r⟩, hn, h⟩ := h
  refine ⟨fn, s₁, r, hfn, hn, ?_⟩
  by_cases hr : r = .success
  · simp only [hr, ne_eq, not_true_eq_false, if_false, Option.bind_eq_some,
      Option.pure_def, Option.some.injEq, Prod.mk.injEq] at h
    obtain ⟨s₂, h₂, rfl, rfl⟩ := h
    exact .inr ⟨hr, h₂, rfl⟩
  · simp only [hr, ne_eq, not_false_eq_true, if_true, Option.pure_def, Option.some.injEq,
      Prod.mk.injEq] at h
    exact .inl ⟨hr, h.1.symm, h.2.symm⟩

/-! ## `gearman_server_job_take` -/

theorem jobTakeHead_eq_some {s s' : Server} {w j : Nat} {p : GearmanJobPriority} :
    jobTakeHead s w j p = some s' ↔ ∃ fn, (s.jobs j).function = some fn ∧ s' = { s with
      jobs := Function.update s.jobs j { s.jobs j with worker := some w }
      workers := Function.update s.workers w { s.workers w with job := some j }
      functions := Function.update s.functions fn { s.functions fn with
        jobList := Function.update (s.functions fn).jobList p (s.jobs j).functionNext
        jobEnd := if (s.functions fn).jobEnd p = some j then
          Function.update (s.functions fn).jobEnd p none else (s.functions fn).jobEnd
        jobCount := (s.functions fn).jobCount - 1
        jobRunning := (s.functions fn).jobRunning + 1 } } := by
  simp only [jobTakeHead, Option.bind_eq_bind, Option.bind_eq_some, Option.pure_def,
    Option.some.injEq]
  refine exists_congr fun fn => and_congr_right fun _ => ?_
  simp only [Server.modifyJob, Server.modifyFunction, Server.modifyWorker, Function.update_same]
  split_ifs <;> simp only [Function.update_same, Function.update_idem, eq_comm]
/-! ## `gearman_server_job_free` -/

theorem jobFreeCounters_eq (s : Server) (j fn : Nat) :
    jobFreeCounters s j fn = { s with
      functions := (jobFreeCounters s j fn).functions
      releasedData := (jobFreeCounters s j fn).releasedData } := by
  rcases hd : (s.jobs j).data with _ | d <;> by_cases hw : (s.jobs j).worker.isSome <;>
    simp only [jobFreeCounters, Server.modifyFunction_jobs, hd, hw, if_true, if_false,
      Bool.false_eq_true] <;> rfl

theorem jobFreeCounters_functions (s : Server) (j fn : Nat) (f : Nat) :
    (jobFreeCounters s j fn).functions f = if f = fn then
      { s.functions fn with
        jobTotal := (s.functions fn).jobTotal - 1
        jobRunning := if (s.jobs j).worker.isSome then (s.functions fn).jobRunning - 1
          else (s.functions fn).jobRunning }
      else s.functions f := by
  rcases hd : (s.jobs j).data with _ | d <;> by_cases hw : (s.jobs j).worker.isSome <;>
    by_cases hf : f = fn <;> simp [jobFreeCounters, hd, hw, hf]

theorem jobFreeUnhash_eq (s : Server) (j : Nat) :
    jobFreeUnhash s j = { s with
      workers := (jobFreeUnhash s j).workers
      jobs := (jobFreeUnhash s j).jobs
      jobHash := (jobFreeUnhash s j).jobHash
      jobCount := (jobFreeUnhash s j).jobCount
      uniqueHash := (jobFreeUnhash s j).uniqueHash
      uniqueCount := (jobFreeUnhash s j).uniqueCount
      live := s.live.erase j } := by
  unfold jobFreeUnhash
  cases (s.jobs j).worker <;> rfl

theorem jobFreeRelease_eq (s : Server) (j : Nat) :
    jobFreeRelease s j = { s with
      jobs := (jobFreeRelease s j).jobs
      freeJobList := (jobFreeRelease s j).freeJobList
      freeJobCount := (jobFreeRelease s j).freeJobCount } := by
  unfold jobFreeRelease
  split_ifs <;> rfl

section
variable {β : Type} (P : ServerJob → β)

theorem jobFreeUnhash_field
    (hj : ∀ a p, P (jobLinks.setNext a p) = P a ∧ P (jobLinks.setPrev a p) = P a)
    (hu : ∀ a p, P (uniqueLinks.setNext a p) = P a ∧ P (uniqueLinks.setPrev a p) = P a)
    (s : Server) (j x : Nat) : P ((jobFreeUnhash s j).jobs x) = P (s.jobs x) := by
  have e : ∀ s : Server, (clearWorkerJob s (s.jobs j).worker).jobs = s.jobs := fun s => by
    rw [clearWorkerJob_eq]
  simp only [jobFreeUnhash]
  rw [jobLinks.field_hashDel P (fun a p => (hj a p).1) (fun a p => (hj a p).2),
    uniqueLinks.field_hashDel P (fun a p => (hu a p).1) (fun a p => (hu a p).2), e]

theorem jobFreeRelease_field
    (hj : ∀ a p, P (jobLinks.setNext a p) = P a ∧ P (jobLinks.setPrev a p) = P a)
    (s : Server) (j x : Nat) : P ((jobFreeRelease s j).jobs x) = P (s.jobs x) := by
  unfold jobFreeRelease
  split_ifs
  · exact jobLinks.field_listAdd P (fun a p => (hj a p).1) (fun a p => (hj a p).2) _
      s.freeJobList s.freeJobCount j x
  · rfl

end

theorem gearmanServerJobFree_eq_some {fuel : Nat} {s s' : Server} {j : Nat} :
    gearmanServerJobFree fuel s j = some s' ↔ ∃ fn s₁, (s.jobs j).function = some fn ∧
      freeClientList fuel (jobFreeCounters s j fn) j = some s₁ ∧
      s' = jobFreeRelease (jobFreeUnhash s₁ j) j := by
  simp only [gearmanServerJobFree, Option.bind_eq_bind, Option.bind_eq_some, Option.pure_def,
    Option.some.injEq]
  constructor
  · rintro ⟨fn, hfn, s₁, h₁, rfl⟩
    exact ⟨fn, s₁, hfn, h₁, rfl⟩
  · rintro ⟨fn, s₁, hfn, h₁, rfl⟩
    exact ⟨fn, hfn, s₁, h₁, rfl⟩

theorem dispatchEq_free {fuel : Nat} {s s' : Server} {j : Nat}
    (hf : gearmanServerJobFree fuel s j = some s') :
    ∃ fn, (s.jobs j).function = some fn ∧
      DispatchEq { s with live := s.live.erase j, functions := (jobFreeCounters s j fn).functions }
        s' := by
  obtain ⟨fn, s₁, hfn, h₁, rfl⟩ := gearmanServerJobFree_eq_some.1 hf
  have hc := (clientsOnly_freeClientList h₁).dispatchEq
  have e := jobFreeCounters_eq s j fn
  refine ⟨fn, hfn, ⟨?_, fun x => ?_, ?_, ?_, ?_⟩⟩
  · rw [jobFreeRelease_eq, jobFreeUnhash_eq, hc.live, e]
  · rw [jobFreeRelease_field ServerJob.dispatch (fun _ _ => ⟨rfl, rfl⟩),
      jobFreeUnhash_field ServerJob.dispatch (fun _ _ => ⟨rfl, rfl⟩) (fun _ _ => ⟨rfl, rfl⟩),
      hc.jobs, e]
  · rw [jobFreeRelease_eq, jobFreeUnhash_eq, hc.functions]
  · rw [jobFreeRelease_eq, jobFreeUnhash_eq, hc.queuedAt, e]
  · rw [jobFreeRelease_eq, jobFreeUnhash_eq, hc.queueClock, e]

/-! ## `gearman_server_job_take` and `gearman_server_job_peek` -/

theorem gearmanServerJobTake_succ {fuel con : Nat} {s s' : Server} {r : Option Nat}
    (ht : gearmanServerJobTake (fuel + 1) s con = some (s', r)) :
    ∃ found, chainFind (fun w => (s.workers w).conNext)
        (fun w => (s.functions (s.workers w).function).jobCount != 0) fuel
        (s.cons con).workerList = some found ∧
      (found = none ∧ s' = s ∧ r = none ∨
        ∃ w p j s₁, found = some w ∧ firstPriority (s.functions (s.workers w).function) = some p ∧
          (s.functions (s.workers w).function).jobList p = some j ∧ jobTakeHead s w j p = some s₁ ∧
          ((s₁.jobs j).ignore = false ∧ s' = s₁ ∧ r = some j ∨
            (s₁.jobs j).ignore = true ∧ ∃ s₂, gearmanServerJobFree fuel s₁ j = some s₂ ∧
              gearmanServerJobTake fuel s₂ con = some (s', r))) := by
  simp only [gearmanServerJobTake, Option.bind_eq_bind, Option.bind_eq_some] at ht
  obtain ⟨found, hfound, ht⟩ := ht
  refine ⟨found, hfound, ?_⟩
  rcases found with _ | w
  · simp only [Option.pure_def, Option.some.injEq, Prod.mk.injEq] at ht
    exact .inl ⟨rfl, ht.1.symm, ht.2.symm⟩
  simp only [Option.bind_eq_some] at ht
  obtain ⟨p, hp, j, hj, s₁, h₁, ht⟩ := ht
  refine .inr ⟨w, p, j, s₁, rfl, hp, hj, h₁, ?_⟩
  split_ifs at ht with hi
  · simp only [Option.bind_eq_some] at ht
    exact .inr ⟨hi, ht⟩
  · simp only [Option.pure_def, Option.some.injEq, Prod.mk.injEq] at ht
    exact .inl ⟨by simpa using hi, ht.1.symm, ht.2.symm⟩

theorem gearmanServerJobPeek_succ {fuel con : Nat} {s s' : Server} {r : Option Nat}
    (hp : gearmanServerJobPeek (fuel + 1) s con = some (s', r)) :
    ∃ found, chainFind (fun w => (s.workers w).conNext)
        (fun w => (s.functions (s.workers w).function).jobCount != 0 &&
          (firstPriority (s.functions (s.workers w).function)).isSome) fuel
        (s.cons con).workerList = some found ∧
      (found = none ∧ s' = s ∧ r = none ∨
        ∃ w p j, found = some w ∧ firstPriority (s.functions (s.workers w).function) = some p ∧
          (s.functions (s.workers w).function).jobList p = some j ∧
          ((s.jobs j).ignore = false ∧ s' = s ∧ r = some j ∨
            (s.jobs j).ignore = true ∧ ∃ s₁ t s₂,
              gearmanServerJobTake fuel (s.modifyJob j fun job => { job with ignore := false }) con =
                some (s₁, some t) ∧ gearmanServerJobFree fuel s₁ t = some s₂ ∧
              gearmanServerJobPeek fuel s₂ con = some (s', r))) := by
  simp only [gearmanServerJobPeek, Option.bind_eq_bind, Option.bind_eq_some] at hp
  obtain ⟨found, hfound, hp⟩ := hp
  refine ⟨found, hfound, ?_⟩
  rcases found with _ | w
  · simp only [Option.pure_def, Option.some.injEq, Prod.mk.injEq] at hp
    exact .inl ⟨rfl, hp.1.symm, hp.2.symm⟩
  simp only [Option.bind_eq_some] at hp
  obtain ⟨p, hp', j, hj, hp⟩ := hp
  refine .inr ⟨w, p, j, rfl, hp', hj, ?_⟩
  split_ifs at hp with hi
  · simp only [Option.bind_eq_some] at hp
    obtain ⟨⟨s₁, taken⟩, h₁, t, rfl, s₂, h₂, hp⟩ := hp
    exact .inr ⟨hi, s₁, t, s₂, h₁, h₂, hp⟩
  · simp only [Option.pure_def, Option.some.injEq, Prod.mk.injEq] at hp
    exact .inl ⟨by simpa using hi, hp.1.symm, hp.2.symm⟩

section
variable (R : Server → Server → Prop) (hrefl : ∀ s, R s s)
  (htrans : ∀ {s₁ s₂ s₃}, R s₁ s₂ → R s₂ s₃ → R s₁ s₃)
  (hhead : ∀ {s s' w j p}, jobTakeHead s w j p = some s' → R s s')
  (hfree : ∀ {fuel s s' j}, gearmanServerJobFree fuel s j = some s' → R s s')
include hrefl htrans hhead hfree

theorem gearmanServerJobTake_rel {fuel con : Nat} {s s' : Server} {r : Option Nat}
    (h : gearmanServerJobTake fuel s con = some (s', r)) : R s s' := by
  induction fuel generalizing s with
  | zero => simp [gearmanServerJobTake] at h
  | succ fuel ih =>
    obtain ⟨_, -, ⟨-, rfl, -⟩ | ⟨_, _, _, _, -, -, -, h₁, ⟨-, rfl, -⟩ | ⟨-, s₂, h₂, h⟩⟩⟩ :=
      gearmanServerJobTake_succ h
    · exact hrefl _
    · exact hhead h₁
    · exact htrans (hhead h₁) (htrans (hfree h₂) (ih h))

theorem gearmanServerJobPeek_rel
    (hignore : ∀ s j, R s (s.modifyJob j fun job => { job with ignore := false }))
    {fuel con : Nat} {s s' : Server} {r : Option Nat}
    (h : gearmanServerJobPeek fuel s con = some (s', r)) : R s s' := by
  induction fuel generalizing s with
  | zero => simp [gearmanServerJobPeek] at h
  | succ fuel ih =>
    obtain ⟨_, -, ⟨-, rfl, -⟩ | ⟨_, _, j, -, -, -, ⟨-, rfl, -⟩ | ⟨-, _, _, s₂, h₁, h₂, h⟩⟩⟩ :=
      gearmanServerJobPeek_succ h
    · exact hrefl _
    · exact hrefl _
    · exact htrans (hignore s j) (htrans (gearmanServerJobTake_rel R hrefl htrans hhead hfree h₁)
        (htrans (hfree h₂) (ih h)))

end

end GearmanServer
