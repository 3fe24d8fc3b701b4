import GearmanServer.Invariant.Reachable

/-!
# `gearman_server_job_queue`: the `NOOP` loop and the error path

The loop over the function's `worker_list` skips a worker only when its connection is neither
`SLEEPING` nor has a `NOOP` pending (`noop_queued`); every other worker entry gets a `NOOP`,
so a connection with one pending gets another on every call. Nothing in the job code clears
`noop_queued`.

The loop runs after the job has been taken from its worker: when a `NOOP` cannot be queued,
the call returns the error with `worker` cleared, `job_running` decremented and the job on no
list. For a job `gearman_server_job_add` has just created, the error makes the submission free
the job with its payload, which the caller still owns.
-/

namespace GearmanServer

/-! ## The `NOOP` loop -/

section Noops
variable {pa : Nat → GearmanReturn} {fuel k : Nat} {s s' : Server} {w₀ : Option Nat}
  {ws : List Nat}

theorem jobQueueNoops_success (hch : Chain (fun w => (s.workers w).functionNext) w₀ ws)
    (h : jobQueueNoops pa fuel s k w₀ = some (s', .success)) (c : Nat) :
    (s'.cons c).noopPackets = (s.cons c).noopPackets +
      (if (s.cons c).noopQueued || (s.cons c).sleeping then
        ws.countP fun w => (s.workers w).con = c else 0) ∧
    (s'.cons c).noopQueued =
      ((s.cons c).noopQueued || (s.cons c).sleeping && ws.any fun w => (s.workers w).con = c) ∧
    (s'.cons c).sleeping = (s.cons c).sleeping := by
  induction ws generalizing s k fuel w₀ with
  | nil =>
    cases hch
    obtain rfl : s' = s := by cases fuel <;> simpa [jobQueueNoops] using h.symm
    simp
  | cons w ws ih =>
    obtain ⟨rfl, hch⟩ := hch
    cases fuel with
    | zero => cases h
    | succ fuel =>
      simp only [jobQueueNoops] at h
      split_ifs at h with hskip hfail
      · -- neither pending nor sleeping: skipped
        obtain ⟨h₁, h₂, h₃⟩ := ih hch h
        simp only [Bool.and_eq_true, Bool.not_eq_true'] at hskip
        by_cases hc : (s.workers w).con = c
        · subst hc
          simp [h₁, h₂, h₃, hskip]
        · simp [h₁, h₂, h₃, hc]
      · simp only [Option.some.injEq, Prod.mk.injEq] at h
        exact absurd h.2 hfail
      · -- a `NOOP` is queued on the entry's connection, which is then pending
        obtain ⟨h₁, h₂, h₃⟩ := ih (show Chain (fun w => ((s.modifyCon _ _).workers w).functionNext)
          _ ws from hch) h
        simp only [Bool.and_eq_true, Bool.not_eq_true', not_and_or, Bool.not_eq_false] at hskip
        by_cases hc : (s.workers w).con = c
        · subst hc
          rcases hskip with hq | hq <;> simp [h₁, h₂, h₃, hq, List.countP_cons] <;> omega
        · simp [h₁, h₂, h₃, hc, Ne.symm hc]

end Noops

section
variable {fuel j : Nat} {pa : Nat → GearmanReturn} {s s' : Server}

theorem jobQueueAppend_cons {fn : Nat} (ha : jobQueueAppend s j fn = some s') : s'.cons = s.cons := by
  obtain ⟨s₁, h₁, rfl⟩ := jobQueueAppend_some ha
  rcases h₁ with ⟨-, rfl⟩ | ⟨_, _, -, -, rfl⟩ <;> rfl

theorem jobQueue_function_field {β : Type} (P : ServerFunction → β)
    (hP : ∀ (g : ServerFunction) r l e c,
      P { g with jobRunning := r, jobList := l, jobEnd := e, jobCount := c } = P g)
    {r : GearmanReturn} (hq : gearmanServerJobQueue fuel s j pa = some (s', r)) (f : Nat) :
    P (s'.functions f) = P (s.functions f) := by
  obtain ⟨fn, s₁, r', -, hn, hr⟩ := gearmanServerJobQueue_some hq
  have h₁ : ∀ f, P (s₁.functions f) = P (s.functions f) := fun f => by
    have hf : s₁.functions = (jobQueueRelease s j fn).functions := by rw [jobQueueNoops_eq hn]
    rw [hf, jobQueueRelease_eq]
    split_ifs
    · by_cases e : f = fn
      · subst e
        simp only [Function.update_same]
        exact hP _ _ _ _ _
      · simp only [Function.update_noteq e]
    · rfl
  rcases hr with ⟨-, rfl, -⟩ | ⟨-, ha, -⟩
  · exact h₁ f
  · obtain ⟨s₂, h₂, rfl⟩ := jobQueueAppend_some ha
    rw [← h₁ f]
    refine (Server.modifyFunction_field P (fun g => hP g g.jobRunning g.jobList _ _) f).trans ?_
    rcases h₂ with ⟨-, rfl⟩ | ⟨y, e, -, -, rfl⟩
    · exact Server.modifyFunction_field P (fun g => hP g g.jobRunning _ g.jobEnd g.jobCount) f
    · rfl

theorem gearmanServerJobQueue_noops {fn : Nat} {ws : List Nat}
    (hq : gearmanServerJobQueue fuel s j pa = some (s', .success))
    (hfn : (s.jobs j).function = some fn)
    (hch : Chain (fun w => (s.workers w).functionNext) (s.functions fn).workerList ws) (c : Nat) :
    (s'.cons c).noopPackets = (s.cons c).noopPackets +
      (if (s.cons c).noopQueued || (s.cons c).sleeping then
        ws.countP fun w => (s.workers w).con = c else 0) ∧
    (s'.cons c).noopQueued =
      ((s.cons c).noopQueued || (s.cons c).sleeping && ws.any fun w => (s.workers w).con = c) := by
  obtain ⟨fn', s₁, r, hfn', hn, ⟨hr, -, rfl⟩ | ⟨rfl, ha, -⟩⟩ := gearmanServerJobQueue_some hq
  · exact absurd rfl hr
  cases hfn.symm.trans hfn'
  have hw : ((jobQueueRelease s j fn).functions fn).workerList = (s.functions fn).workerList := by
    have e := congrArg ServerFunction.workerList ((frame_jobQueueRelease s j fn).1.functions fn)
    exact e
  rw [hw] at hn
  obtain ⟨h₁, h₂, -⟩ := jobQueueNoops_success (by rw [jobQueueRelease_eq]; exact hch) hn c
  rw [jobQueueAppend_cons ha]
  rw [jobQueueRelease_eq] at h₁ h₂
  exact ⟨h₁, h₂⟩

theorem gearmanServerJobQueue_error {r : GearmanReturn}
    (hq : gearmanServerJobQueue fuel s j pa = some (s', r)) (hr : r ≠ .success) :
    ∃ fn, (s.jobs j).function = some fn ∧ (s'.jobs j).worker = none ∧
      (s'.jobs j).numerator = 0 ∧ (s'.jobs j).denominator = 0 ∧
      (s'.functions fn).jobRunning = (if (s.jobs j).worker.isSome then
        (s.functions fn).jobRunning - 1 else (s.functions fn).jobRunning) ∧
      ∀ f, (s'.functions f).jobList = (s.functions f).jobList ∧
        (s'.functions f).jobEnd = (s.functions f).jobEnd ∧
        (s'.functions f).jobCount = (s.functions f).jobCount := by
  obtain ⟨fn, s₁, r', hfn, hn, ⟨-, rfl, rfl⟩ | ⟨rfl, -, rfl⟩⟩ := gearmanServerJobQueue_some hq
  swap
  · exact absurd rfl hr
  have e := jobQueueNoops_eq hn
  have hj : s'.jobs = (jobQueueRelease s j fn).jobs := by rw [e]
  have hf : s'.functions = (jobQueueRelease s j fn).functions := by rw [e]
  rw [jobQueueRelease_eq] at hj hf
  refine ⟨fn, hfn, by simp [hj], by simp [hj], by simp [hj], ?_, fun f => ?_⟩
  · cases h : (s.jobs j).worker.isSome <;> simp [hf, h]
  · cases h : (s.jobs j).worker.isSome
    · simp [hf, h]
    · by_cases e : f = fn
      · subst e; simp [hf, h]
      · simp [hf, h, e]

end

/-! ## Two runs -/

def sleepingWorkerBroker : Server :=
  { brokerWithWorker with cons := fun c =>
      { brokerWithWorker.cons c with sleeping := true, noopQueued := false } }

theorem initial_sleepingWorkerBroker : Initial sleepingWorkerBroker :=
  initial_brokerWithWorker.withCons (fun _ => true) (fun _ => false)

set_option maxRecDepth 4000 in
/-- Two background submissions to a sleeping worker's function: the second, with `noop_queued`
still set by the first, queues another `NOOP` on connection 0. -/
theorem second_submission_noops_pending_connection :
    ∃ s₁ s₂, gearmanServerJobAdd 1 sleepingWorkerBroker [102] [97] none .normal none {} =
        some (s₁, some 0, .success) ∧ Reachable (fun _ _ _ => True) s₁ ∧
      (s₁.cons 0).noopQueued = true ∧ (s₁.cons 0).noopPackets = 1 ∧
      gearmanServerJobAdd 1 s₁ [102] [98] none .normal none {} = some (s₂, some 1, .success) ∧
      (s₂.cons 0).noopPackets = 2 :=
  have e₁ : gearmanServerJobAdd 1 sleepingWorkerBroker [102] [97] none .normal none {} =
      some (_, some 0, .success) := rfl
  ⟨_, _, e₁, .add (.init initial_sleepingWorkerBroker) e₁ (fun _ h => by cases h) trivial, rfl,
    rfl, rfl, rfl⟩

set_option maxRecDepth 4000 in
/-- Re-queueing a running job whose `NOOP` cannot be queued returns the error and leaves the job
live, off its worker, on no list, and still counted in `job_total`. -/
theorem failed_requeue_drops_running_job :
    ∃ s₁ s₂ s₃, gearmanServerJobAdd 1 sleepingWorkerBroker [102] [97] none .normal none {} =
        some (s₁, some 0, .success) ∧ gearmanServerJobTake 2 s₁ 0 = some (s₂, some 0) ∧
      Reachable (fun _ _ _ => True) s₂ ∧ Running s₂ 0 ∧ (s₂.functions 0).jobRunning = 1 ∧
      gearmanServerJobQueue 1 s₂ 0 (fun _ => .memoryAllocationFailure) =
        some (s₃, .memoryAllocationFailure) ∧ Reachable (fun _ _ _ => True) s₃ ∧
      (s₃.jobs 0).worker = none ∧ (s₃.functions 0).jobRunning = 0 ∧ s₃.live = [0] ∧
      (s₃.functions 0).jobCount = 0 ∧ (∀ p, (s₃.functions 0).jobList p = none) ∧
      (s₃.functions 0).jobTotal = 1 :=
  have e₁ : gearmanServerJobAdd 1 sleepingWorkerBroker [102] [97] none .normal none {} =
      some (_, some 0, .success) := rfl
  have hr₁ := Reachable.add (.init initial_sleepingWorkerBroker) e₁ (fun _ h => by cases h) trivial
  have hr₂ := Reachable.take hr₁ (rfl : gearmanServerJobTake 2 _ 0 = _) trivial
  have hr₃ := Reachable.queue hr₂ ⟨List.mem_singleton_self 0, rfl⟩
    (rfl : gearmanServerJobQueue 1 _ 0 (fun _ => .memoryAllocationFailure) = _) trivial
  ⟨_, _, _, e₁, rfl, hr₂, ⟨List.mem_singleton_self 0, rfl⟩, rfl, rfl, hr₃, rfl, rfl, rfl, rfl,
    fun p => by cases p <;> rfl, rfl⟩

set_option maxRecDepth 4000 in
/-- A failed `NOOP` frees the new job with the caller's payload; a failed `queue_flush_fn` frees it
with its data detached and leaves the stored record, which `queue_done_fn` never withdraws. -/
theorem failed_add_releases_data_or_keeps_record :
    Reachable (fun _ _ _ => True) sleepingWorkerBroker ∧
    (∃ s₁, gearmanServerJobAdd 1 sleepingWorkerBroker [102] [97] (some [100]) .normal none
        { packetAdd := fun _ => .memoryAllocationFailure } =
          some (s₁, none, .memoryAllocationFailure) ∧
      s₁.live = [] ∧ s₁.releasedData = [[100]]) ∧
    Reachable (fun _ _ _ => True) { queueAddFn := true, queueFlushFn := true, queueDoneFn := true } ∧
    ∃ s₁, gearmanServerJobAdd 1 { queueAddFn := true, queueFlushFn := true, queueDoneFn := true }
        [102] [97] (some [100]) .normal none { queueFlushRet := .queueError } =
          some (s₁, none, .queueError) ∧
      s₁.live = [] ∧ s₁.releasedData = [] ∧
      s₁.queueLog = [.flush, .add (uniqueField (formatUnique [97])) 1 [102] (some [100]) .normal] :=
  ⟨.init initial_sleepingWorkerBroker, ⟨_, rfl, rfl, rfl⟩,
    .init (initial_empty.withConfig false [] true true true), _, rfl, rfl, rfl, rfl⟩

end GearmanServer
