import GearmanServer.Invariant.Reachable

/-!
# The dispatcher's tables in every reachable state

Read off `BrokerInv` and `QueueComplete` in the terms of the C structures: the job lists of
the functions, the counters `job_total` and `job_running`, and the two hash tables with the
job pool.
-/

namespace GearmanServer

def abandonedJobsRun : List Op :=
  [.add [102] [97] none .normal (some 0) {}, .take 0, .clientFree 0,
    .add [102] [98] none .normal (some 1) {}, .clientFree 1, .add [102] [99] none .high none {}]

theorem abandonedJobsRun_reachable : ∃ s, Reachable RequeueOk s ∧
    (s.live = [2, 1, 0] ∧ (s.jobs 0).worker = some 0 ∧ (s.jobs 1).worker = none ∧
      (s.jobs 2).worker = none ∧ (s.jobs 0).ignore = true ∧ (s.jobs 1).ignore = true ∧
      (s.jobs 2).ignore = false) := by
  have hb : (Op.runOk RequeueOk 4 brokerWithWorker abandonedJobsRun).map (fun s =>
      (s.live, [(s.jobs 0).worker, (s.jobs 1).worker, (s.jobs 2).worker],
        [(s.jobs 0).ignore, (s.jobs 1).ignore, (s.jobs 2).ignore])) =
      some ([2, 1, 0], [some 0, none, none], [true, true, false]) := by decide
  obtain ⟨s, he, hf⟩ := Option.map_eq_some'.1 hb
  simp only [Prod.mk.injEq, List.cons.injEq, and_true, and_assoc] at hf
  exact ⟨s, (Reachable.init initial_brokerWithWorker).runOk he, hf⟩

/-- For each function and priority, the `function_next` chain from `job_list[p]` is finite, ends at
`job_end[p]` and holds exactly the queued live jobs; `job_count` is the sum of the lengths. -/
def JobLists (s : Server) : Prop :=
  ∃ fs, functionLinks.DList s.functions s.functionList s.functionCount fs ∧
    ∀ f ∈ fs, ∃ q : GearmanJobPriority → List Nat,
      (∀ p, Chain (fun x => (s.jobs x).functionNext) ((s.functions f).jobList p) (q p) ∧
        (q p).Nodup ∧
        ((s.functions f).jobList p = none ↔ (s.functions f).jobEnd p = none) ∧
        (∀ e, (s.functions f).jobEnd p = some e →
          lastOr none (q p) = some e ∧ (s.jobs e).functionNext = none) ∧
        ∀ x, x ∈ q p ↔ x ∈ s.live ∧ (s.jobs x).function = some f ∧
          (s.jobs x).priority = p ∧ (s.jobs x).worker = none) ∧
      (s.functions f).jobCount = (q .high).length + (q .normal).length + (q .low).length

theorem reachable_job_lists {s : Server} (hr : Reachable RequeueOk s) : JobLists s := by
  obtain ⟨fs, qs, h, hc⟩ := hr.queueComplete
  refine ⟨fs, h.functions.list, fun f hf => ⟨qs f, fun p => ?_, h.queues.count f hf⟩⟩
  have hch := h.queues.chain f hf p
  have hl := h.queues.last f hf p
  refine ⟨hch, h.queues.nodup hf p, ?_, fun e he => ?_, fun x => ⟨h.queues.mem f hf p x, ?_⟩⟩
  · rw [chain_head_eq_none hch, hl, lastOr_none_eq_none]
  · rw [hl] at he
    exact ⟨he, chain_last hch he⟩
  · rintro ⟨hx, hfx, rfl, hw⟩
    obtain ⟨f', hf', hm⟩ := hc x hx hw
    rw [hfx] at hf'
    cases hf'
    exact hm

theorem reachable_job_lists_abandoned :
    ∃ s, Reachable RequeueOk s ∧ (s.live = [2, 1, 0] ∧ (s.jobs 0).worker = some 0 ∧ (s.jobs 1).worker = none ∧
      (s.jobs 2).worker = none ∧ (s.jobs 0).ignore = true ∧ (s.jobs 1).ignore = true ∧
      (s.jobs 2).ignore = false) ∧ JobLists s :=
  let ⟨s, hr, h⟩ := abandonedJobsRun_reachable
  ⟨s, hr, h, reachable_job_lists hr⟩

/-- The counters of each function count its live jobs and those a worker holds, so the
decrements of `gearman_server_job_queue` and `gearman_server_job_free` find them positive. -/
def FunctionCounters (s : Server) : Prop :=
  s.live.Nodup ∧ ∃ fs, functionLinks.DList s.functions s.functionList s.functionCount fs ∧
    ∀ f ∈ fs,
      (s.functions f).jobTotal = s.live.countP (fun j => (s.jobs j).function = some f) ∧
      (s.functions f).jobRunning =
        s.live.countP (fun j => (s.jobs j).function = some f ∧ (s.jobs j).worker ≠ none) ∧
      ∀ j ∈ s.live, (s.jobs j).function = some f →
        0 < (s.functions f).jobTotal ∧ ((s.jobs j).worker ≠ none → 0 < (s.functions f).jobRunning)

theorem reachable_function_counters {ok : Server → Op → Outcome → Prop} {s : Server}
    (hr : Reachable ok s) : FunctionCounters s := by
  obtain ⟨fs, qs, h⟩ := hr.brokerInv
  have ht : ∀ f ∈ fs, (s.functions f).jobTotal =
      s.live.countP (fun j => (s.jobs j).function = some f) := fun f hf => by
    rw [h.counters.total f hf, jobTotalOf]
    exact List.countP_congr fun x _ => by simp
  have hr' : ∀ f ∈ fs, (s.functions f).jobRunning =
      s.live.countP (fun j => (s.jobs j).function = some f ∧ (s.jobs j).worker ≠ none) :=
    fun f hf => by
      rw [h.counters.running f hf, jobRunningOf]
      exact List.countP_congr fun x _ => by simp [Option.isSome_iff_ne_none]
  refine ⟨h.hash.nodup, fs, h.functions.list, fun f hf => ⟨ht f hf, hr' f hf, fun j hj hjf => ?_⟩⟩
  refine ⟨?_, fun hw => ?_⟩
  · rw [ht f hf, List.countP_pos_iff]
    exact ⟨j, hj, by simp [hjf]⟩
  · rw [hr' f hf, List.countP_pos_iff]
    exact ⟨j, hj, by simp [hjf, hw]⟩

theorem reachable_function_counters_abandoned :
    ∃ s, Reachable RequeueOk s ∧ (s.live = [2, 1, 0] ∧ (s.jobs 0).worker = some 0 ∧ (s.jobs 1).worker = none ∧
      (s.jobs 2).worker = none ∧ (s.jobs 0).ignore = true ∧ (s.jobs 1).ignore = true ∧
      (s.jobs 2).ignore = false) ∧ FunctionCounters s :=
  let ⟨s, hr, h⟩ := abandonedJobsRun_reachable
  ⟨s, hr, h, reachable_function_counters hr⟩

/-- The two hash tables hold each live job once, in the bucket of its key, as well-formed doubly
linked chains; the job pool is a well-formed list of jobs that are not live. -/
def HashTables (s : Server) : Prop :=
  s.live.Nodup ∧
    (∀ b, ∃ xs, jobLinks.DChain s.jobs (s.jobHash b) xs ∧
      ∀ x, x ∈ xs ↔ x ∈ s.live ∧ hashBucket (s.jobs x).jobHandleKey = b) ∧
    (∀ j ∈ s.live, (s.jobs j).jobHandleKey = serverJobHash (cString (s.jobs j).jobHandle)) ∧
    (∀ b, ∃ xs, uniqueLinks.DChain s.jobs (s.uniqueHash b) xs ∧
      ∀ x, x ∈ xs ↔ x ∈ s.live ∧ hashBucket (s.jobs x).uniqueKey = b) ∧
    s.jobCount = s.live.length ∧ s.uniqueCount = s.live.length ∧
    ∃ fl, jobLinks.DList s.jobs s.freeJobList s.freeJobCount fl ∧ ∀ x ∈ fl, x ∉ s.live

theorem reachable_hash_tables {ok : Server → Op → Outcome → Prop} {s : Server}
    (hr : Reachable ok s) : HashTables s := by
  obtain ⟨fs, qs, h⟩ := hr.brokerInv
  obtain ⟨fl, hfl, hm⟩ := h.pool
  exact ⟨h.hash.nodup, fun b => ⟨_, h.hash.job.bucket b, fun _ => mem_bucketOf⟩, h.hash.handle_key,
    fun b => ⟨_, h.hash.unique.bucket b, fun _ => mem_bucketOf⟩, h.hash.job.count_eq,
    h.hash.unique.count_eq, fl, hfl, fun x hx => (hm x hx).1⟩

theorem reachable_hash_tables_abandoned :
    ∃ s, Reachable RequeueOk s ∧ (s.live = [2, 1, 0] ∧ (s.jobs 0).worker = some 0 ∧ (s.jobs 1).worker = none ∧
      (s.jobs 2).worker = none ∧ (s.jobs 0).ignore = true ∧ (s.jobs 1).ignore = true ∧
      (s.jobs 2).ignore = false) ∧ HashTables s :=
  let ⟨s, hr, h⟩ := abandonedJobsRun_reachable
  ⟨s, hr, h, reachable_hash_tables hr⟩

end GearmanServer
