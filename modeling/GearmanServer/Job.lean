import GearmanServer.Function

/-!
# `server_job.c`: lookup, create, free, queue, take and peek

Each function returns `none` where the C code would not return: a loop that does not end
within `fuel` turns, or a `NULL` or out-of-range dereference. `gearman_server_client_free`,
which `gearman_server_job_free` calls, lives in `server_client.c`, outside the sources, and is
modelled from the spec.
-/

namespace GearmanServer

/-! ## Lookups -/

def gearmanServerJobGet (fuel : Nat) (s : Server) (jobHandle : Bytes) : Option (Option Nat) :=
  let key := serverJobHash (cString jobHandle)
  chainFind (fun j => (s.jobs j).next)
    (fun j => (s.jobs j).jobHandleKey == key && cString (s.jobs j).jobHandle == cString jobHandle)
    fuel (s.jobHash (hashBucket key))

/-- The test of the search loop of `_server_job_get_unique`: by `unique` when `dataSize` is
zero, else by the job's data. -/
def uniqueMatches (job : ServerJob) (uniqueKey : UInt32) (fn : Nat) (unique : Bytes)
    (dataSize : Nat) : Bool :=
  if dataSize = 0 then
    job.function == some fn && job.uniqueKey == uniqueKey && cString job.unique == cString unique
  else
    job.function == some fn && job.uniqueKey == uniqueKey && job.dataSize == dataSize &&
      memcmpEq (job.data.getD []) unique dataSize

def serverJobGetUnique (fuel : Nat) (s : Server) (uniqueKey : UInt32) (fn : Nat) (unique : Bytes)
    (dataSize : Nat) : Option (Option Nat) :=
  chainFind (fun j => (s.jobs j).uniqueNext)
    (fun j => uniqueMatches (s.jobs j) uniqueKey fn unique dataSize)
    fuel (s.uniqueHash (hashBucket uniqueKey))

/-! ## Create and free -/

/-- `gearman_server_job_create(server, NULL)`: the head of the free pool, else `malloc` (a fresh
address or `NULL`), then `memset` and `GEARMAN_SERVER_JOB_ALLOCATED`. -/
def gearmanServerJobCreate (s : Server) (mallocOk : Bool) : Option (Server × Option Nat) :=
  if 0 < s.freeJobCount then
    match s.freeJobList with
    | none => none
    | some j =>
      let r := jobLinks.listDel s.jobs s.freeJobList s.freeJobCount j
      some ({ s with
        jobs := Function.update r.1 j { allocated := true }
        freeJobList := r.2.1
        freeJobCount := r.2.2
        live := j :: s.live }, some j)
  else if mallocOk then
    let j := s.jobTop
    some ({ s with
      jobs := Function.update s.jobs j { allocated := true }
      jobTop := j + 1
      live := j :: s.live }, some j)
  else some (s, none)

/-- `gearman_server_client_free` (`server_client.c`, not among the sources) takes the client off
its job's `client_list` and marks the job `GEARMAN_SERVER_JOB_IGNORE` when that empties the list,
whatever the job's state: the spec's "if still queued" is not modelled. -/
def gearmanServerClientFree (s : Server) (c : Nat) : Server :=
  match (s.clients c).job with
  | none => s
  | some j =>
    let r := clientJobLinks.listDel s.clients (s.jobs j).clientList (s.jobs j).clientCount c
    let s := { s with clients := Function.update r.1 c { r.1 c with job := none } }
    s.modifyJob j fun job =>
      { job with clientList := r.2.1, clientCount := r.2.2, ignore := job.ignore || r.2.1.isNone }

/-- `while (server_job->client_list != NULL) gearman_server_client_free(server_job->client_list);` -/
def freeClientList : Nat → Server → Nat → Option Server
  | fuel, s, j =>
    match (s.jobs j).clientList, fuel with
    | none, _ => some s
    | some _, 0 => none
    | some c, fuel + 1 => freeClientList fuel (gearmanServerClientFree s c) j

/-- Lines 228–234 of `gearman_server_job_free`: the function's counters and `free(data)`. -/
def jobFreeCounters (s : Server) (j fn : Nat) : Server :=
  let s := if (s.jobs j).worker.isSome then
    s.modifyFunction fn fun f => { f with jobRunning := f.jobRunning - 1 } else s
  let s := s.modifyFunction fn fun f => { f with jobTotal := f.jobTotal - 1 }
  match (s.jobs j).data with
  | some d => { s with releasedData := d :: s.releasedData }
  | none => s

def clearWorkerJob (s : Server) : Option Nat → Server
  | some w => s.modifyWorker w fun wk => { wk with job := none }
  | none => s

theorem clearWorkerJob_eq (s : Server) (w : Option Nat) :
    clearWorkerJob s w =
      { s with
        workers := fun k => if w = some k then { s.workers k with job := none } else s.workers k } := by
  cases w with
  | none => rfl
  | some w =>
    simp only [clearWorkerJob, Server.modifyWorker, Option.some.injEq]
    congr 1
    funext k
    by_cases h : w = k <;> simp [Function.update_apply, h, eq_comm]

/-- Lines 239–243 of `gearman_server_job_free`: the worker's job and both hash tables. The job
stops being live. -/
def jobFreeUnhash (s : Server) (j : Nat) : Server :=
  let s := clearWorkerJob s (s.jobs j).worker
  let r := uniqueLinks.hashDel s.jobs s.uniqueHash s.uniqueCount (hashBucket (s.jobs j).uniqueKey) j
  let s := { s with jobs := r.1, uniqueHash := r.2.1, uniqueCount := r.2.2 }
  let r := jobLinks.hashDel s.jobs s.jobHash s.jobCount (hashBucket (s.jobs j).jobHandleKey) j
  { s with jobs := r.1, jobHash := r.2.1, jobCount := r.2.2, live := s.live.erase j }

/-- Lines 245–254 of `gearman_server_job_free`: the free job pool, or `free`. -/
def jobFreeRelease (s : Server) (j : Nat) : Server :=
  if (s.jobs j).allocated && s.freeJobCount < gearmanMaxFreeServerJob then
    let r := jobLinks.listAdd s.jobs s.freeJobList s.freeJobCount j
    { s with jobs := r.1, freeJobList := r.2.1, freeJobCount := r.2.2 }
  else s

def gearmanServerJobFree (fuel : Nat) (s : Server) (j : Nat) : Option Server := do
  let fn ← (s.jobs j).function
  let s ← freeClientList fuel (jobFreeCounters s j fn) j
  pure (jobFreeRelease (jobFreeUnhash s j) j)

/-! ## Dispatch -/

/-- The `NOOP` loop of `gearman_server_job_queue` over the function's `worker_list`, from the
`k`-th call of `gearman_server_io_packet_add`, whose results are `packetAdd`. -/
def jobQueueNoops (packetAdd : Nat → GearmanReturn) :
    Nat → Server → Nat → Option Nat → Option (Server × GearmanReturn)
  | _, s, _, none => some (s, .success)
  | 0, _, _, some _ => none
  | fuel + 1, s, k, some w =>
    let con := (s.workers w).con
    if !(s.cons con).noopQueued && !(s.cons con).sleeping then
      jobQueueNoops packetAdd fuel s k (s.workers w).functionNext
    else if packetAdd k ≠ .success then some (s, packetAdd k)
    else
      let s := s.modifyCon con fun c => { c with noopPackets := c.noopPackets + 1, noopQueued := true }
      jobQueueNoops packetAdd fuel s (k + 1) (s.workers w).functionNext

/-- Lines 391–399 of `gearman_server_job_queue`: append the job to its priority's list. -/
def jobQueueAppend (s : Server) (j fn : Nat) : Option Server := do
  let p := (s.jobs j).priority
  let s ← match (s.functions fn).jobList p with
    | none => some (s.modifyFunction fn fun f => { f with jobList := Function.update f.jobList p (some j) })
    | some _ => ((s.functions fn).jobEnd p).map fun e =>
        s.modifyJob e fun job => { job with functionNext := some j }
  let s := s.modifyFunction fn fun f =>
    { f with jobEnd := Function.update f.jobEnd p (some j), jobCount := f.jobCount + 1 }
  pure { s with queuedAt := Function.update s.queuedAt j s.queueClock, queueClock := s.queueClock + 1 }

/-- Lines 360–369 of `gearman_server_job_queue`: take the job from its worker. -/
def jobQueueRelease (s : Server) (j fn : Nat) : Server :=
  let s := if (s.jobs j).worker.isSome then
    (s.modifyFunction fn fun f => { f with jobRunning := f.jobRunning - 1 }).modifyJob j
      fun job => { job with functionNext := none } else s
  s.modifyJob j fun job => { job with worker := none, numerator := 0, denominator := 0 }

def gearmanServerJobQueue (fuel : Nat) (s : Server) (j : Nat) (packetAdd : Nat → GearmanReturn) :
    Option (Server × GearmanReturn) := do
  let fn ← (s.jobs j).function
  let s := jobQueueRelease s j fn
  let (s, ret) ← jobQueueNoops packetAdd fuel s 0 (s.functions fn).workerList
  if ret ≠ .success then pure (s, ret)
  else
    let s ← jobQueueAppend s j fn
    pure (s, .success)

/-- The first priority, from `GEARMAN_JOB_PRIORITY_HIGH`, whose list is not empty; `none` is
the loop reaching `GEARMAN_JOB_PRIORITY_MAX`. -/
def firstPriority (f : ServerFunction) : Option GearmanJobPriority :=
  GearmanJobPriority.all.find? fun p => (f.jobList p).isSome

/-- Lines 337–345 of `gearman_server_job_take`: unlink the head `j` of list `p` and hand it to
worker `w`. -/
def jobTakeHead (s : Server) (w j : Nat) (p : GearmanJobPriority) : Option Server := do
  let fn ← (s.jobs j).function
  let s := s.modifyFunction fn fun f =>
    { f with jobList := Function.update f.jobList p (s.jobs j).functionNext }
  let s := if (s.functions fn).jobEnd p = some j then
    s.modifyFunction fn fun f => { f with jobEnd := Function.update f.jobEnd p none } else s
  let s := s.modifyFunction fn fun f => { f with jobCount := f.jobCount - 1 }
  let s := s.modifyJob j fun job => { job with worker := some w }
  let s := s.modifyWorker w fun wk => { wk with job := some j }
  pure (s.modifyFunction fn fun f => { f with jobRunning := f.jobRunning + 1 })

def gearmanServerJobTake : Nat → Server → Nat → Option (Server × Option Nat)
  | 0, _, _ => none
  | fuel + 1, s, con => do
    let found ← chainFind (fun w => (s.workers w).conNext)
      (fun w => (s.functions (s.workers w).function).jobCount != 0) fuel (s.cons con).workerList
    match found with
    | none => pure (s, none)
    | some w =>
      let p ← firstPriority (s.functions (s.workers w).function)
      let j ← (s.functions (s.workers w).function).jobList p
      let s ← jobTakeHead s w j p
      if (s.jobs j).ignore then
        let s ← gearmanServerJobFree fuel s j
        gearmanServerJobTake fuel s con
      else pure (s, some j)

def gearmanServerJobPeek : Nat → Server → Nat → Option (Server × Option Nat)
  | 0, _, _ => none
  | fuel + 1, s, con => do
    let found ← chainFind (fun w => (s.workers w).conNext)
      (fun w => (s.functions (s.workers w).function).jobCount != 0 &&
        (firstPriority (s.functions (s.workers w).function)).isSome) fuel (s.cons con).workerList
    match found with
    | none => pure (s, none)
    | some w =>
      let p ← firstPriority (s.functions (s.workers w).function)
      let j ← (s.functions (s.workers w).function).jobList p
      if (s.jobs j).ignore then
        let s := s.modifyJob j fun job => { job with ignore := false }
        let (s, taken) ← gearmanServerJobTake fuel s con
        let t ← taken
        let s ← gearmanServerJobFree fuel s t
        gearmanServerJobPeek fuel s con
      else pure (s, some j)

end GearmanServer
