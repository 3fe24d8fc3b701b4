import GearmanServer.Job

/-!
# `gearman_server_job_add`

The call's outside inputs are gathered in `AddEnv`: each `malloc` it may make, what the queue
callbacks return, what `gearman_server_io_packet_add` returns, and the value of the local `key`,
which the code reads without setting it when the unique is empty.
-/

namespace GearmanServer

/-- What a call of `gearman_server_job_add` reads besides the broker state. -/
structure AddEnv where
  functionMalloc : Bool := true
  nameMalloc : Bool := true
  jobMalloc : Bool := true
  uninitKey : UInt32 := 0
  queueAddRet : GearmanReturn := .success
  queueFlushRet : GearmanReturn := .success
  packetAdd : Nat → GearmanReturn := fun _ => .success

def payloadSize (data : Option Bytes) : Nat := (data.getD []).length

/-- Lines 66–92: the hash key of the call and the existing job found for it, if any. -/
def jobAddLookup (fuel : Nat) (s : Server) (fn : Nat) (unique : Bytes) (data : Option Bytes)
    (env : AddEnv) : Option (UInt32 × Option Nat) :=
  if unique.length = 0 then some (env.uninitKey, none)
  else if unique.length = 1 ∧ unique.head? = some 45 then
    if payloadSize data = 0 then some (0, none)
    else
      let key := serverJobHash (data.getD [])
      (serverJobGetUnique fuel s key fn (data.getD []) (payloadSize data)).map fun r => (key, r)
  else
    let key := serverJobHash unique
    (serverJobGetUnique fuel s key fn unique 0).map fun r => (key, r)

/-- Lines 186–190: `server_client->job= server_job` and `GEARMAN_LIST_ADD` onto the job's
`client_list`. -/
def jobAddClient (s : Server) (j : Nat) : Option Nat → Server
  | none => s
  | some c =>
    let clients := Function.update s.clients c { s.clients c with job := some j }
    let r := clientJobLinks.listAdd clients (s.jobs j).clientList (s.jobs j).clientCount c
    { s.modifyJob j (fun job => { job with clientList := r.2.1, clientCount := r.2.2 }) with
      clients := r.1 }

@[simp] theorem jobAddClient_functions (s : Server) (j : Nat) (client : Option Nat) :
    (jobAddClient s j client).functions = s.functions := by
  cases client <;> rfl

/-- Lines 110–123: fill in the created job `j` and give it a handle. -/
def jobAddFields (s : Server) (j fn : Nat) (unique : Bytes) (data : Option Bytes)
    (priority : GearmanJobPriority) (key : UInt32) : Server :=
  let s := s.modifyJob j fun job => { job with priority, function := some fn }
  let s := s.modifyFunction fn fun f => { f with jobTotal := f.jobTotal + 1 }
  let handle := formatJobHandle s.jobHandlePrefix s.jobHandleCount
  let s := s.modifyJob j fun job => { job with jobHandle := handle, unique := formatUnique unique }
  let s := { s with jobHandleCount := s.jobHandleCount + 1, handleLog := handle :: s.handleLog }
  s.modifyJob j fun job => { job with data, dataSize := payloadSize data, uniqueKey := key }

/-- Lines 124–131: `GEARMAN_HASH_ADD` of `j` into the unique table under `key`, then into the
job table under the hash of its handle. -/
def jobAddHash (s : Server) (j : Nat) (key : UInt32) : Server :=
  let r := uniqueLinks.hashAdd s.jobs s.uniqueHash s.uniqueCount (hashBucket key) j
  let s := { s with jobs := r.1, uniqueHash := r.2.1, uniqueCount := r.2.2 }
  let hkey := serverJobHash (cString (s.jobs j).jobHandle)
  let s := s.modifyJob j fun job => { job with jobHandleKey := hkey }
  let r := jobLinks.hashAdd s.jobs s.jobHash s.jobCount (hashBucket hkey) j
  { s with jobs := r.1, jobHash := r.2.1, jobCount := r.2.2 }

/-- Lines 110–131: fill in the created job `j`, give it a handle, and put it in both hash
tables. -/
def jobAddInit (s : Server) (j fn : Nat) (unique : Bytes) (data : Option Bytes)
    (priority : GearmanJobPriority) (key : UInt32) : Server :=
  jobAddHash (jobAddFields s j fn unique data priority key) j key

/-- `server_job->data= NULL; gearman_server_job_free(server_job); return NULL;` after a queue
callback failed with `ret`. -/
def jobAddAbort (fuel : Nat) (s : Server) (j : Nat) (ret : GearmanReturn) :
    Option (Server × Option GearmanReturn) :=
  (gearmanServerJobFree fuel (s.modifyJob j fun job => { job with data := none }) j).map
    fun s => (s, some ret)

/-- Lines 133–164: set `GEARMAN_SERVER_JOB_QUEUED` on a replayed job, or hand a background job
to `queue_add_fn` and `queue_flush_fn`; the error that ends the call, if any. -/
def jobAddPersist (fuel : Nat) (s : Server) (j : Nat) (functionName unique : Bytes)
    (data : Option Bytes) (priority : GearmanJobPriority) (client : Option Nat) (env : AddEnv) :
    Option (Server × Option GearmanReturn) :=
  let markQueued (s : Server) := s.modifyJob j fun job => { job with queued := true }
  if s.queueReplay then some (markQueued s, none)
  else if client.isNone && s.queueAddFn then
    let call := QueueCall.add (uniqueField (s.jobs j).unique) unique.length functionName data
      priority
    let s := { s with queueLog := call :: s.queueLog }
    if env.queueAddRet ≠ .success then jobAddAbort fuel s j env.queueAddRet
    else if s.queueFlushFn then
      let s := { s with queueLog := .flush :: s.queueLog }
      if env.queueFlushRet ≠ .success then jobAddAbort fuel s j env.queueFlushRet
      else some (markQueued s, none)
    else some (markQueued s, none)
  else some (s, none)

/-- Lines 166–177: after a failed `gearman_server_job_queue`, a background job is handed to
`queue_done_fn` before it is freed. -/
def jobAddDoneLog (s : Server) (j fn : Nat) (unique : Bytes) (client : Option Nat) : Server :=
  let call := QueueCall.done (uniqueField (s.jobs j).unique) unique.length
    (s.functions fn).functionName
  if client.isNone && s.queueDoneFn then { s with queueLog := call :: s.queueLog } else s

/-- Lines 110–181 of `gearman_server_job_add` for the created job `j`: fill it in, hash it,
hand it to the persistent queue, queue it, and attach the client; free it again on a failure. -/
def jobAddNew (fuel : Nat) (s : Server) (j fn : Nat) (functionName unique : Bytes)
    (data : Option Bytes) (priority : GearmanJobPriority) (client : Option Nat) (env : AddEnv)
    (key : UInt32) : Option (Server × Option Nat × GearmanReturn) := do
  let s := jobAddInit s j fn unique data priority key
  let (s, err) ← jobAddPersist fuel s j functionName unique data priority client env
  match err with
  | some ret => pure (s, none, ret)
  | none =>
    let (s, ret) ← gearmanServerJobQueue fuel s j env.packetAdd
    if ret ≠ .success then
      let s ← gearmanServerJobFree fuel (jobAddDoneLog s j fn unique client) j
      pure (s, none, ret)
    else pure (jobAddClient s j client, some j, .success)

def gearmanServerJobAdd (fuel : Nat) (s : Server) (functionName unique : Bytes)
    (data : Option Bytes) (priority : GearmanJobPriority) (client : Option Nat) (env : AddEnv) :
    Option (Server × Option Nat × GearmanReturn) := do
  let (s, fo) ← gearmanServerFunctionGet fuel s functionName env.functionMalloc env.nameMalloc
  let some fn := fo | pure (s, none, .memoryAllocationFailure)
  let (key, found) ← jobAddLookup fuel s fn unique data env
  match found with
  | some j => pure (jobAddClient s j client, some j, .jobExists)
  | none =>
    if 0 < (s.functions fn).maxQueueSize ∧
        (s.functions fn).maxQueueSize ≤ (s.functions fn).jobTotal then
      pure (s, none, .jobQueueFull)
    else
      let (s, jo) ← gearmanServerJobCreate s env.jobMalloc
      let some j := jo | pure (s, none, .memoryAllocationFailure)
      jobAddNew fuel s j fn functionName unique data priority client env key

end GearmanServer
