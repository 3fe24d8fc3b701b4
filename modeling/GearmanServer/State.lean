import GearmanServer.Links

/-!
# The broker state

The records of the server that the job and function code of `server_job.c` and
`server_function.c` reads or writes, with pointers as `Option Nat` addresses into one heap
per record type. `{}` of a record is what `memset(…, 0, …)` leaves. The job hash, the unique
hash and the free job pool share the heap of jobs; the first and the last thread through
the same `next`/`prev` fields.

Besides the C fields the state keeps ghost fields: the jobs `gearman_server_job_add` created
and `gearman_server_job_free` has not freed (`live`), the next fresh address of each
allocator, a stamp of every job's latest `gearman_server_job_queue`, and logs of the handles
created, of the queue callbacks called and of the payloads released.
-/

namespace GearmanServer

/-- The fields of `gearman_server_job_st` the job functions use; the three options bits are
`allocated`, `queued` and `ignore`. -/
structure ServerJob where
  allocated : Bool := false
  queued : Bool := false
  ignore : Bool := false
  priority : GearmanJobPriority := .high
  function : Option Nat := none
  functionNext : Option Nat := none
  worker : Option Nat := none
  numerator : UInt32 := 0
  denominator : UInt32 := 0
  jobHandle : Bytes := []
  jobHandleKey : UInt32 := 0
  unique : Bytes := []
  uniqueKey : UInt32 := 0
  data : Option Bytes := none
  dataSize : Nat := 0
  clientList : Option Nat := none
  clientCount : Nat := 0
  next : Option Nat := none
  prev : Option Nat := none
  uniqueNext : Option Nat := none
  uniquePrev : Option Nat := none

structure ServerFunction where
  allocated : Bool := false
  functionName : Bytes := []
  functionNameSize : Nat := 0
  maxQueueSize : Nat := 0
  jobTotal : Nat := 0
  jobRunning : Nat := 0
  jobCount : Nat := 0
  jobList : GearmanJobPriority → Option Nat := fun _ => none
  jobEnd : GearmanJobPriority → Option Nat := fun _ => none
  workerList : Option Nat := none
  next : Option Nat := none
  prev : Option Nat := none

structure ServerWorker where
  con : Nat := 0
  function : Nat := 0
  job : Option Nat := none
  conNext : Option Nat := none
  functionNext : Option Nat := none

/-- `gearman_server_con_st`: its worker list, the `GEARMAN_SERVER_CON_SLEEPING` option,
`noop_queued`, and the count of `NOOP` packets `gearman_server_io_packet_add` appended. -/
structure ServerCon where
  workerList : Option Nat := none
  sleeping : Bool := false
  noopQueued : Bool := false
  noopPackets : Nat := 0

structure ServerClient where
  job : Option Nat := none
  jobNext : Option Nat := none
  jobPrev : Option Nat := none

inductive QueueCall
  | add (unique : Bytes) (uniqueSize : Nat) (functionName : Bytes) (data : Option Bytes)
      (priority : GearmanJobPriority)
  | flush
  | done (unique : Bytes) (uniqueSize : Nat) (functionName : Bytes)

/-- `gearman_server_st` with the queue callbacks of its `gearman_st`, the heaps, and the ghost
fields. -/
structure Server where
  queueReplay : Bool := false
  jobHandlePrefix : Bytes := []
  jobHandleCount : UInt32 := 0
  jobHash : Fin gearmanJobHashSize → Option Nat := fun _ => none
  jobCount : Nat := 0
  uniqueHash : Fin gearmanJobHashSize → Option Nat := fun _ => none
  uniqueCount : Nat := 0
  freeJobList : Option Nat := none
  freeJobCount : Nat := 0
  functionList : Option Nat := none
  functionCount : Nat := 0
  queueAddFn : Bool := false
  queueFlushFn : Bool := false
  queueDoneFn : Bool := false
  jobs : Nat → ServerJob := fun _ => {}
  functions : Nat → ServerFunction := fun _ => {}
  workers : Nat → ServerWorker := fun _ => {}
  cons : Nat → ServerCon := fun _ => {}
  clients : Nat → ServerClient := fun _ => {}
  live : List Nat := []
  jobTop : Nat := 0
  functionTop : Nat := 0
  queueClock : Nat := 0
  queuedAt : Nat → Nat := fun _ => 0
  handleLog : List Bytes := []
  queueLog : List QueueCall := []
  releasedData : List Bytes := []

/-! ## The lists threaded through the heaps -/

def jobLinks : Links ServerJob where
  next := ServerJob.next
  prev := ServerJob.prev
  setNext j p := { j with next := p }
  setPrev j p := { j with prev := p }
  next_setNext _ _ := rfl
  prev_setNext _ _ := rfl
  next_setPrev _ _ := rfl
  prev_setPrev _ _ := rfl

def uniqueLinks : Links ServerJob where
  next := ServerJob.uniqueNext
  prev := ServerJob.uniquePrev
  setNext j p := { j with uniqueNext := p }
  setPrev j p := { j with uniquePrev := p }
  next_setNext _ _ := rfl
  prev_setNext _ _ := rfl
  next_setPrev _ _ := rfl
  prev_setPrev _ _ := rfl

def functionLinks : Links ServerFunction where
  next := ServerFunction.next
  prev := ServerFunction.prev
  setNext f p := { f with next := p }
  setPrev f p := { f with prev := p }
  next_setNext _ _ := rfl
  prev_setNext _ _ := rfl
  next_setPrev _ _ := rfl
  prev_setPrev _ _ := rfl

def clientJobLinks : Links ServerClient where
  next := ServerClient.jobNext
  prev := ServerClient.jobPrev
  setNext c p := { c with jobNext := p }
  setPrev c p := { c with jobPrev := p }
  next_setNext _ _ := rfl
  prev_setNext _ _ := rfl
  next_setPrev _ _ := rfl
  prev_setPrev _ _ := rfl

/-! ## The macros keep every list well formed -/

theorem list_macros_keep_lists_well_formed {α : Type} (L : Links α) :
    (∀ (heap : Nat → α) (list : Option Nat) (count : Nat) (xs : List Nat) (obj : Nat),
      L.DList heap list count xs → obj ∉ xs →
      let r := L.listAdd heap list count obj
      L.DList r.1 r.2.1 r.2.2 (obj :: xs)) ∧
    (∀ (heap : Nat → α) (list : Option Nat) (count : Nat) (xs : List Nat) (obj : Nat),
      L.DList heap list count xs → obj ∈ xs →
      let r := L.listDel heap list count obj
      L.DList r.1 r.2.1 r.2.2 (xs.erase obj)) ∧
    (∀ (n : Nat) (heap : Nat → α) (hash : Fin n → Option Nat) (count : Nat) (key : Fin n)
      (xs : List Nat) (obj : Nat), L.DChain heap (hash key) xs → obj ∉ xs →
      let r := L.hashAdd heap hash count key obj
      L.DChain r.1 (r.2.1 key) (obj :: xs) ∧ r.2.2 = count + 1 ∧
      ∀ k ≠ key, r.2.1 k = hash k ∧ ∀ ys, L.DChain heap (hash k) ys →
        (∀ y ∈ ys, y ∉ xs ∧ y ≠ obj) → L.DChain r.1 (r.2.1 k) ys) ∧
    (∀ (n : Nat) (heap : Nat → α) (hash : Fin n → Option Nat) (count : Nat) (key : Fin n)
      (xs : List Nat) (obj : Nat), L.DChain heap (hash key) xs → obj ∈ xs →
      let r := L.hashDel heap hash count key obj
      L.DChain r.1 (r.2.1 key) (xs.erase obj) ∧ r.2.2 = count - 1 ∧
      ∀ k ≠ key, r.2.1 k = hash k ∧ ∀ ys, L.DChain heap (hash k) ys →
        (∀ y ∈ ys, y ∉ xs) → L.DChain r.1 (r.2.1 k) ys) :=
  ⟨fun _ _ _ _ _ hd h => hd.listAdd h, fun _ _ _ _ _ hd h => hd.listDel h,
    fun _ _ _ _ _ _ _ hd h => ⟨hd.hashAdd h, rfl, fun _ hk =>
      ⟨Links.hashAdd_bucket_ne hk, fun _ ho hy => hd.hashAdd_other ho hk hy⟩⟩,
    fun _ _ _ _ _ _ _ hd h => ⟨hd.hashDel h, rfl, fun _ hk =>
      ⟨Links.hashDel_bucket_ne hk, fun _ ho hy => hd.hashDel_other h ho hk hy⟩⟩⟩

theorem list_macros_delete_middle_of_three :
    let a₀ := jobLinks.listAdd (fun _ => {}) none 0 0
    let a₁ := jobLinks.listAdd a₀.1 a₀.2.1 a₀.2.2 1
    let a₂ := jobLinks.listAdd a₁.1 a₁.2.1 a₁.2.2 2
    let d := jobLinks.listDel a₂.1 a₂.2.1 a₂.2.2 1
    let h₀ := jobLinks.hashAdd (fun _ => {}) (fun _ : Fin 2 => none) 0 0 0
    let h₁ := jobLinks.hashAdd h₀.1 h₀.2.1 h₀.2.2 0 1
    let h₂ := jobLinks.hashAdd h₁.1 h₁.2.1 h₁.2.2 0 2
    let h₃ := jobLinks.hashAdd h₂.1 h₂.2.1 h₂.2.2 1 3
    let hd := jobLinks.hashDel h₃.1 h₃.2.1 h₃.2.2 0 1
    jobLinks.DList a₂.1 a₂.2.1 a₂.2.2 [2, 1, 0] ∧ jobLinks.DList d.1 d.2.1 d.2.2 [2, 0] ∧
      jobLinks.DChain hd.1 (hd.2.1 0) [2, 0] ∧ jobLinks.DChain hd.1 (hd.2.1 1) [3] ∧
      hd.2.2 = 3 := by
  intro a₀ a₁ a₂ d h₀ h₁ h₂ h₃ hd
  obtain ⟨add, del, hadd, hdel⟩ := list_macros_keep_lists_well_formed jobLinks
  have e : jobLinks.DChain (fun _ => ({} : ServerJob)) none [] := ⟨rfl, trivial, List.nodup_nil⟩
  have l₂ : jobLinks.DList a₂.1 a₂.2.1 a₂.2.2 [2, 1, 0] :=
    add _ _ _ _ 2 (add _ _ _ _ 1 (add _ _ _ _ 0 ⟨e, rfl⟩ (by simp)) (by simp)) (by simp)
  have c₂ : jobLinks.DChain h₂.1 (h₂.2.1 0) [2, 1, 0] :=
    (hadd 2 _ _ _ 0 _ 2 (hadd 2 _ _ _ 0 _ 1 (hadd 2 _ _ _ 0 [] 0 e (by simp)).1 (by simp)).1
      (by simp)).1
  have c₃ := hadd 2 h₂.1 h₂.2.1 h₂.2.2 1 [] 3 ⟨rfl, trivial, List.nodup_nil⟩ (by simp)
  have b₀ : jobLinks.DChain h₃.1 (h₃.2.1 0) [2, 1, 0] :=
    (c₃.2.2 0 (by decide)).2 _ c₂ (by simp)
  have r := hdel 2 h₃.1 h₃.2.1 h₃.2.2 0 _ 1 b₀ (by simp)
  exact ⟨l₂, del _ _ _ _ 1 l₂ (by simp), r.1, (r.2.2 1 (by decide)).2 _ c₃.1 (by simp), rfl⟩

/-! ## Writing one record -/

namespace Server
variable (s : Server)

def modifyJob (j : Nat) (f : ServerJob → ServerJob) : Server :=
  { s with jobs := Function.update s.jobs j (f (s.jobs j)) }

def modifyFunction (fn : Nat) (f : ServerFunction → ServerFunction) : Server :=
  { s with functions := Function.update s.functions fn (f (s.functions fn)) }

def modifyWorker (w : Nat) (f : ServerWorker → ServerWorker) : Server :=
  { s with workers := Function.update s.workers w (f (s.workers w)) }

def modifyCon (c : Nat) (f : ServerCon → ServerCon) : Server :=
  { s with cons := Function.update s.cons c (f (s.cons c)) }

variable {s}

theorem modifyJob_field {β : Type} (P : ServerJob → β) {j : Nat} {f : ServerJob → ServerJob}
    (hf : ∀ job, P (f job) = P job) (k : Nat) : P ((s.modifyJob j f).jobs k) = P (s.jobs k) := by
  simp only [modifyJob, Function.update_apply]
  split <;> simp_all

theorem modifyFunction_field {β : Type} (P : ServerFunction → β) {fn : Nat}
    {f : ServerFunction → ServerFunction} (hf : ∀ g, P (f g) = P g) (k : Nat) :
    P ((s.modifyFunction fn f).functions k) = P (s.functions k) := by
  simp only [modifyFunction, Function.update_apply]
  split <;> simp_all

@[simp] theorem modifyJob_jobs (j : Nat) (f : ServerJob → ServerJob) (k : Nat) :
    (s.modifyJob j f).jobs k = if k = j then f (s.jobs j) else s.jobs k :=
  Function.update_apply _ _ _ _

@[simp] theorem modifyFunction_functions (fn : Nat) (f : ServerFunction → ServerFunction)
    (k : Nat) :
    (s.modifyFunction fn f).functions k = if k = fn then f (s.functions fn) else s.functions k :=
  Function.update_apply _ _ _ _

@[simp] theorem modifyWorker_workers (w : Nat) (f : ServerWorker → ServerWorker) (k : Nat) :
    (s.modifyWorker w f).workers k = if k = w then f (s.workers w) else s.workers k :=
  Function.update_apply _ _ _ _

@[simp] theorem modifyCon_cons (c : Nat) (f : ServerCon → ServerCon) (k : Nat) :
    (s.modifyCon c f).cons k = if k = c then f (s.cons c) else s.cons k :=
  Function.update_apply _ _ _ _

@[simp] theorem modifyJob_functions (j : Nat) (f : ServerJob → ServerJob) :
    (s.modifyJob j f).functions = s.functions := rfl
@[simp] theorem modifyJob_workers (j : Nat) (f : ServerJob → ServerJob) :
    (s.modifyJob j f).workers = s.workers := rfl
@[simp] theorem modifyJob_cons (j : Nat) (f : ServerJob → ServerJob) :
    (s.modifyJob j f).cons = s.cons := rfl
@[simp] theorem modifyJob_clients (j : Nat) (f : ServerJob → ServerJob) :
    (s.modifyJob j f).clients = s.clients := rfl
@[simp] theorem modifyJob_live (j : Nat) (f : ServerJob → ServerJob) :
    (s.modifyJob j f).live = s.live := rfl
@[simp] theorem modifyFunction_jobs (fn : Nat) (f : ServerFunction → ServerFunction) :
    (s.modifyFunction fn f).jobs = s.jobs := rfl
@[simp] theorem modifyFunction_workers (fn : Nat) (f : ServerFunction → ServerFunction) :
    (s.modifyFunction fn f).workers = s.workers := rfl
@[simp] theorem modifyFunction_cons (fn : Nat) (f : ServerFunction → ServerFunction) :
    (s.modifyFunction fn f).cons = s.cons := rfl
@[simp] theorem modifyFunction_clients (fn : Nat) (f : ServerFunction → ServerFunction) :
    (s.modifyFunction fn f).clients = s.clients := rfl
@[simp] theorem modifyFunction_live (fn : Nat) (f : ServerFunction → ServerFunction) :
    (s.modifyFunction fn f).live = s.live := rfl
@[simp] theorem modifyWorker_jobs (w : Nat) (f : ServerWorker → ServerWorker) :
    (s.modifyWorker w f).jobs = s.jobs := rfl
@[simp] theorem modifyWorker_functions (w : Nat) (f : ServerWorker → ServerWorker) :
    (s.modifyWorker w f).functions = s.functions := rfl
@[simp] theorem modifyWorker_cons (w : Nat) (f : ServerWorker → ServerWorker) :
    (s.modifyWorker w f).cons = s.cons := rfl
@[simp] theorem modifyWorker_clients (w : Nat) (f : ServerWorker → ServerWorker) :
    (s.modifyWorker w f).clients = s.clients := rfl
@[simp] theorem modifyWorker_live (w : Nat) (f : ServerWorker → ServerWorker) :
    (s.modifyWorker w f).live = s.live := rfl
@[simp] theorem modifyCon_jobs (c : Nat) (f : ServerCon → ServerCon) :
    (s.modifyCon c f).jobs = s.jobs := rfl
@[simp] theorem modifyCon_functions (c : Nat) (f : ServerCon → ServerCon) :
    (s.modifyCon c f).functions = s.functions := rfl
@[simp] theorem modifyCon_workers (c : Nat) (f : ServerCon → ServerCon) :
    (s.modifyCon c f).workers = s.workers := rfl
@[simp] theorem modifyCon_clients (c : Nat) (f : ServerCon → ServerCon) :
    (s.modifyCon c f).clients = s.clients := rfl
@[simp] theorem modifyCon_live (c : Nat) (f : ServerCon → ServerCon) :
    (s.modifyCon c f).live = s.live := rfl

end Server

end GearmanServer
