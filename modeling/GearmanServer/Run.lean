import GearmanServer.JobAdd

/-!
# Runs of the broker

A run is a sequence of calls into the job code, `Op`, each made as its callers make it
(`Op.Allowed`): a foreground submission brings a client structure of its own, and a job is
re-queued or completed only while it runs. A call happens when its model returns for some
`fuel`, that is, when the C code returns. `Reachable ok` are the states a run reaches from an
`Initial` broker taking only steps that `ok` admits.
-/

namespace GearmanServer

inductive Op
  | add (functionName unique : Bytes) (data : Option Bytes) (priority : GearmanJobPriority)
      (client : Option Nat) (env : AddEnv)
  | peek (con : Nat)
  | take (con : Nat)
  | queue (job : Nat) (packetAdd : Nat → GearmanReturn)
  | free (job : Nat)
  | clientFree (client : Nat)

structure Outcome where
  job : Option Nat
  ret : GearmanReturn

def Op.exec (fuel : Nat) (s : Server) : Op → Option (Server × Outcome)
  | .add n u d p c env =>
    (gearmanServerJobAdd fuel s n u d p c env).map fun r => (r.1, ⟨r.2.1, r.2.2⟩)
  | .peek con => (gearmanServerJobPeek fuel s con).map fun r => (r.1, ⟨r.2, .success⟩)
  | .take con => (gearmanServerJobTake fuel s con).map fun r => (r.1, ⟨r.2, .success⟩)
  | .queue j pa => (gearmanServerJobQueue fuel s j pa).map fun r => (r.1, ⟨none, r.2⟩)
  | .free j => (gearmanServerJobFree fuel s j).map fun s => (s, ⟨none, .success⟩)
  | .clientFree c => some (gearmanServerClientFree s c, ⟨none, .success⟩)

def Running (s : Server) (j : Nat) : Prop := j ∈ s.live ∧ (s.jobs j).worker.isSome

def Op.Allowed (s : Server) : Op → Prop
  | .add _ _ _ _ (some c) _ => (s.clients c).job = none
  | .queue j _ => Running s j
  | .free j => Running s j
  | _ => True

instance Op.decidableAllowed (s : Server) : (op : Op) → Decidable (op.Allowed s)
  | .add _ _ _ _ (some c) _ => inferInstanceAs (Decidable ((s.clients c).job = none))
  | .add _ _ _ _ none _ | .peek _ | .take _ | .clientFree _ => isTrue trivial
  | .queue j _ | .free j => inferInstanceAs (Decidable (j ∈ s.live ∧ (s.jobs j).worker.isSome))

/-- Every re-queue succeeds. -/
def RequeueOk (_ : Server) (op : Op) (out : Outcome) : Prop :=
  match op with
  | .queue _ _ => out.ret = .success
  | _ => True

instance (s : Server) (op : Op) (out : Outcome) : Decidable (RequeueOk s op out) :=
  match op with
  | .queue _ _ => inferInstanceAs (Decidable (out.ret = .success))
  | .add .. | .peek _ | .take _ | .free _ | .clientFree _ => isTrue trivial

def Op.runOk (ok : Server → Op → Outcome → Prop) [∀ s op out, Decidable (ok s op out)]
    (fuel : Nat) : Server → List Op → Option Server
  | s, [] => some s
  | s, op :: ops =>
    if op.Allowed s then
      match op.exec fuel s with
      | some (s', out) => if ok s op out then Op.runOk ok fuel s' ops else none
      | none => none
    else none

structure Initial (s : Server) : Prop where
  live_eq : s.live = []
  jobHash_eq : ∀ b, s.jobHash b = none
  uniqueHash_eq : ∀ b, s.uniqueHash b = none
  jobCount_eq : s.jobCount = 0
  uniqueCount_eq : s.uniqueCount = 0
  freeJobList_eq : s.freeJobList = none
  freeJobCount_eq : s.freeJobCount = 0
  handleLog_eq : s.handleLog = []
  functions : ∃ fs, functionLinks.DList s.functions s.functionList s.functionCount fs ∧
    fs.Pairwise (fun f g => (s.functions f).functionName ≠ (s.functions g).functionName) ∧
    ∀ f ∈ fs, f < s.functionTop ∧
      (s.functions f).functionNameSize = (s.functions f).functionName.length ∧
      (s.functions f).jobTotal = 0 ∧ (s.functions f).jobRunning = 0 ∧
      (s.functions f).jobCount = 0 ∧ (∀ p, (s.functions f).jobList p = none) ∧
      (∀ p, (s.functions f).jobEnd p = none) ∧
      ∃ ws, Chain (fun w => (s.workers w).functionNext) (s.functions f).workerList ws
  cons : ∀ c, ∃ ws, Chain (fun w => (s.workers w).conNext) (s.cons c).workerList ws ∧
    ∀ w ∈ ws, ∃ fs, functionLinks.DList s.functions s.functionList s.functionCount fs ∧
      (s.workers w).function ∈ fs
  workers_eq : ∀ w, (s.workers w).job = none
  clients_eq : ∀ c, (s.clients c).job = none

theorem initial_empty : Initial {} :=
  ⟨rfl, fun _ => rfl, fun _ => rfl, rfl, rfl, rfl, rfl, rfl, ⟨[], ⟨⟨rfl, trivial, List.nodup_nil⟩, rfl⟩,
    List.Pairwise.nil, fun _ h => by cases h⟩, fun _ => ⟨[], rfl, fun _ h => by cases h⟩,
    fun _ => rfl, fun _ => rfl⟩

def brokerWithWorker : Server :=
  { functionList := some 0, functionCount := 1, functionTop := 1
    functions := fun f => if f = 0 then
      { allocated := true, functionName := [102], functionNameSize := 1, workerList := some 0 }
      else {}
    cons := fun c => if c = 0 then { workerList := some 0 } else {} }

theorem initial_brokerWithWorker : Initial brokerWithWorker := by
  have hd : functionLinks.DList brokerWithWorker.functions (some 0) 1 [0] :=
    ⟨⟨seg_cons.2 ⟨rfl, rfl⟩, ⟨rfl, trivial⟩, List.nodup_singleton 0⟩, rfl⟩
  refine ⟨rfl, fun _ => rfl, fun _ => rfl, rfl, rfl, rfl, rfl, rfl,
    ⟨[0], hd, List.pairwise_singleton _ _, fun f hf => ?_⟩, fun c => ?_, fun _ => rfl, fun _ => rfl⟩
  · rw [List.mem_singleton] at hf
    subst hf
    exact ⟨Nat.one_pos, rfl, rfl, rfl, rfl, fun _ => rfl, fun _ => rfl, [0], seg_cons.2 ⟨rfl, rfl⟩⟩
  · by_cases hc : c = 0
    · subst hc
      exact ⟨[0], seg_cons.2 ⟨rfl, rfl⟩, fun w _ => ⟨[0], hd, List.mem_singleton.2 rfl⟩⟩
    · refine ⟨[], seg_nil.2 ?_, fun _ h => by cases h⟩
      simp [brokerWithWorker, hc]

theorem Initial.withConfig {s : Server} (h : Initial s) (replay : Bool) (pfx : Bytes)
    (addFn flushFn doneFn : Bool) :
    Initial { s with queueReplay := replay, jobHandlePrefix := pfx, queueAddFn := addFn
                     queueFlushFn := flushFn, queueDoneFn := doneFn } :=
  ⟨h.live_eq, h.jobHash_eq, h.uniqueHash_eq, h.jobCount_eq, h.uniqueCount_eq, h.freeJobList_eq,
    h.freeJobCount_eq, h.handleLog_eq, h.functions, h.cons, h.workers_eq, h.clients_eq⟩

theorem Initial.withCons {s : Server} (h : Initial s) (sleeping noopQueued : Nat → Bool) :
    Initial { s with cons := fun c =>
      { s.cons c with sleeping := sleeping c, noopQueued := noopQueued c } } :=
  ⟨h.live_eq, h.jobHash_eq, h.uniqueHash_eq, h.jobCount_eq, h.uniqueCount_eq, h.freeJobList_eq,
    h.freeJobCount_eq, h.handleLog_eq, h.functions, h.cons, h.workers_eq, h.clients_eq⟩

theorem Initial.withMaxQueueSize {s : Server} (h : Initial s) (m : Nat → Nat) :
    Initial { s with functions := fun f => { s.functions f with maxQueueSize := m f } } := by
  obtain ⟨fs, hd, hn, hf⟩ := h.functions
  refine ⟨h.live_eq, h.jobHash_eq, h.uniqueHash_eq, h.jobCount_eq, h.uniqueCount_eq,
    h.freeJobList_eq, h.freeJobCount_eq, h.handleLog_eq, ⟨fs, hd.congr fun _ _ => ⟨rfl, rfl⟩, hn, hf⟩,
    fun c => ?_, h.workers_eq, h.clients_eq⟩
  obtain ⟨ws, hws, hm⟩ := h.cons c
  refine ⟨ws, hws, fun w hw => ?_⟩
  obtain ⟨fs', hd', hmem⟩ := hm w hw
  exact ⟨fs', hd'.congr fun _ _ => ⟨rfl, rfl⟩, hmem⟩

inductive Reachable (ok : Server → Op → Outcome → Prop) : Server → Prop
  | init {s : Server} : Initial s → Reachable ok s
  | step {s s' : Server} {op : Op} {out : Outcome} (fuel : Nat) :
      Reachable ok s → op.Allowed s → op.exec fuel s = some (s', out) → ok s op out →
      Reachable ok s'

inductive Steps (ok : Server → Op → Outcome → Prop) (s₀ : Server) : Server → Prop
  | refl : Steps ok s₀ s₀
  | step {s s' : Server} {op : Op} {out : Outcome} (fuel : Nat) :
      Steps ok s₀ s → op.Allowed s → op.exec fuel s = some (s', out) → ok s op out →
      Steps ok s₀ s'

theorem Reachable.steps {ok : Server → Op → Outcome → Prop} {s₀ s : Server}
    (hr : Reachable ok s₀) (hs : Steps ok s₀ s) : Reachable ok s := by
  induction hs with
  | refl => exact hr
  | step fuel _ ha he hok ih => exact .step fuel ih ha he hok

theorem Reachable.runOk {ok : Server → Op → Outcome → Prop} [∀ s op out, Decidable (ok s op out)]
    {fuel : Nat} {s s' : Server} {ops : List Op} (hr : Reachable ok s)
    (h : Op.runOk ok fuel s ops = some s') : Reachable ok s' := by
  induction ops generalizing s with
  | nil => exact Option.some.inj h ▸ hr
  | cons op ops ih =>
    rw [Op.runOk] at h
    split at h
    case isFalse => cases h
    case isTrue ha =>
      split at h
      case h_2 => cases h
      case h_1 s₁ out he =>
        split at h
        case isTrue hok => exact ih (.step fuel hr ha he hok) h
        case isFalse => cases h

theorem Reachable.add {ok : Server → Op → Outcome → Prop} {s s' : Server} {fuel : Nat}
    {n u : Bytes} {d : Option Bytes} {p : GearmanJobPriority} {c : Option Nat} {env : AddEnv}
    {jo : Option Nat} {ret : GearmanReturn} (hr : Reachable ok s)
    (he : gearmanServerJobAdd fuel s n u d p c env = some (s', jo, ret))
    (hc : ∀ c', c = some c' → (s.clients c').job = none)
    (hok : ok s (.add n u d p c env) ⟨jo, ret⟩) : Reachable ok s' := by
  refine .step fuel hr ?_ (by rw [Op.exec, he]; rfl) hok
  cases c with
  | none => trivial
  | some c' => exact hc c' rfl

theorem Reachable.take {ok : Server → Op → Outcome → Prop} {s s' : Server} {fuel con : Nat}
    {r : Option Nat} (hr : Reachable ok s) (he : gearmanServerJobTake fuel s con = some (s', r))
    (hok : ok s (.take con) ⟨r, .success⟩) : Reachable ok s' := by
  have he' : Op.exec fuel s (.take con) = some (s', ⟨r, .success⟩) := by rw [Op.exec, he]; rfl
  refine .step fuel hr ?_ he' hok
  trivial

theorem Reachable.queue {ok : Server → Op → Outcome → Prop} {s s' : Server} {fuel j : Nat}
    {pa : Nat → GearmanReturn} {r : GearmanReturn} (hr : Reachable ok s) (hj : Running s j)
    (he : gearmanServerJobQueue fuel s j pa = some (s', r)) (hok : ok s (.queue j pa) ⟨none, r⟩) :
    Reachable ok s' :=
  have he' : Op.exec fuel s (.queue j pa) = some (s', ⟨none, r⟩) := by rw [Op.exec, he]; rfl
  .step fuel hr (show Op.Allowed s (.queue j pa) from hj) he' hok

theorem Reachable.clientFree {ok : Server → Op → Outcome → Prop} {s : Server} (c : Nat)
    (hr : Reachable ok s) (hok : ok s (.clientFree c) ⟨none, .success⟩) :
    Reachable ok (gearmanServerClientFree s c) := by
  have he : Op.exec 0 s (.clientFree c) = some (gearmanServerClientFree s c, ⟨none, .success⟩) :=
    rfl
  refine .step 0 hr ?_ he hok
  trivial

end GearmanServer
