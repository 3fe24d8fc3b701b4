import GearmanServer.Invariant.Reachable

/-!
# Worker entries and the jobs they hold

`gearman_server_job_take` sets `job->worker` and `worker->job` together without looking at
`worker->job`; `gearman_server_job_free` clears `worker->job` through `job->worker`;
`gearman_server_job_queue` clears `job->worker` only. The two pointers are inverse
(`WorkerLinks`) over runs in which a connection grabs only while its worker entries hold no job
and no job is re-queued. A second grab on a busy connection breaks them.
-/

namespace GearmanServer

def WorkerLinks (s : Server) : Prop :=
  ∀ w j, (s.workers w).job = some j ↔ j ∈ s.live ∧ (s.jobs j).worker = some w

def ConIdle (s : Server) (con : Nat) : Prop :=
  ∃ ws, Chain (fun w => (s.workers w).conNext) (s.cons con).workerList ws ∧
    ∀ w ∈ ws, (s.workers w).job = none

/-- Runs in which `gearman_server_job_take` and `gearman_server_job_peek` are called for a
connection only while its worker entries hold no job, and no job is re-queued. -/
def GrabWhenIdle (s : Server) (op : Op) (_ : Outcome) : Prop :=
  match op with
  | .take con => ConIdle s con
  | .peek con => ConIdle s con
  | .queue _ _ => False
  | _ => True

section
variable {s s' s₁ s₂ : Server} {fs : List Nat} {qs : Nat → GearmanJobPriority → List Nat}

theorem WorkerLinks.congr (h : WorkerLinks s) (hl : s'.live = s.live) (hw : s'.workers = s.workers)
    (hj : ∀ x, (s'.jobs x).worker = (s.jobs x).worker) : WorkerLinks s' := fun w x => by
  rw [hw, hl, hj]
  exact h w x

theorem WorkerLinks.clientsOnly (h : WorkerLinks s) (hc : ClientsOnly s s') : WorkerLinks s' :=
  h.congr hc.dispatchEq.live (by rw [hc.eq]) hc.dispatchEq.worker

theorem ConIdle.congr {con : Nat} (h : ConIdle s con) (hw : s'.workers = s.workers)
    (hc : s'.cons = s.cons) : ConIdle s' con := by
  rw [ConIdle, hw, hc]
  exact h

/-! ## The writes of `worker->job` -/

theorem jobFree_workers {fuel j : Nat} (hf : gearmanServerJobFree fuel s j = some s') :
    s'.workers = (fun k => if (s.jobs j).worker = some k then { s.workers k with job := none }
      else s.workers k) ∧ s'.cons = s.cons := by
  obtain ⟨fn, s₁, -, h₁, rfl⟩ := gearmanServerJobFree_eq_some.1 hf
  have hc := clientsOnly_freeClientList h₁
  have e := jobFreeCounters_eq s j fn
  have hw : s₁.workers = s.workers ∧ s₁.cons = s.cons := by
    rw [hc.eq, e]
    exact ⟨rfl, rfl⟩
  have hj : (s₁.jobs j).worker = (s.jobs j).worker := by rw [hc.dispatchEq.worker, e]
  have e₁ : (jobFreeRelease (jobFreeUnhash s₁ j) j).workers =
      (clearWorkerJob s₁ (s₁.jobs j).worker).workers ∧
      (jobFreeRelease (jobFreeUnhash s₁ j) j).cons = (clearWorkerJob s₁ (s₁.jobs j).worker).cons := by
    unfold jobFreeRelease
    split_ifs <;> exact ⟨rfl, rfl⟩
  rw [e₁.1, e₁.2, clearWorkerJob_eq, hw.1, hw.2, hj]
  exact ⟨rfl, rfl⟩

theorem WorkerLinks.free {fuel j : Nat} (h : WorkerLinks s)
    (hj : (s.jobs j).worker = none ∨ j ∈ s.live ∧ s.live.Nodup)
    (hf : gearmanServerJobFree fuel s j = some s') : WorkerLinks s' := by
  obtain ⟨fn, -, hd⟩ := dispatchEq_free hf
  have hl : s'.live = s.live.erase j := hd.live
  intro w x
  rw [(jobFree_workers hf).1, hl, hd.worker]
  dsimp only
  split_ifs with hw
  · refine iff_of_false (fun e => by cases e) fun ⟨hxl, hxw⟩ => ?_
    obtain ⟨hjl, hn⟩ := hj.resolve_left (by rw [hw]; exact fun e => by cases e)
    have e : some x = some j := ((h w x).2 ⟨List.mem_of_mem_erase hxl, hxw⟩).symm.trans
      ((h w j).2 ⟨hjl, hw⟩)
    cases e
    exact hn.not_mem_erase hxl
  · rw [h w x]
    refine and_congr_left fun hxw => ⟨fun hx => (List.mem_erase_of_ne ?_).2 hx,
      List.mem_of_mem_erase⟩
    rintro rfl
    exact hw hxw

theorem WorkerLinks.takeHead {w j : Nat} {p : GearmanJobPriority} (h : WorkerLinks s)
    (hw : (s.workers w).job = none) (hj : j ∈ s.live) (hjw : (s.jobs j).worker = none)
    (ht : jobTakeHead s w j p = some s') : WorkerLinks s' := by
  obtain ⟨fn, -, rfl⟩ := jobTakeHead_eq_some.1 ht
  intro w' x
  simp only [Function.update_apply]
  by_cases e : w' = w <;> by_cases e' : x = j
  · subst e e'
    simp [hj]
  · subst e
    simp only [if_true, Option.some.injEq, if_neg e']
    refine iff_of_false (fun e => e' e.symm) fun hx => ?_
    have := (h w' x).2 hx
    rw [hw] at this
    cases this
  · subst e'
    simp only [if_true, if_neg e, Option.some.injEq]
    refine iff_of_false (fun hx => ?_) fun hx => e hx.2.symm
    rw [(h w' x).1 hx |>.2] at hjw
    cases hjw
  · simp only [if_neg e, if_neg e']
    exact h w' x

theorem WorkerLinks.create {ok : Bool} {j : Nat} (h : WorkerLinks s) (hj : j ∉ s.live)
    (hc : gearmanServerJobCreate s ok = some (s₂, some j)) : WorkerLinks s₂ := by
  obtain ⟨e₂, hjob, hpay⟩ := gearmanServerJobCreate_some hc
  have hw : s₂.workers = s.workers := by rw [e₂]
  have hl : s₂.live = j :: s.live := by rw [e₂]
  intro w x
  rw [hw, hl, List.mem_cons]
  by_cases e : x = j
  · subst e
    rw [hjob]
    exact iff_of_false (fun hx => hj ((h w x).1 hx).1) fun hx => by cases hx.2
  · have hx : (s₂.jobs x).worker = (s.jobs x).worker := by
      have e' := congrArg ServerJob.worker (hpay x e)
      exact e'
    rw [hx, or_iff_right e]
    exact h w x

theorem jobQueue_workers {fuel j : Nat} {packetAdd : Nat → GearmanReturn} {r : GearmanReturn}
    (hq : gearmanServerJobQueue fuel s j packetAdd = some (s', r)) :
    s'.workers = s.workers ∧
      ∀ x, (s'.jobs x).worker = if x = j then none else (s.jobs x).worker := by
  obtain ⟨fn, s₁, r', -, hn, hr⟩ := gearmanServerJobQueue_some hq
  have h₁ : s₁.workers = s.workers ∧
      ∀ x, (s₁.jobs x).worker = if x = j then none else (s.jobs x).worker := by
    rw [jobQueueNoops_eq hn, jobQueueRelease_eq]
    refine ⟨rfl, fun x => ?_⟩
    simp only [Function.update_apply]
    split_ifs <;> rfl
  rcases hr with ⟨-, rfl, -⟩ | ⟨-, ha, -⟩
  · exact h₁
  · obtain ⟨s₂, h₂, rfl⟩ := jobQueueAppend_some ha
    have h₂' : s₂.workers = s₁.workers ∧ ∀ x, (s₂.jobs x).worker = (s₁.jobs x).worker := by
      rcases h₂ with ⟨-, rfl⟩ | ⟨y, e, -, -, rfl⟩
      · exact ⟨rfl, fun _ => rfl⟩
      · exact ⟨rfl, Server.modifyJob_field ServerJob.worker fun _ => rfl⟩
    exact ⟨h₂'.1.trans h₁.1, fun x => (h₂'.2 x).trans (h₁.2 x)⟩

theorem WorkerLinks.queue {fuel j : Nat} {packetAdd : Nat → GearmanReturn} {r : GearmanReturn}
    (h : WorkerLinks s) (hjw : (s.jobs j).worker = none)
    (hq : gearmanServerJobQueue fuel s j packetAdd = some (s', r)) : WorkerLinks s' := by
  obtain ⟨hw, hx⟩ := jobQueue_workers hq
  refine h.congr (frame_jobQueue hq).2.live hw fun x => ?_
  rw [hx]
  split_ifs with e
  · rw [e, hjw]
  · rfl

end

/-! ## The calls -/

section
variable {s s' : Server} {fs : List Nat} {qs : Nat → GearmanJobPriority → List Nat}

theorem jobAddFields_worker (s : Server) (j fn : Nat) (unique : Bytes) (data : Option Bytes)
    (priority : GearmanJobPriority) (key : UInt32) (x : Nat) :
    ((jobAddFields s j fn unique data priority key).jobs x).worker = (s.jobs x).worker := by
  rw [jobAddFields_eq]
  by_cases e : x = j
  · subst e
    simp
  · simp [e]

theorem WorkerLinks.addNew {fuel j fn : Nat} {fname unique : Bytes} {data : Option Bytes}
    {priority : GearmanJobPriority} {client : Option Nat} {env : AddEnv} {key : UInt32}
    {jo : Option Nat} {ret : GearmanReturn}
    (h : WorkerLinks (jobAddFields s j fn unique data priority key)) (hjw : (s.jobs j).worker = none)
    (ha : jobAddNew fuel s j fn fname unique data priority client env key = some (s', jo, ret)) :
    WorkerLinks s' := by
  obtain ⟨s₄, err, hp, ha⟩ := jobAddNew_cases ha
  obtain ⟨s₀, -, -, hd, hw, hp⟩ := jobAddPersist_cases hp
  rw [jobAddInit_eq] at hd hw
  have hd' := (dispatchEq_jobAddHash (jobAddFields s j fn unique data priority key) j key).trans hd
  have h₀ : WorkerLinks s₀ := h.congr hd'.live hw hd'.worker
  have hj₀ : (s₀.jobs j).worker = none := by rw [hd'.worker, jobAddFields_worker, hjw]
  rcases hp with ⟨rfl, rfl⟩ | ⟨r, rfl, hf⟩
  · rcases ha with ⟨r, h', -⟩ | ⟨-, s₅, r, hq, ⟨-, -, -, hf⟩ | ⟨-, rfl, -, -⟩⟩
    · cases h'
    · have fD := (frame_jobAddDoneLog s₅ j fn unique client).2.2
      have hD : WorkerLinks (jobAddDoneLog s₅ j fn unique client) :=
        (h₀.queue hj₀ hq).congr fD.live (by unfold jobAddDoneLog; split_ifs <;> rfl) fD.worker
      refine hD.free (.inl ?_) hf
      rw [fD.worker, (jobQueue_workers hq).2, if_pos rfl]
    · exact (h₀.queue hj₀ hq).clientsOnly (clientsOnly_jobAddClient _ _ _)
  · rcases ha with ⟨r', -, rfl, -, -⟩ | ⟨h', -⟩
    · exact h₀.free (.inl hj₀) hf
    · cases h'

theorem WorkerLinks.add {fuel : Nat} {fname unique : Bytes} {data : Option Bytes}
    {priority : GearmanJobPriority} {client : Option Nat} {env : AddEnv} {jo : Option Nat}
    {ret : GearmanReturn} (h : WorkerLinks s) (hb : BrokerInv s fs qs)
    (ha : gearmanServerJobAdd fuel s fname unique data priority client env = some (s', jo, ret)) :
    WorkerLinks s' := by
  obtain ⟨s₁, fo, hg, ha⟩ := gearmanServerJobAdd_cases ha
  obtain ⟨fs₁, hb₁, -, hl₁, hj₁, -, hfo, -⟩ := hb.functionGet hg
  have h₁ : WorkerLinks s₁ :=
    h.congr hl₁ (by rw [(hb.functions.get hg).1]) fun x => by rw [hj₁]
  rcases ha with ⟨-, rfl, -, -⟩ | ⟨fn, key, found, rfl, -, ⟨j, -, rfl, -, -⟩ |
    ⟨-, ⟨-, rfl, -, -⟩ | ⟨-, s₂, jo₂, hcr, ⟨rfl, rfl, -, -⟩ | ⟨j, rfl, hn⟩⟩⟩⟩
  · exact h₁
  · exact h₁.clientsOnly (clientsOnly_jobAddClient _ _ _)
  · exact h₁
  · rw [gearmanServerJobCreate_none hcr]
    exact h₁
  · obtain ⟨-, -, hj, -⟩ := hb₁.init unique data priority key (hfo fn rfl).1 hcr
    have hF : WorkerLinks (jobAddFields s₂ j fn unique data priority key) :=
      (h₁.create hj hcr).congr (by rw [jobAddFields_eq]; rfl) (by rw [jobAddFields_eq]; rfl)
        (jobAddFields_worker s₂ j fn unique data priority key)
    have hjw : (s₂.jobs j).worker = none := by rw [(gearmanServerJobCreate_some hcr).2.1]
    exact hF.addNew hjw hn

theorem workers_after_free {fuel w t : Nat} {ws : Nat → ServerWorker} {s₁ s₂ : Server}
    (hw : (ws w).job = none) (h₁ : s₁.workers = Function.update ws w { ws w with job := some t })
    (ht : (s₁.jobs t).worker = some w) (hf : gearmanServerJobFree fuel s₁ t = some s₂) :
    s₂.workers = ws := by
  rw [(jobFree_workers hf).1, ht, h₁]
  funext k
  by_cases e : k = w
  · subst e
    simp only [if_true, Function.update_same]
    cases hk : ws k
    simp_all
  · simp [e, Ne.symm e]

theorem WorkerLinks.take {fuel con : Nat} {r : Option Nat} (h : WorkerLinks s)
    (hb : BrokerInv s fs qs) (hI : ConIdle s con)
    (ht : gearmanServerJobTake fuel s con = some (s', r)) :
    WorkerLinks s' ∧ (r = none → s'.workers = s.workers ∧ s'.cons = s.cons) ∧
      ∀ t, r = some t → ∃ w, (s.workers w).job = none ∧ (s'.jobs t).worker = some w ∧
        t ∈ s'.live ∧ s'.workers = Function.update s.workers w { s.workers w with job := some t } ∧
        s'.cons = s.cons := by
  induction fuel generalizing s qs with
  | zero => simp [gearmanServerJobTake] at ht
  | succ fuel ih =>
    obtain ⟨_, hfound, ⟨-, rfl, rfl⟩ | ⟨w, p, j, s₁, rfl, -, hj, h₁, hcase⟩⟩ :=
      gearmanServerJobTake_succ ht
    · exact ⟨h, fun _ => ⟨rfl, rfl⟩, fun _ e => by cases e⟩
    have hwf := (hb.found hfound).1
    obtain ⟨ws, hws, hidle⟩ := hI
    have hw := hidle w (List.mem_of_find?_eq_some (chainFind_eq hws hfound).symm)
    obtain ⟨-, -, hjl, hjw⟩ := hb.listHead hwf hj
    obtain ⟨hB₁, -, hjl₁, hjw₁, hu⟩ := hb.takeHead hwf hj h₁
    have hW₁ := h.takeHead hw hjl hjw h₁
    obtain ⟨fn, -, e₁⟩ := jobTakeHead_eq_some.1 h₁
    have hs₁ : s₁.workers = Function.update s.workers w { s.workers w with job := some j } ∧
        s₁.cons = s.cons := by
      rw [e₁]
      exact ⟨rfl, rfl⟩
    rcases hcase with ⟨-, rfl, rfl⟩ | ⟨-, s₂, h₂, ht⟩
    · refine ⟨hW₁, fun e => (by cases e), fun t e => ?_⟩
      cases e
      exact ⟨w, hw, hjw₁, hjl₁, hs₁⟩
    have hw₂ := workers_after_free hw hs₁.1 hjw₁ h₂
    have hc₂ : s₂.cons = s.cons := (jobFree_workers h₂).2.trans hs₁.2
    obtain ⟨hW, hn, hs⟩ := ih (hW₁.free (.inr ⟨hjl₁, hB₁.hash.nodup⟩) h₂)
      (hB₁.free hjl₁ hu h₂) (ConIdle.congr ⟨ws, hws, hidle⟩ hw₂ hc₂) ht
    rw [hw₂, hc₂] at hn hs
    exact ⟨hW, hn, hs⟩

theorem WorkerLinks.peek {fuel con : Nat} {r : Option Nat} (h : WorkerLinks s)
    (hb : BrokerInv s fs qs) (hI : ConIdle s con)
    (hp : gearmanServerJobPeek fuel s con = some (s', r)) : WorkerLinks s' := by
  induction fuel generalizing s qs with
  | zero => simp [gearmanServerJobPeek] at hp
  | succ fuel ih =>
    obtain ⟨_, -, ⟨-, rfl, -⟩ | ⟨_, _, j, -, -, -, ⟨-, rfl, -⟩ | ⟨-, s₁, t, s₂, h₁, h₂, hp⟩⟩⟩ :=
      gearmanServerJobPeek_succ hp
    · exact h
    · exact h
    set s₀ := s.modifyJob j fun job => { job with ignore := false }
    have hc₀ : ClientsOnly s s₀ := clientsOnly_modifyJob fun _ => rfl
    have hb₀ : BrokerInv s₀ fs qs := hb.dispatchEq (skeletonEq_modifyJob _ _)
      (tablesEq_modifyJob fun _ => rfl) hc₀.dispatchEq
    obtain ⟨hW₁, -, hs⟩ := (h.clientsOnly hc₀).take hb₀ (hI.congr rfl rfl) h₁
    obtain ⟨w', hw', htw, htl, hws, hc₁⟩ := hs t rfl
    obtain ⟨qs₁, hB₁, -, hr⟩ := hb₀.take h₁
    have hc₂ : s₂.cons = s.cons := (jobFree_workers h₂).2.trans hc₁
    exact ih (hW₁.free (.inr ⟨htl, hB₁.hash.nodup⟩) h₂)
      (hB₁.free htl (hB₁.queues.unqueued (hr t rfl).2) h₂)
      (hI.congr (workers_after_free hw' hws htw h₂) hc₂) hp

theorem WorkerLinks.exec {fuel : Nat} {op : Op} {out : Outcome} (h : WorkerLinks s)
    (hb : BrokerInv s fs qs) (ha : op.Allowed s) (he : op.exec fuel s = some (s', out))
    (hok : GrabWhenIdle s op out) : WorkerLinks s' := by
  cases op with
  | add n u d p c env =>
    obtain ⟨r, hr, e⟩ := Option.map_eq_some'.1 he
    cases e
    exact h.add hb hr
  | peek con =>
    obtain ⟨r, hr, e⟩ := Option.map_eq_some'.1 he
    cases e
    exact h.peek hb hok hr
  | take con =>
    obtain ⟨r, hr, e⟩ := Option.map_eq_some'.1 he
    cases e
    exact (h.take hb hok hr).1
  | queue j pa => exact hok.elim
  | free j =>
    obtain ⟨r, hr, e⟩ := Option.map_eq_some'.1 he
    cases e
    exact h.free (.inr ⟨ha.1, hb.hash.nodup⟩) hr
  | clientFree c =>
    cases he
    exact h.clientsOnly (clientsOnly_clientFree s c)

end

theorem worker_job_links {s : Server} (hr : Reachable GrabWhenIdle s) : WorkerLinks s := by
  induction hr with
  | init hi =>
    intro w j
    rw [hi.workers_eq, hi.live_eq]
    exact iff_of_false (fun e => by cases e) fun h => by cases h.1
  | step _ hr' ha he hok ih =>
    obtain ⟨fs, qs, hb⟩ := hr'.brokerInv
    exact ih.exec hb ha he hok

theorem conIdle_brokerWithWorker : ConIdle brokerWithWorker 0 :=
  ⟨[0], seg_cons.2 ⟨rfl, rfl⟩, fun _ _ => rfl⟩

set_option maxRecDepth 2000 in
theorem worker_job_links_after_grab : ∃ s, Reachable GrabWhenIdle s ∧ WorkerLinks s :=
  have hr₁ := Reachable.add (.init initial_brokerWithWorker)
    (rfl : gearmanServerJobAdd 1 brokerWithWorker [102] [97] none .normal none {} =
      some (_, some 0, .success)) (fun _ h => by cases h) trivial
  have hr₂ := Reachable.take hr₁ (rfl : gearmanServerJobTake 2 _ 0 = _)
    (conIdle_brokerWithWorker.congr rfl rfl)
  ⟨_, hr₂, worker_job_links hr₂⟩

set_option maxRecDepth 2000 in
/-- Two grabs on one connection: the worker entry is handed job 1 while job 0 still runs on it,
so job 0's worker no longer points back at it. -/
theorem second_grab_breaks_worker_links :
    ∃ s, Reachable (fun _ _ _ => True) s ∧ 0 ∈ s.live ∧ 1 ∈ s.live ∧
      (s.jobs 0).worker = some 0 ∧ (s.jobs 1).worker = some 0 ∧ (s.workers 0).job = some 1 :=
  have hr₁ := Reachable.add (.init initial_brokerWithWorker)
    (rfl : gearmanServerJobAdd 1 brokerWithWorker [102] [97] none .normal none {} =
      some (_, some 0, .success)) (fun _ h => by cases h) trivial
  have hr₂ := Reachable.add hr₁ (rfl : gearmanServerJobAdd 1 _ [102] [98] none .normal none {} = _)
    (fun _ h => by cases h) trivial
  have hr₃ := Reachable.take hr₂ (rfl : gearmanServerJobTake 2 _ 0 = _) trivial
  have hr₄ := Reachable.take hr₃ (rfl : gearmanServerJobTake 2 _ 0 = _) trivial
  ⟨_, hr₄, by decide, by decide, by decide, by decide, by decide⟩

end GearmanServer
