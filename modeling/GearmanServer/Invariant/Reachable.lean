import GearmanServer.Invariant.Add

/-!
# The invariant over runs

An initial broker satisfies `BrokerInv` with empty job lists, and so does every state a run of
allowed calls reaches. When every re-queue succeeds, every live job that no worker holds is
on its list (`QueueComplete`).
-/

namespace GearmanServer

section
variable {s s' : Server} {fs : List Nat} {qs : Nat → GearmanJobPriority → List Nat}

theorem BrokerInv.initial (hi : Initial s) :
    ∃ fs, BrokerInv s fs (fun _ _ => []) ∧ QueueComplete s (fun _ _ => []) s.live := by
  obtain ⟨fs, hd, hnames, hf⟩ := hi.functions
  have hnil : ∀ b, jobLinks.DChain s.jobs (s.jobHash b)
      (bucketOf s.jobs [] ServerJob.jobHandleKey b) ∧ uniqueLinks.DChain s.jobs (s.uniqueHash b)
      (bucketOf s.jobs [] ServerJob.uniqueKey b) := fun b => by
    rw [hi.jobHash_eq, hi.uniqueHash_eq]
    exact ⟨⟨rfl, trivial, List.nodup_nil⟩, ⟨rfl, trivial, List.nodup_nil⟩⟩
  refine ⟨fs, ⟨⟨hd, fun f h => (hf f h).1, fun f h => (hf f h).2.1, hnames⟩,
    ⟨fun c => ?_, fun f h => (hf f h).2.2.2.2.2.2.2⟩, ?_, ?_, ?_, ?_, ?_⟩, ?_⟩
  · obtain ⟨ws, hws, hm⟩ := hi.cons c
    refine ⟨ws, hws, fun w hw => ?_⟩
    obtain ⟨fs', hd', hw'⟩ := hm w hw
    rwa [chain_unique hd'.chain hd.chain] at hw'
  · rw [hi.live_eq]
    exact ⟨List.nodup_nil, (fun _ h => by cases h), ⟨fun b => (hnil b).1, hi.jobCount_eq⟩,
      ⟨fun b => (hnil b).2, hi.uniqueCount_eq⟩, (fun _ h => by cases h)⟩
  · rw [hi.live_eq, PoolInv, hi.freeJobList_eq, hi.freeJobCount_eq]
    exact ⟨[], ⟨⟨rfl, trivial, List.nodup_nil⟩, rfl⟩, (fun _ h => by cases h)⟩
  · refine ⟨fun f h => ?_, fun f h => ?_, fun x h => ?_⟩
    · rw [(hf f h).2.2.1, jobTotalOf, hi.live_eq]; rfl
    · rw [(hf f h).2.2.2.1, jobRunningOf, hi.live_eq]; rfl
    · rw [hi.live_eq] at h; cases h
  · refine ⟨fun f h p => ?_, fun f h p => (hf f h).2.2.2.2.2.2.1 p, (fun _ _ _ _ h => by cases h),
      fun f h => (hf f h).2.2.2.2.1, fun _ _ _ => List.Pairwise.nil, (fun _ _ _ _ h => by cases h)⟩
    rw [(hf f h).2.2.2.2.2.1 p]; rfl
  · refine ⟨fun j h => ?_, fun c j e => ?_⟩
    · rw [hi.live_eq] at h; cases h
    · rw [hi.clients_eq] at e; cases e
  · rw [hi.live_eq]
    exact fun _ h => by cases h

theorem BrokerInv.exec {fuel : Nat} {op : Op} {out : Outcome} (h : BrokerInv s fs qs)
    (ha : op.Allowed s) (he : op.exec fuel s = some (s', out)) :
    ∃ fs' qs', BrokerInv s' fs' qs' ∧
      (RequeueOk s op out → QueueComplete s qs s.live → QueueComplete s' qs' s'.live) ∧
      ∀ f ∈ fs, f ∈ fs' := by
  cases op with
  | add n u d p c env =>
    obtain ⟨r, hr, e⟩ := Option.map_eq_some'.1 he
    cases e
    obtain ⟨fs', qs', h', hq, hsub⟩ := h.add (fun c' e => by subst e; exact ha) hr
    exact ⟨fs', qs', h', fun _ => hq, hsub⟩
  | peek con =>
    obtain ⟨r, hr, e⟩ := Option.map_eq_some'.1 he
    cases e
    obtain ⟨qs', h', hq⟩ := h.peek hr
    exact ⟨fs, qs', h', fun _ => hq, fun _ => id⟩
  | take con =>
    obtain ⟨r, hr, e⟩ := Option.map_eq_some'.1 he
    cases e
    obtain ⟨qs', h', hq, -⟩ := h.take hr
    exact ⟨fs, qs', h', fun _ => hq, fun _ => id⟩
  | queue j pa =>
    obtain ⟨r, hr, e⟩ := Option.map_eq_some'.1 he
    cases e
    obtain ⟨hj, hw⟩ := ha
    obtain ⟨fn, -, hl, -, hfail, hsucc⟩ := h.queue hj (h.queues.unqueued hw) (.inl hw) hr
    have hsub : QueueComplete s qs s.live → QueueComplete s qs (s.live.erase j) :=
      fun hq => hq.mono fun _ => List.mem_of_mem_erase
    by_cases hs : r.2 = .success
    · exact ⟨fs, _, (hsucc hs).1, fun _ hq => (hsucc hs).2 (hsub hq), fun _ => id⟩
    · exact ⟨fs, qs, (hfail hs).1, fun hok => absurd hok hs, fun _ => id⟩
  | free j =>
    obtain ⟨r, hr, e⟩ := Option.map_eq_some'.1 he
    cases e
    obtain ⟨hj, hw⟩ := ha
    exact ⟨fs, qs, h.free hj (h.queues.unqueued hw) hr,
      fun _ hq => hq.jobFree (fun _ => List.mem_of_mem_erase) hr, fun _ => id⟩
  | clientFree c =>
    cases he
    exact ⟨fs, qs, h.clientFree c, fun _ hq => hq.clientsOnly (clientsOnly_clientFree s c),
      fun _ => id⟩

end

theorem Reachable.brokerInv {ok : Server → Op → Outcome → Prop} {s : Server}
    (hr : Reachable ok s) : ∃ fs qs, BrokerInv s fs qs := by
  induction hr with
  | init hi =>
    obtain ⟨fs, h, -⟩ := BrokerInv.initial hi
    exact ⟨fs, _, h⟩
  | step _ _ ha he _ ih =>
    obtain ⟨fs, qs, h⟩ := ih
    obtain ⟨fs', qs', h', -⟩ := h.exec ha he
    exact ⟨fs', qs', h'⟩

theorem Reachable.queueComplete {s : Server} (hr : Reachable RequeueOk s) :
    ∃ fs qs, BrokerInv s fs qs ∧ QueueComplete s qs s.live := by
  induction hr with
  | init hi =>
    obtain ⟨fs, h, hq⟩ := BrokerInv.initial hi
    exact ⟨fs, _, h, hq⟩
  | step _ _ ha he hok ih =>
    obtain ⟨fs, qs, h, hq⟩ := ih
    obtain ⟨fs', qs', h', hq', -⟩ := h.exec ha he
    exact ⟨fs', qs', h', hq' hok hq⟩

end GearmanServer
