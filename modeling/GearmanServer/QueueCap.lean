import GearmanServer.FunctionGet
import GearmanServer.JobQueue

/-!
# `max_queue_size`

`gearman_server_job_add` creates no job for a function whose `job_total` has reached a positive
`max_queue_size` (lines 103–108). Nothing in the job code writes `max_queue_size` after
`gearman_server_function_create`, only a creation adds to `job_total`, and `job_total` counts
the function's live jobs in every reachable state: so a function with at most its cap of live
jobs keeps at most that many over any run.
-/

namespace GearmanServer

def CapFrame (F : Nat) (s s' : Server) : Prop :=
  (s'.functions F).maxQueueSize = (s.functions F).maxQueueSize ∧
    (s'.functions F).jobTotal ≤ (s.functions F).jobTotal

def OnFunctionList (s : Server) (f : Nat) : Prop :=
  ∃ fs, Chain (fun g => (s.functions g).next) s.functionList fs ∧ f ∈ fs

section Frame
variable {F : Nat} {s s' s'' : Server}

theorem CapFrame.refl (s : Server) : CapFrame F s s := ⟨rfl, le_rfl⟩

theorem CapFrame.trans (h : CapFrame F s s') (h' : CapFrame F s' s'') : CapFrame F s s'' :=
  ⟨h'.1.trans h.1, h'.2.trans h.2⟩

theorem CapFrame.of_functions (h : s'.functions = s.functions) : CapFrame F s s' := by
  rw [CapFrame, h]
  exact ⟨rfl, le_rfl⟩

theorem capFrame_free {fuel j : Nat} (hf : gearmanServerJobFree fuel s j = some s') :
    CapFrame F s s' := by
  obtain ⟨fn, -, hd⟩ := dispatchEq_free hf
  rw [CapFrame, hd.functions]
  show ((jobFreeCounters s j fn).functions F).maxQueueSize = _ ∧
    ((jobFreeCounters s j fn).functions F).jobTotal ≤ _
  by_cases e : F = fn
  · subst e
    simp [jobFreeCounters_functions]
  · simp [jobFreeCounters_functions, e]

theorem capFrame_takeHead {w j : Nat} {p : GearmanJobPriority}
    (ht : jobTakeHead s w j p = some s') : CapFrame F s s' := by
  obtain ⟨fn, -, rfl⟩ := jobTakeHead_eq_some.1 ht
  by_cases e : F = fn
  · subst e
    simp [CapFrame]
  · simp [CapFrame, Function.update_noteq e]

theorem capFrame_take {fuel con : Nat} {r : Option Nat}
    (h : gearmanServerJobTake fuel s con = some (s', r)) : CapFrame F s s' :=
  gearmanServerJobTake_rel (CapFrame F) CapFrame.refl CapFrame.trans capFrame_takeHead capFrame_free h

theorem capFrame_peek {fuel con : Nat} {r : Option Nat}
    (h : gearmanServerJobPeek fuel s con = some (s', r)) : CapFrame F s s' :=
  gearmanServerJobPeek_rel (CapFrame F) CapFrame.refl CapFrame.trans capFrame_takeHead capFrame_free
    (fun _ _ => .of_functions rfl) h

theorem capFrame_queue {fuel j : Nat} {pa : Nat → GearmanReturn} {r : GearmanReturn}
    (hq : gearmanServerJobQueue fuel s j pa = some (s', r)) : CapFrame F s s' := by
  have e := jobQueue_function_field (fun g => (g.maxQueueSize, g.jobTotal))
    (fun _ _ _ _ _ => rfl) hq F
  simp only [Prod.mk.injEq] at e
  exact ⟨e.1, e.2.le⟩

theorem FunctionsInv.get_cap {fs : List Nat} {fuel : Nat} {name : Bytes} {fm nm : Bool}
    {fo : Option Nat} (h : FunctionsInv s fs) (hF : F ∈ fs)
    (hg : gearmanServerFunctionGet fuel s name fm nm = some (s', fo)) :
    (s'.functions F).maxQueueSize = (s.functions F).maxQueueSize ∧
      (s'.functions F).jobTotal = (s.functions F).jobTotal := by
  have e := congrArg (fun g : ServerFunction => (g.maxQueueSize, g.jobTotal))
    ((h.get hg).2.2.1 F (Nat.ne_of_lt (h.lt_top F hF)))
  simpa only [ServerFunction.body, Prod.mk.injEq] using e

theorem capFrame_addNew {fuel j fn : Nat} {fname unique : Bytes} {data : Option Bytes}
    {priority : GearmanJobPriority} {client : Option Nat} {env : AddEnv} {key : UInt32}
    {jo : Option Nat} {ret : GearmanReturn}
    (ha : jobAddNew fuel s j fn fname unique data priority client env key = some (s', jo, ret)) :
    CapFrame F (jobAddInit s j fn unique data priority key) s' := by
  obtain ⟨s₄, err, hp, ha⟩ := jobAddNew_cases ha
  obtain ⟨s₀, -, -, d₀, -, hp⟩ := jobAddPersist_cases hp
  have c₀ : CapFrame F (jobAddInit s j fn unique data priority key) s₀ := .of_functions d₀.functions
  rcases ha with ⟨r, rfl, rfl, -, -⟩ | ⟨rfl, s₅, r, hq, ha⟩
  · obtain ⟨h', -⟩ | ⟨r', -, hf⟩ := hp
    · cases h'
    exact c₀.trans (capFrame_free hf)
  obtain ⟨-, rfl⟩ | ⟨r', h', -⟩ := hp
  swap
  · cases h'
  have c₅ := c₀.trans (capFrame_queue hq)
  rcases ha with ⟨-, -, -, hf⟩ | ⟨-, rfl, -, -⟩
  · obtain ⟨-, -, d₆⟩ := frame_jobAddDoneLog s₅ j fn unique client
    exact (c₅.trans (.of_functions d₆.functions)).trans (capFrame_free hf)
  · exact c₅.trans (.of_functions (jobAddClient_functions _ _ _))

theorem jobAddInit_cap (s : Server) (j fn : Nat) (unique : Bytes) (data : Option Bytes)
    (priority : GearmanJobPriority) (key : UInt32) (F : Nat) :
    ((jobAddInit s j fn unique data priority key).functions F).maxQueueSize =
      (s.functions F).maxQueueSize ∧
    ((jobAddInit s j fn unique data priority key).functions F).jobTotal =
      (s.functions F).jobTotal + if F = fn then 1 else 0 := by
  by_cases e : F = fn
  · subst e
    simp [jobAddInit, jobAddHash, jobAddFields, Server.modifyJob, Server.modifyFunction]
  · simp [jobAddInit, jobAddHash, jobAddFields, Server.modifyJob, Server.modifyFunction, e]

theorem BrokerInv.add_cap {fs : List Nat} {qs : Nat → GearmanJobPriority → List Nat}
    {fuel : Nat} {fname unique : Bytes} {data : Option Bytes} {priority : GearmanJobPriority}
    {client : Option Nat} {env : AddEnv} {jo : Option Nat} {ret : GearmanReturn}
    (h : BrokerInv s fs qs) (hF : F ∈ fs)
    (ha : gearmanServerJobAdd fuel s fname unique data priority client env = some (s', jo, ret)) :
    CapFrame F s s' ∨
      (s'.functions F).maxQueueSize = (s.functions F).maxQueueSize ∧
      (s'.functions F).jobTotal = (s.functions F).jobTotal + 1 ∧
      ¬(0 < (s.functions F).maxQueueSize ∧
        (s.functions F).maxQueueSize ≤ (s.functions F).jobTotal) := by
  obtain ⟨s₁, fo, hg, ha⟩ := gearmanServerJobAdd_cases ha
  obtain ⟨e₁, e₂⟩ := h.functions.get_cap hF hg
  have c₁ : CapFrame F s s₁ := ⟨e₁, e₂.le⟩
  rcases ha with ⟨-, rfl, -, -⟩ | ⟨fn, key, found, rfl, -, ha⟩
  · exact .inl c₁
  rcases ha with ⟨j, rfl, rfl, -, -⟩ | ⟨rfl, ⟨-, rfl, -, -⟩ | ⟨hfull, s₂, jo₂, hcr, ha⟩⟩
  · exact .inl (c₁.trans (.of_functions (jobAddClient_functions _ _ _)))
  · exact .inl c₁
  rcases ha with ⟨rfl, rfl, -, -⟩ | ⟨j, rfl, ha⟩
  · exact .inl (c₁.trans (.of_functions (by rw [gearmanServerJobCreate_none hcr])))
  -- a created job: `job_total` of its function goes up by one, then down again if it is freed
  have e₃ : s₂.functions = s₁.functions := by rw [(gearmanServerJobCreate_some hcr).1]
  obtain ⟨i₁, i₂⟩ := jobAddInit_cap s₂ j fn unique data priority key F
  have n : CapFrame F (jobAddInit s₂ j fn unique data priority key) s' := capFrame_addNew ha
  obtain ⟨n₁, n₂⟩ := n
  rw [e₃] at i₁ i₂
  by_cases hfn : F = fn
  · subst hfn
    rw [if_pos rfl] at i₂
    rcases Nat.lt_or_ge (s'.functions F).jobTotal ((s₁.functions F).jobTotal + 1) with hlt | hge
    · exact .inl ⟨n₁.trans (i₁.trans e₁), by omega⟩
    · refine .inr ⟨n₁.trans (i₁.trans e₁), by omega, ?_⟩
      rwa [← e₁, ← e₂]
  · rw [if_neg hfn] at i₂
    exact .inl ⟨n₁.trans (i₁.trans e₁), by omega⟩

theorem BrokerInv.exec_cap {fs : List Nat} {qs : Nat → GearmanJobPriority → List Nat}
    {fuel : Nat} {op : Op} {out : Outcome} (h : BrokerInv s fs qs) (hF : F ∈ fs)
    (ha : op.Allowed s) (he : op.exec fuel s = some (s', out)) :
    CapFrame F s s' ∨
      (s'.functions F).maxQueueSize = (s.functions F).maxQueueSize ∧
      (s'.functions F).jobTotal = (s.functions F).jobTotal + 1 ∧
      ¬(0 < (s.functions F).maxQueueSize ∧
        (s.functions F).maxQueueSize ≤ (s.functions F).jobTotal) := by
  cases op with
  | clientFree c =>
    cases he
    exact .inl (.of_functions (clientsOnly_clientFree s c).dispatchEq.functions)
  | _ =>
    obtain ⟨r, hr, e⟩ := Option.map_eq_some'.1 he
    cases e
    first
    | exact h.add_cap hF hr
    | exact .inl (capFrame_peek hr)
    | exact .inl (capFrame_take hr)
    | exact .inl (capFrame_queue hr)
    | exact .inl (capFrame_free hr)

end Frame

section Run
variable {ok : Server → Op → Outcome → Prop} {s₀ s : Server} {F : Nat}

theorem BrokerInv.mem_of_onFunctionList {fs : List Nat} {qs : Nat → GearmanJobPriority → List Nat}
    (h : BrokerInv s fs qs) (hF : OnFunctionList s F) : F ∈ fs := by
  obtain ⟨fs', hc, hm⟩ := hF
  rwa [chain_unique hc h.functions.list.chain] at hm

theorem Steps.cap (hr : Reachable ok s₀) (hF : OnFunctionList s₀ F)
    (hN : 0 < (s₀.functions F).maxQueueSize)
    (hle : (s₀.functions F).jobTotal ≤ (s₀.functions F).maxQueueSize) (hs : Steps ok s₀ s) :
    ∃ fs qs, BrokerInv s fs qs ∧ F ∈ fs ∧
      (s.functions F).maxQueueSize = (s₀.functions F).maxQueueSize ∧
      (s.functions F).jobTotal ≤ (s₀.functions F).maxQueueSize := by
  induction hs with
  | refl =>
    obtain ⟨fs, qs, h⟩ := hr.brokerInv
    exact ⟨fs, qs, h, h.mem_of_onFunctionList hF, rfl, hle⟩
  | step _ _ ha he _ ih =>
    obtain ⟨fs, qs, h, hf, hm, ht⟩ := ih
    obtain ⟨fs', qs', h', -, hsub⟩ := h.exec ha he
    refine ⟨fs', qs', h', hsub F hf, ?_⟩
    rcases h.exec_cap hf ha he with ⟨e, hle'⟩ | ⟨e, ht', hfull⟩
    · exact ⟨e.trans hm, hle'.trans ht⟩
    · rw [hm] at hfull
      exact ⟨e.trans hm, by omega⟩

theorem queue_cap_holds_over_runs (hr : Reachable ok s₀) (hF : OnFunctionList s₀ F)
    (hN : 0 < (s₀.functions F).maxQueueSize)
    (hle : jobTotalOf s₀ F ≤ (s₀.functions F).maxQueueSize) (hs : Steps ok s₀ s) :
    (s.functions F).maxQueueSize = (s₀.functions F).maxQueueSize ∧
    jobTotalOf s F ≤ (s₀.functions F).maxQueueSize ∧
    ∀ (fuel : Nat) (unique : Bytes) (data : Option Bytes) (priority : GearmanJobPriority)
      (client : Option Nat) (env : AddEnv) (key : UInt32), s.functionCount ≤ fuel →
      (jobAddLookup fuel s F unique data env = some (key, none) →
        jobTotalOf s F = (s₀.functions F).maxQueueSize →
        gearmanServerJobAdd fuel s (s.functions F).functionName unique data priority client env =
          some (s, none, .jobQueueFull)) ∧
      ∀ j, jobAddLookup fuel s F unique data env = some (key, some j) →
        gearmanServerJobAdd fuel s (s.functions F).functionName unique data priority client env =
          some (jobAddClient s j client, some j, .jobExists) := by
  obtain ⟨fs₀, qs₀, h₀⟩ := hr.brokerInv
  have hle₀ : (s₀.functions F).jobTotal ≤ (s₀.functions F).maxQueueSize := by
    rwa [h₀.counters.total F (h₀.mem_of_onFunctionList hF)]
  obtain ⟨fs, qs, h, hf, hm, ht⟩ := Steps.cap hr hF hN hle₀ hs
  have htot := h.counters.total F hf
  refine ⟨hm, htot ▸ ht, fun fuel unique data priority client env key hfuel => ?_⟩
  -- the function is found by its name, and nothing is written
  obtain ⟨⟨s₁, fo⟩, hg⟩ : ∃ r, gearmanServerFunctionGet fuel s (s.functions F).functionName
      env.functionMalloc env.nameMalloc = some r :=
    h.functions.get_returns _ _ (h.functions.list.count_eq ▸ hfuel)
  obtain ⟨rfl, rfl⟩ := h.functions.get_found hf rfl hg
  refine ⟨fun hlk hfull => ?_, fun j hlk => ?_⟩
  · have hq : 0 < (s₁.functions F).maxQueueSize ∧
        (s₁.functions F).maxQueueSize ≤ (s₁.functions F).jobTotal := by
      rw [hm, htot, hfull]
      exact ⟨hN, le_rfl⟩
    simp only [gearmanServerJobAdd, hg, hlk, hq, Option.bind_eq_bind, Option.some_bind, and_self,
      if_true, Option.pure_def]
  · simp only [gearmanServerJobAdd, hg, hlk, Option.bind_eq_bind, Option.some_bind,
      Option.pure_def]

end Run

def cappedBroker : Server :=
  { brokerWithWorker with functions := fun f => { brokerWithWorker.functions f with maxQueueSize := 1 } }

set_option maxRecDepth 4000 in
theorem queue_cap_second_submission_refused :
    ∃ s₁, Steps (fun _ _ _ => True) cappedBroker s₁ ∧ jobTotalOf s₁ 0 = 1 ∧
      gearmanServerJobAdd 1 s₁ [102] [98] none .normal none {} = some (s₁, none, .jobQueueFull) :=
  have hr : Reachable (fun _ _ _ => True) cappedBroker :=
    .init (initial_brokerWithWorker.withMaxQueueSize fun _ => 1)
  have hF : OnFunctionList cappedBroker 0 := ⟨[0], seg_cons.2 ⟨rfl, rfl⟩, List.mem_singleton_self 0⟩
  have hs : Steps (fun _ _ _ => True) cappedBroker _ := .step 1 .refl
    (show Op.Allowed cappedBroker (.add [102] [97] none .normal none {}) from trivial) rfl trivial
  have hc := queue_cap_holds_over_runs hr hF (by decide) (by decide) hs
  ⟨_, hs, by decide, (hc.2.2 1 [98] none .normal none {} _ (by decide)).1 rfl (by decide)⟩

end GearmanServer
