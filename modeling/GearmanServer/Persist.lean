import GearmanServer.Dedup

/-!
# The persistent queue

Lines 133–164 of `gearman_server_job_add`: a replayed job is marked
`GEARMAN_SERVER_JOB_QUEUED`, and a created background job is handed to `queue_add_fn` (and
`queue_flush_fn`) and marked when they succeed. A foreground job is never handed to the queue,
and the `GEARMAN_JOB_EXISTS` branch hands nothing to it: a background submission that finds
a foreground job gets that job back unmarked.
-/

namespace GearmanServer

section
variable {fuel j : Nat} {s s' : Server} {fname unique : Bytes} {data : Option Bytes}
  {priority : GearmanJobPriority} {client : Option Nat} {env : AddEnv}

theorem jobAddAbort_ne_none {r : GearmanReturn} : jobAddAbort fuel s j r ≠ some (s', none) := by
  intro h
  obtain ⟨_, -, e⟩ := Option.map_eq_some'.1 h
  cases e

theorem jobAddPersist_none
    (h : jobAddPersist fuel s j fname unique data priority client env = some (s', none)) :
    s.queueReplay = true ∧ s' = s.modifyJob j (fun job => { job with queued := true }) ∨
    s.queueReplay = false ∧ client = none ∧ s.queueAddFn = true ∧
      s' = { s.modifyJob j (fun job => { job with queued := true }) with
        queueLog := (if s.queueFlushFn then [.flush] else []) ++
          QueueCall.add (uniqueField (s.jobs j).unique) unique.length fname data priority ::
            s.queueLog } ∨
    s.queueReplay = false ∧ ¬(client = none ∧ s.queueAddFn = true) ∧ s' = s := by
  unfold jobAddPersist at h
  dsimp only at h
  split_ifs at h with h₁ h₂ h₃ h₄ h₅
  · cases h
    exact .inl ⟨h₁, rfl⟩
  · exact absurd h jobAddAbort_ne_none
  · exact absurd h jobAddAbort_ne_none
  all_goals
    simp only [Bool.not_eq_true] at h₁
    simp only [Bool.and_eq_true, Option.isNone_iff_eq_none] at h₂
  · cases h
    refine .inr (.inl ⟨h₁, h₂.1, h₂.2, ?_⟩)
    rw [if_pos (h₄ : s.queueFlushFn = true)]
    rfl
  · cases h
    refine .inr (.inl ⟨h₁, h₂.1, h₂.2, ?_⟩)
    rw [if_neg (h₄ : ¬s.queueFlushFn = true)]
    rfl
  · cases h
    exact .inr (.inr ⟨h₁, h₂, rfl⟩)

theorem jobAddPersist_queued (hq : s.queueAddFn = true)
    (h : jobAddPersist fuel s j fname unique data priority none env = some (s', none)) :
    (s'.jobs j).queued = true := by
  rcases jobAddPersist_none h with ⟨-, rfl⟩ | ⟨-, -, -, rfl⟩ | ⟨-, e, -⟩
  · simp
  · simp
  · exact absurd ⟨rfl, hq⟩ e

@[simp] theorem jobAddInit_queueAddFn (s : Server) (j fn : Nat) (unique : Bytes)
    (data : Option Bytes) (priority : GearmanJobPriority) (key : UInt32) :
    (jobAddInit s j fn unique data priority key).queueAddFn = s.queueAddFn := by
  simp only [jobAddInit, jobAddHash, jobAddFields, Server.modifyJob, Server.modifyFunction]

@[simp] theorem jobAddInit_queueReplay (s : Server) (j fn : Nat) (unique : Bytes)
    (data : Option Bytes) (priority : GearmanJobPriority) (key : UInt32) :
    (jobAddInit s j fn unique data priority key).queueReplay = s.queueReplay := by
  simp only [jobAddInit, jobAddHash, jobAddFields, Server.modifyJob, Server.modifyFunction]

@[simp] theorem jobAddInit_queueLog (s : Server) (j fn : Nat) (unique : Bytes)
    (data : Option Bytes) (priority : GearmanJobPriority) (key : UInt32) :
    (jobAddInit s j fn unique data priority key).queueLog = s.queueLog := by
  simp only [jobAddInit, jobAddHash, jobAddFields, Server.modifyJob, Server.modifyFunction]

end

theorem jobQueue_field {β : Type} (P : ServerJob → β)
    (hP : ∀ (a : ServerJob) w n d f,
      P { a with worker := w, numerator := n, denominator := d, functionNext := f } = P a)
    {fuel j : Nat} {packetAdd : Nat → GearmanReturn} {s s' : Server} {r : GearmanReturn}
    (hq : gearmanServerJobQueue fuel s j packetAdd = some (s', r)) (x : Nat) :
    P (s'.jobs x) = P (s.jobs x) := by
  obtain ⟨fn, s₁, r', -, hn, hr⟩ := gearmanServerJobQueue_some hq
  have h₁ : ∀ x, P (s₁.jobs x) = P (s.jobs x) := fun x => by
    rw [jobQueueNoops_eq hn, jobQueueRelease_eq]
    by_cases e : x = j
    · subst e
      simp only [Function.update_same]
      exact hP _ _ _ _ _
    · simp only [Function.update_noteq e]
  rcases hr with ⟨-, rfl, -⟩ | ⟨-, ha, -⟩
  · exact h₁ x
  · obtain ⟨s₂, h₂, rfl⟩ := jobQueueAppend_some ha
    rcases h₂ with ⟨-, rfl⟩ | ⟨y, e, -, -, rfl⟩
    · exact h₁ x
    · rw [← h₁ x]
      exact Server.modifyJob_field P (fun a => hP a a.worker a.numerator a.denominator _) x

section
variable {ok : Server → Op → Outcome → Prop} {fuel : Nat} {s s' : Server} {fname unique : Bytes}
  {data : Option Bytes} {priority : GearmanJobPriority} {env : AddEnv} {j : Nat}
  {ret : GearmanReturn}

theorem background_add_queued (hr : Reachable ok s) (hq : s.queueAddFn = true)
    (ha : gearmanServerJobAdd fuel s fname unique data priority none env =
      some (s', some j, ret)) :
    (ret = .success → (s'.jobs j).queued = true) ∧
    (ret = .jobExists → (s'.jobs j).queued = (s.jobs j).queued ∧ s'.queueLog = s.queueLog) := by
  obtain ⟨fs, qs, h⟩ := hr.brokerInv
  obtain ⟨s₁, fo, hg, ha⟩ := gearmanServerJobAdd_cases ha
  have e₁ := (h.functions.get hg).1
  rcases ha with ⟨-, -, hjo, -⟩ | ⟨fn, key, found, rfl, -, ha⟩
  · cases hjo
  rcases ha with ⟨j', rfl, rfl, hjo, rfl⟩ |
    ⟨rfl, ⟨-, -, hjo, -⟩ | ⟨-, s₂, jo₂, hcr, ⟨-, -, hjo, -⟩ | ⟨j₂, rfl, ha⟩⟩⟩
  · -- the lookup found `j'`: nothing but the functions was written
    cases hjo
    refine ⟨fun e => absurd e (by decide), fun _ => ⟨?_, ?_⟩⟩ <;> rw [e₁]
  · cases hjo
  · cases hjo
  · -- the call created `j₂`, and a returned one went through the persistence step
    obtain ⟨s₄, err, hp, ha⟩ := jobAddNew_cases ha
    rcases ha with ⟨r, -, -, hjo, -⟩ | ⟨rfl, s₅, r, hq₅, ⟨-, hjo, -⟩ | ⟨-, rfl, hjo, rfl⟩⟩
    · cases hjo
    · cases hjo
    cases hjo
    have hq₂ : (jobAddInit s₂ j fn unique data priority key).queueAddFn = true := by
      rw [jobAddInit_queueAddFn, (gearmanServerJobCreate_some hcr).1, e₁]
      exact hq
    refine ⟨fun _ => ?_, fun e => absurd e (by decide)⟩
    rw [jobQueue_field ServerJob.queued (fun _ _ _ _ _ => rfl) hq₅]
    exact jobAddPersist_queued hq₂ hp

end

set_option maxRecDepth 2000 in
theorem background_add_queued_first_job :
    ∃ s, gearmanServerJobAdd 1 { queueAddFn := true } [102] [97] none .normal none {} =
      some (s, some 0, .success) ∧ (s.jobs 0).queued = true := by
  have e : gearmanServerJobAdd 1 { queueAddFn := true } [102] [97] none .normal none {} =
      some (_, some 0, .success) := rfl
  have hr : Reachable (fun _ _ _ => True) { queueAddFn := true } :=
    .init (initial_empty.withConfig false [] true false false)
  exact ⟨_, e, (background_add_queued hr rfl e).1 rfl⟩

set_option maxRecDepth 2000 in
/-- A background submission, with the adapter installed and not replaying, that finds a foreground
job returns it with `GEARMAN_JOB_EXISTS`, unmarked; no adapter call is made. -/
theorem background_add_finds_unqueued_foreground_job :
    ∃ s₁ s₂, gearmanServerJobAdd 1 { queueAddFn := true } [102] [97] none .normal (some 0) {} =
        some (s₁, some 0, .success) ∧ Reachable (fun _ _ _ => True) s₁ ∧
      s₁.queueAddFn = true ∧ s₁.queueReplay = false ∧
      gearmanServerJobAdd 1 s₁ [102] [97] none .normal none {} = some (s₂, some 0, .jobExists) ∧
      (s₂.jobs 0).queued = false ∧ s₂.queueLog = [] :=
  have e₁ : gearmanServerJobAdd 1 { queueAddFn := true } [102] [97] none .normal (some 0) {} =
      some (_, some 0, .success) := rfl
  ⟨_, _, e₁, .add (.init (initial_empty.withConfig false [] true false false)) e₁
    (fun _ e => by cases e; rfl) trivial, rfl, rfl, rfl, rfl, rfl⟩

end GearmanServer
