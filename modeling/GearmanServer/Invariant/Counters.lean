import GearmanServer.Invariant.Hash

/-!
# `job_total` and `job_running`

`CounterInv s fs`: every function of `fs` counts in `job_total` its live jobs and in
`job_running` those a worker holds, and every live job belongs to a function of `fs`.
`gearman_server_job_add` adds one to the first when it creates a job,
`gearman_server_job_take` adds one to the second, and `gearman_server_job_queue` and
`gearman_server_job_free` take away what the job had added.
-/

namespace GearmanServer

def jobTotalOf (s : Server) (f : Nat) : Nat :=
  s.live.countP fun x => (s.jobs x).function == some f

def jobRunningOf (s : Server) (f : Nat) : Nat :=
  s.live.countP fun x => (s.jobs x).function == some f && (s.jobs x).worker.isSome

structure CounterInv (s : Server) (fs : List Nat) : Prop where
  total : ∀ f ∈ fs, (s.functions f).jobTotal = jobTotalOf s f
  running : ∀ f ∈ fs, (s.functions f).jobRunning = jobRunningOf s f
  function : ∀ x ∈ s.live, ∃ f ∈ fs, (s.jobs x).function = some f

/-! ## Counting after a change at one job -/

section Count
variable {l : List Nat} {j : Nat} {p q : Nat → Bool}

theorem countP_erase_add (p : Nat → Bool) (hj : j ∈ l) :
    (l.erase j).countP p + (if p j then 1 else 0) = l.countP p := by
  have hpos : p j → 0 < (l.filter p).length := fun h =>
    List.length_pos_of_mem (List.mem_filter.2 ⟨hj, h⟩)
  simp only [List.countP_eq_length_filter, ← List.erase_filter, List.length_erase,
    List.mem_filter, hj, true_and]
  cases h : p j
  · simp
  · have := hpos h
    simp only [if_true]
    omega

theorem countP_update (p q : Nat → Bool) (hl : l.Nodup) (hj : j ∈ l)
    (h : ∀ x, x ≠ j → q x = p x) :
    l.countP q + (if p j then 1 else 0) = l.countP p + (if q j then 1 else 0) := by
  rw [← countP_erase_add q hj, ← countP_erase_add p hj,
    List.countP_congr fun x hx => by rw [h x fun e => hl.not_mem_erase (e ▸ hx)]]
  omega

theorem countP_of_not_mem (hj : j ∉ l) (h : ∀ x, x ≠ j → q x = p x) :
    l.countP q = l.countP p :=
  List.countP_congr fun x hx => by rw [h x fun e => hj (e ▸ hx)]

end Count

/-! ## Preservation -/

section
variable {s s' : Server} {fs : List Nat}

theorem CounterInv.congr (h : CounterInv s fs) (hl : s'.live = s.live)
    (hj : ∀ x, (s'.jobs x).function = (s.jobs x).function ∧ (s'.jobs x).worker = (s.jobs x).worker)
    (hf : ∀ f ∈ fs, (s'.functions f).jobTotal = (s.functions f).jobTotal ∧
      (s'.functions f).jobRunning = (s.functions f).jobRunning) :
    CounterInv s' fs := by
  have ht : ∀ f, jobTotalOf s' f = jobTotalOf s f := fun f => by
    simp only [jobTotalOf, hl, (hj _).1]
  have hr : ∀ f, jobRunningOf s' f = jobRunningOf s f := fun f => by
    simp only [jobRunningOf, hl, (hj _).1, (hj _).2]
  refine ⟨fun f hf' => ?_, fun f hf' => ?_, fun x hx => ?_⟩
  · rw [(hf f hf').1, ht, h.total f hf']
  · rw [(hf f hf').2, hr, h.running f hf']
  · rw [(hj x).1]
    exact h.function x (hl ▸ hx)

theorem CounterInv.dispatchEq (h : CounterInv s fs) (hd : DispatchEq s s') : CounterInv s' fs :=
  h.congr hd.live (fun x => ⟨hd.function x, hd.worker x⟩) fun f _ => by rw [hd.functions]; simp

theorem CounterInv.free {fuel j : Nat} (h : CounterInv s fs) (hj : j ∈ s.live)
    (hf : gearmanServerJobFree fuel s j = some s') : CounterInv s' fs := by
  obtain ⟨fn, hfn, hd⟩ := dispatchEq_free hf
  refine CounterInv.dispatchEq ⟨fun f hf' => ?_, fun f hf' => ?_, fun x hx => ?_⟩ hd
  · have e := countP_erase_add (fun x => (s.jobs x).function == some f) hj
    have := h.total f hf'
    simp only [jobFreeCounters_functions, jobTotalOf] at this ⊢
    split_ifs at e ⊢ <;> simp_all <;> omega
  · have e := countP_erase_add
      (fun x => (s.jobs x).function == some f && (s.jobs x).worker.isSome) hj
    have := h.running f hf'
    simp only [jobFreeCounters_functions, jobRunningOf] at this ⊢
    split_ifs at e ⊢ <;> simp_all
    omega
  · exact h.function x (List.mem_of_mem_erase hx)

theorem CounterInv.create {ok : Bool} {s₁ : Server} {j fn : Nat} {unique : Bytes}
    {data : Option Bytes} {priority : GearmanJobPriority} {key : UInt32}
    (h : CounterInv s fs) (hfn : fn ∈ fs) (hj : j ∉ s.live)
    (hc : gearmanServerJobCreate s ok = some (s₁, some j)) :
    CounterInv (jobAddFields s₁ j fn unique data priority key) fs := by
  obtain ⟨e, hjob, hpay⟩ := gearmanServerJobCreate_some hc
  set s₂ := jobAddFields s₁ j fn unique data priority key with hs₂
  have hx : ∀ x, x ≠ j → (s₂.jobs x).function = (s.jobs x).function ∧
      (s₂.jobs x).worker = (s.jobs x).worker := fun x hxj => by
    have e' := congrArg (fun job : ServerJob => (job.function, job.worker)) (hpay x hxj)
    simp only [hs₂, jobAddFields_eq, Function.update_noteq hxj]
    exact Prod.mk.inj e'
  have hjf : (s₂.jobs j).function = some fn ∧ (s₂.jobs j).worker = none := by
    simp [hs₂, jobAddFields_eq, hjob]
  have hl : s₂.live = j :: s.live := by rw [hs₂, jobAddFields_eq, e]; rfl
  have hf₂ : ∀ f, (s₂.functions f).jobTotal =
      (if f = fn then (s.functions f).jobTotal + 1 else (s.functions f).jobTotal) ∧
      (s₂.functions f).jobRunning = (s.functions f).jobRunning := fun f => by
    rw [hs₂, jobAddFields_eq, e]
    by_cases hf : f = fn
    · subst hf; simp
    · simp [hf]
  refine ⟨fun f hf => ?_, fun f hf => ?_, fun x hx' => ?_⟩
  · have hc : (s.live.countP fun x => (s₂.jobs x).function == some f) = jobTotalOf s f :=
      countP_of_not_mem hj fun x hxj => by rw [(hx x hxj).1]
    simp only [jobTotalOf, hl, List.countP_cons, hc, hjf.1, (hf₂ f).1, h.total f hf]
    by_cases hff : f = fn
    · subst hff; simp
    · simp [hff, Ne.symm hff]
  · have hc : (s.live.countP fun x => (s₂.jobs x).function == some f &&
        (s₂.jobs x).worker.isSome) = jobRunningOf s f :=
      countP_of_not_mem hj fun x hxj => by rw [(hx x hxj).1, (hx x hxj).2]
    simp [jobRunningOf, hl, List.countP_cons, hc, hjf.2, (hf₂ f).2, h.running f hf]
  · rw [hl] at hx'
    rcases List.mem_cons.1 hx' with rfl | hx'
    · exact ⟨fn, hfn, hjf.1⟩
    · rw [(hx x fun e' => hj (e' ▸ hx')).1]
      exact h.function x hx'

theorem CounterInv.setWorker {j : Nat} (h : CounterInv s fs) (hnd : s.live.Nodup)
    (hj : j ∈ s.live) (hl : s'.live = s.live) (hx : ∀ x, x ≠ j → s'.jobs x = s.jobs x)
    (hjf : (s'.jobs j).function = (s.jobs j).function)
    (htotal : ∀ f ∈ fs, (s'.functions f).jobTotal = (s.functions f).jobTotal)
    (hrun : ∀ f ∈ fs, (s'.functions f).jobRunning +
        (if (s.jobs j).function == some f && (s.jobs j).worker.isSome then 1 else 0) =
      (s.functions f).jobRunning +
        (if (s.jobs j).function == some f && (s'.jobs j).worker.isSome then 1 else 0)) :
    CounterInv s' fs := by
  have hfun : ∀ x, (s'.jobs x).function = (s.jobs x).function := fun x => by
    by_cases hxj : x = j
    · rw [hxj, hjf]
    · rw [hx x hxj]
  refine ⟨fun f hf => ?_, fun f hf => ?_, fun x hx' => ?_⟩
  · simp only [htotal f hf, h.total f hf, jobTotalOf, hl, hfun]
  · have e : (s.live.countP fun x => (s'.jobs x).function == some f && (s'.jobs x).worker.isSome) +
        (if (s.jobs j).function == some f && (s.jobs j).worker.isSome then 1 else 0) =
        (s.live.countP fun x => (s.jobs x).function == some f && (s.jobs x).worker.isSome) +
        (if (s'.jobs j).function == some f && (s'.jobs j).worker.isSome then 1 else 0) :=
      countP_update (fun x => (s.jobs x).function == some f && (s.jobs x).worker.isSome)
        (fun x => (s'.jobs x).function == some f && (s'.jobs x).worker.isSome) hnd hj
        fun x hxj => by simp only [hx x hxj]
    have := hrun f hf
    rw [h.running f hf] at this
    rw [hjf] at e
    simp only [jobRunningOf, hl] at e this ⊢
    omega
  · rw [hfun]
    exact h.function x (hl ▸ hx')

theorem CounterInv.release {j fn : Nat} (h : CounterInv s fs) (hnd : s.live.Nodup)
    (hj : j ∈ s.live) (hfn : (s.jobs j).function = some fn) :
    CounterInv (jobQueueRelease s j fn) fs := by
  have hpos : (s.jobs j).worker.isSome → 0 < (s.functions fn).jobRunning := fun hw => by
    obtain ⟨f, hf, hf'⟩ := h.function j hj
    obtain rfl : f = fn := Option.some.inj (hf'.symm.trans hfn)
    rw [h.running f hf, jobRunningOf, List.countP_pos_iff]
    exact ⟨j, hj, by simp [hfn, hw]⟩
  refine h.setWorker hnd hj (by rw [jobQueueRelease_eq]) (fun x hxj => by
    simp [jobQueueRelease_eq, Function.update_noteq hxj]) (by simp [jobQueueRelease_eq])
    (fun f _ => ?_) (fun f _ => ?_)
  · rw [jobQueueRelease_eq]
    split_ifs
    · by_cases hf : f = fn
      · subst hf; simp
      · simp [hf]
    · rfl
  · rw [jobQueueRelease_eq, hfn]
    by_cases hw : (s.jobs j).worker.isSome
    · by_cases hf : f = fn
      · subst hf
        have := hpos hw
        simp [hw]
        omega
      · simp [hw, hf, Ne.symm hf]
    · simp [hw]

theorem CounterInv.takeHead {j w : Nat} {p : GearmanJobPriority} (h : CounterInv s fs)
    (hnd : s.live.Nodup) (hj : j ∈ s.live) (hw : (s.jobs j).worker = none)
    (ht : jobTakeHead s w j p = some s') : CounterInv s' fs := by
  obtain ⟨fn, hfn, rfl⟩ := jobTakeHead_eq_some.1 ht
  refine h.setWorker hnd hj rfl (fun x hxj => Function.update_noteq hxj _ _) (by simp)
    (fun f _ => ?_) (fun f _ => ?_)
  · by_cases hf : f = fn
    · subst hf; simp
    · simp [hf]
  · rw [hfn, hw]
    by_cases hf : f = fn
    · subst hf; simp
    · simp [hf, Ne.symm hf]

theorem CounterInv.append {j fn : Nat} (h : CounterInv s fs)
    (ha : jobQueueAppend s j fn = some s') : CounterInv s' fs := by
  obtain ⟨s₁, hcase, rfl⟩ := jobQueueAppend_some ha
  have hf : ∀ f, (s₁.functions f).jobTotal = (s.functions f).jobTotal ∧
      (s₁.functions f).jobRunning = (s.functions f).jobRunning ∧ s₁.live = s.live ∧
      ∀ x, (s₁.jobs x).function = (s.jobs x).function ∧ (s₁.jobs x).worker = (s.jobs x).worker := by
    intro f
    rcases hcase with ⟨-, rfl⟩ | ⟨_, e, -, -, rfl⟩
    · refine ⟨?_, ?_, rfl, fun x => ⟨rfl, rfl⟩⟩ <;>
      · by_cases hf : f = fn
        · subst hf; simp
        · simp [hf]
    · refine ⟨rfl, rfl, rfl, fun x => ?_⟩
      by_cases hx : x = e
      · subst hx; simp
      · simp [hx]
  refine h.congr (hf 0).2.2.1 (fun x => (hf 0).2.2.2 x) fun f _ => ?_
  by_cases hff : f = fn
  · subst hff; simp [(hf f).1, (hf f).2.1]
  · simp [hff, (hf f).1, (hf f).2.1]

end

end GearmanServer
