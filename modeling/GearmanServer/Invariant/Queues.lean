import GearmanServer.Invariant.Counters

/-!
# The job lists of the functions

`QueueInv s fs qs`: for every function `f` of `fs` and priority `p`, the `function_next` chain
from `job_list[p]` is the list `qs f p`; `job_end[p]` is its last job; its jobs are live,
of `f` and `p`, and held by no worker; `job_count` is the sum of the lengths; and the jobs
are in the order of the stamps of their latest `gearman_server_job_queue`. `QueueComplete`
adds that every live job no worker holds is on its list.

`gearman_server_job_queue` appends a job (`enqueue`), `gearman_server_job_take` removes the
head (`dequeue`); the other writes leave the lists alone.
-/

namespace GearmanServer

structure QueueInv (s : Server) (fs : List Nat) (qs : Nat → GearmanJobPriority → List Nat) :
    Prop where
  chain : ∀ f ∈ fs, ∀ p, Chain (fun x => (s.jobs x).functionNext) ((s.functions f).jobList p)
    (qs f p)
  last : ∀ f ∈ fs, ∀ p, (s.functions f).jobEnd p = lastOr none (qs f p)
  mem : ∀ f ∈ fs, ∀ p, ∀ x ∈ qs f p, x ∈ s.live ∧ (s.jobs x).function = some f ∧
    (s.jobs x).priority = p ∧ (s.jobs x).worker = none
  count : ∀ f ∈ fs, (s.functions f).jobCount =
    (qs f .high).length + (qs f .normal).length + (qs f .low).length
  sorted : ∀ f ∈ fs, ∀ p, (qs f p).Pairwise fun a b => s.queuedAt a < s.queuedAt b
  stamp : ∀ f ∈ fs, ∀ p, ∀ x ∈ qs f p, s.queuedAt x < s.queueClock

def Unqueued (fs : List Nat) (qs : Nat → GearmanJobPriority → List Nat) (j : Nat) : Prop :=
  ∀ f ∈ fs, ∀ p, j ∉ qs f p

def QueueComplete (s : Server) (qs : Nat → GearmanJobPriority → List Nat) (hs : List Nat) :
    Prop :=
  ∀ x ∈ hs, (s.jobs x).worker = none →
    ∃ f, (s.jobs x).function = some f ∧ x ∈ qs f (s.jobs x).priority

def enqueue (qs : Nat → GearmanJobPriority → List Nat) (fn : Nat) (p : GearmanJobPriority)
    (j : Nat) : Nat → GearmanJobPriority → List Nat :=
  fun f p' => if f = fn ∧ p' = p then qs f p' ++ [j] else qs f p'

theorem mem_enqueue {qs : Nat → GearmanJobPriority → List Nat} {fn f j x : Nat}
    {p p' : GearmanJobPriority} :
    x ∈ enqueue qs fn p j f p' ↔ x ∈ qs f p' ∨ f = fn ∧ p' = p ∧ x = j := by
  unfold enqueue
  split_ifs with h
  · obtain ⟨rfl, rfl⟩ := h
    simp
  · exact ⟨.inl, (·.resolve_right fun ⟨a, b, _⟩ => h ⟨a, b⟩)⟩

def dequeue (qs : Nat → GearmanJobPriority → List Nat) (fn : Nat) (p : GearmanJobPriority) :
    Nat → GearmanJobPriority → List Nat :=
  fun f p' => if f = fn ∧ p' = p then (qs f p').tail else qs f p'

theorem dequeue_sublist (qs : Nat → GearmanJobPriority → List Nat) (fn : Nat)
    (p : GearmanJobPriority) (f : Nat) (p' : GearmanJobPriority) :
    (dequeue qs fn p f p').Sublist (qs f p') := by
  unfold dequeue
  split_ifs
  · exact List.tail_sublist _
  · exact List.Sublist.refl _

section
variable {s s' : Server} {fs : List Nat} {qs : Nat → GearmanJobPriority → List Nat}
  {hs : List Nat} {j : Nat}

theorem QueueInv.nodup (h : QueueInv s fs qs) {f : Nat} (hf : f ∈ fs) (p : GearmanJobPriority) :
    (qs f p).Nodup :=
  (h.sorted f hf p).imp fun hab => (Nat.ne_of_lt hab) ∘ congrArg s.queuedAt

theorem QueueInv.unqueued (h : QueueInv s fs qs) (hw : (s.jobs j).worker.isSome) :
    Unqueued fs qs j := fun f hf p hj => by
  rw [(h.mem f hf p j hj).2.2.2] at hw
  cases hw

theorem QueueInv.congr (h : QueueInv s fs qs)
    (hf : ∀ f ∈ fs, (s'.functions f).jobList = (s.functions f).jobList ∧
      (s'.functions f).jobEnd = (s.functions f).jobEnd ∧
      (s'.functions f).jobCount = (s.functions f).jobCount)
    (hx : ∀ f ∈ fs, ∀ p, ∀ x ∈ qs f p, x ∈ s'.live ∧ (s'.jobs x).dispatch = (s.jobs x).dispatch ∧
      s'.queuedAt x = s.queuedAt x)
    (hc : s.queueClock ≤ s'.queueClock) : QueueInv s' fs qs := by
  have hd : ∀ f ∈ fs, ∀ p, ∀ x ∈ qs f p, _ := fun f hf p x hx' => Prod.mk.inj_iff.1 (hx f hf p x hx').2.1
  simp only [Prod.mk.injEq] at hd
  refine ⟨fun f hf' p => ?_, fun f hf' p => ?_, fun f hf' p x hx' => ?_, fun f hf' => ?_,
    fun f hf' p => ?_, fun f hf' p x hx' => ?_⟩
  · rw [(hf f hf').1]
    exact seg_congr (h.chain f hf' p) fun x hx' => (hd f hf' p x hx').2.2.2
  · rw [(hf f hf').2.1, h.last f hf' p]
  · obtain ⟨-, h₁, h₂, h₃⟩ := h.mem f hf' p x hx'
    obtain ⟨e₁, e₂, e₃, -⟩ := hd f hf' p x hx'
    exact ⟨(hx f hf' p x hx').1, e₁ ▸ h₁, e₂ ▸ h₂, e₃ ▸ h₃⟩
  · rw [(hf f hf').2.2, h.count f hf']
  · refine (h.sorted f hf' p).imp_of_mem fun ha hb hab => ?_
    rwa [(hx f hf' p _ ha).2.2, (hx f hf' p _ hb).2.2]
  · rw [(hx f hf' p x hx').2.2]
    exact (h.stamp f hf' p x hx').trans_le hc

theorem QueueInv.dispatchEq (h : QueueInv s fs qs) (hd : DispatchEq s s') : QueueInv s' fs qs :=
  h.congr (fun f _ => by rw [hd.functions]; exact ⟨rfl, rfl, rfl⟩)
    (fun f hf p x hx => ⟨hd.live ▸ (h.mem f hf p x hx).1, hd.jobs x, by rw [hd.queuedAt]⟩)
    hd.queueClock.ge

theorem QueueComplete.mono (h : QueueComplete s qs hs) {hs' : List Nat}
    (hsub : ∀ x ∈ hs', x ∈ hs) : QueueComplete s qs hs' :=
  fun x hx => h x (hsub x hx)

theorem QueueComplete.congr (h : QueueComplete s qs hs)
    (hx : ∀ x ∈ hs, (s'.jobs x).dispatch = (s.jobs x).dispatch) : QueueComplete s' qs hs := by
  intro x hx' hw
  have e := Prod.mk.inj_iff.1 (hx x hx')
  simp only [Prod.mk.injEq] at e
  rw [e.1, e.2.1]
  exact h x hx' (e.2.2.1 ▸ hw)

theorem QueueInv.free {fuel : Nat} (h : QueueInv s fs qs) (hj : Unqueued fs qs j)
    (hf : gearmanServerJobFree fuel s j = some s') : QueueInv s' fs qs := by
  obtain ⟨fn, -, hd⟩ := dispatchEq_free hf
  have h₁ : QueueInv { s with live := s.live.erase j, functions := (jobFreeCounters s j fn).functions }
      fs qs :=
    h.congr (fun f _ => by
        by_cases e : f = fn
        · subst e; simp [jobFreeCounters_functions]
        · simp [jobFreeCounters_functions, e])
      (fun f hf' p x hx => ⟨(List.mem_erase_of_ne fun (e : x = j) => hj f hf' p (e ▸ hx)).2
        (h.mem f hf' p x hx).1, rfl, rfl⟩) le_rfl
  exact h₁.dispatchEq hd

theorem QueueComplete.free {fuel : Nat} (h : QueueComplete s qs hs)
    (hf : gearmanServerJobFree fuel s j = some s') : QueueComplete s' qs hs := by
  obtain ⟨fn, -, hd⟩ := dispatchEq_free hf
  exact QueueComplete.congr h fun x _ => hd.jobs x

theorem QueueInv.create {ok : Bool} {s₁ : Server} {fn : Nat} {unique : Bytes}
    {data : Option Bytes} {priority : GearmanJobPriority} {key : UInt32}
    (h : QueueInv s fs qs) (hj : j ∉ s.live) (hc : gearmanServerJobCreate s ok = some (s₁, some j)) :
    QueueInv (jobAddFields s₁ j fn unique data priority key) fs qs ∧ Unqueued fs qs j := by
  obtain ⟨e, -, hpay⟩ := gearmanServerJobCreate_some hc
  have hne : ∀ f ∈ fs, ∀ p, ∀ x ∈ qs f p, x ≠ j := fun f hf p x hx e' =>
    hj (e' ▸ (h.mem f hf p x hx).1)
  refine ⟨h.congr (fun f _ => ?_) (fun f hf p x hx => ⟨?_, ?_, ?_⟩) ?_, fun f hf p hx => hne f hf p j hx rfl⟩
  · rw [jobAddFields_eq, Server.modifyFunction_functions, e]
    split_ifs with e'
    · subst e'; exact ⟨rfl, rfl, rfl⟩
    · exact ⟨rfl, rfl, rfl⟩
  · rw [jobAddFields_eq, e]
    exact List.mem_cons_of_mem _ (h.mem f hf p x hx).1
  · rw [jobAddFields_eq]
    simp only [Function.update_noteq (hne f hf p x hx)]
    have e' := congrArg ServerJob.dispatch (hpay x (hne f hf p x hx))
    exact e'
  · rw [jobAddFields_eq, e]
    rfl
  · rw [jobAddFields_eq, e]
    rfl

theorem QueueComplete.create {ok : Bool} {s₁ : Server} {fn : Nat} {unique : Bytes}
    {data : Option Bytes} {priority : GearmanJobPriority} {key : UInt32}
    (h : QueueComplete s qs s.live) (hj : j ∉ s.live)
    (hc : gearmanServerJobCreate s ok = some (s₁, some j)) :
    QueueComplete (jobAddFields s₁ j fn unique data priority key) qs s.live := by
  obtain ⟨-, -, hpay⟩ := gearmanServerJobCreate_some hc
  refine h.congr fun x hx => ?_
  have hxj : x ≠ j := fun e => hj (e ▸ hx)
  rw [jobAddFields_eq]
  simp only [Function.update_noteq hxj]
  have e' := congrArg ServerJob.dispatch (hpay x hxj)
  exact e'

theorem QueueInv.release {fn : Nat} (h : QueueInv s fs qs) (hj : Unqueued fs qs j) :
    QueueInv (jobQueueRelease s j fn) fs qs := by
  have e := jobQueueRelease_eq s j fn
  refine h.congr (fun f _ => ?_) (fun f hf p x hx => ⟨e ▸ (h.mem f hf p x hx).1, ?_, by rw [e]⟩)
    (by rw [e])
  · rw [jobQueueRelease_eq]
    split_ifs
    · by_cases e : f = fn
      · subst e; simp
      · simp [e]
    · exact ⟨rfl, rfl, rfl⟩
  · have hxj : x ≠ j := fun e => hj f hf p (e ▸ hx)
    rw [jobQueueRelease_eq]
    simp only [Function.update_noteq hxj]

theorem QueueComplete.release {fn : Nat} (h : QueueComplete s qs hs) (hj : j ∉ hs) :
    QueueComplete (jobQueueRelease s j fn) qs hs := by
  refine h.congr fun x hx => ?_
  have hxj : x ≠ j := fun e => hj (e ▸ hx)
  rw [jobQueueRelease_eq]
  simp only [Function.update_noteq hxj]

theorem dispatchEq_jobQueueNoops {packetAdd : Nat → GearmanReturn} {fuel k : Nat}
    {w : Option Nat} {r : GearmanReturn} (h : jobQueueNoops packetAdd fuel s k w = some (s', r)) :
    DispatchEq s s' := by
  rw [jobQueueNoops_eq h]
  exact ⟨rfl, fun _ => rfl, rfl, rfl, rfl⟩

theorem jobQueueAppend_effect {fn : Nat} (h : QueueInv s fs qs) (hfn : fn ∈ fs)
    (ha : jobQueueAppend s j fn = some s') :
    s'.live = s.live ∧ s'.queuedAt = Function.update s.queuedAt j s.queueClock ∧
    s'.queueClock = s.queueClock + 1 ∧
    (∀ x, (s'.jobs x).function = (s.jobs x).function ∧
      (s'.jobs x).priority = (s.jobs x).priority ∧ (s'.jobs x).worker = (s.jobs x).worker ∧
      (s'.jobs x).functionNext = if lastOr none (qs fn (s.jobs j).priority) = some x then some j
        else (s.jobs x).functionNext) ∧
    ∀ f p, (s'.functions f).jobList p =
        (if f = fn ∧ p = (s.jobs j).priority ∧ qs fn p = [] then some j
          else (s.functions f).jobList p) ∧
      (s'.functions f).jobEnd p =
        (if f = fn ∧ p = (s.jobs j).priority then some j else (s.functions f).jobEnd p) ∧
      (s'.functions f).jobCount =
        (if f = fn then (s.functions f).jobCount + 1 else (s.functions f).jobCount) := by
  obtain ⟨s₁, hcase, rfl⟩ := jobQueueAppend_some ha
  have hend := h.last fn hfn (s.jobs j).priority
  refine ⟨?_, rfl, rfl, fun x => ?_, fun f p => ?_⟩
  · rcases hcase with ⟨-, rfl⟩ | ⟨_, _, -, -, rfl⟩ <;> rfl
  · rcases hcase with ⟨hl, rfl⟩ | ⟨x₀, e, hl, he, rfl⟩
    · have : qs fn (s.jobs j).priority = [] :=
        chain_none_iff.1 (hl ▸ h.chain fn hfn (s.jobs j).priority)
      simp [this]
    · rw [← hend, he]
      by_cases hx : x = e
      · subst hx; simp
      · simp [hx, Ne.symm hx]
  · rcases hcase with ⟨hl, rfl⟩ | ⟨x₀, e, hl, he, rfl⟩
    · have : qs fn (s.jobs j).priority = [] :=
        chain_none_iff.1 (hl ▸ h.chain fn hfn (s.jobs j).priority)
      by_cases hf : f = fn
      · subst hf
        by_cases hp : p = (s.jobs j).priority
        · subst hp; simp [this]
        · simp [hp]
      · simp [hf]
    · have : qs fn (s.jobs j).priority ≠ [] := fun h' => by
        rw [h', lastOr_nil] at hend
        rw [hend] at he
        cases he
      by_cases hf : f = fn
      · subst hf
        by_cases hp : p = (s.jobs j).priority
        · subst hp; simp [this]
        · simp [hp]
      · simp [hf]

theorem QueueInv.append {fn : Nat} (h : QueueInv s fs qs) (hfn : fn ∈ fs)
    (hjf : (s.jobs j).function = some fn) (hl : j ∈ s.live) (hw : (s.jobs j).worker = none)
    (hn : (s.jobs j).functionNext = none) (hj : Unqueued fs qs j)
    (ha : jobQueueAppend s j fn = some s') :
    QueueInv s' fs (enqueue qs fn (s.jobs j).priority j) := by
  obtain ⟨hlive, hqa, hclock, hjobs, hfun⟩ := jobQueueAppend_effect h hfn ha
  set p := (s.jobs j).priority
  -- the jobs of the other lists are not the tail of list `p` of `fn`
  have hother : ∀ f ∈ fs, ∀ p', ¬(f = fn ∧ p' = p) → ∀ x ∈ qs f p',
      lastOr none (qs fn p) ≠ some x := fun f hf p' hne x hx hlast => by
    rcases lastOr_cases none (qs fn p) with h' | ⟨y, hy, h'⟩
    · rw [h'] at hlast; cases hlast
    · rw [h', Option.some.injEq] at hlast
      subst hlast
      obtain ⟨-, h₁, h₂, -⟩ := h.mem f hf p' y hx
      obtain ⟨-, h₁', h₂', -⟩ := h.mem fn hfn p y hy
      exact hne ⟨Option.some.inj (h₁.symm.trans h₁'), h₂.symm.trans h₂'⟩
  have hqa' : ∀ f ∈ fs, ∀ p', ∀ x ∈ qs f p', s'.queuedAt x = s.queuedAt x := fun f hf p' x hx => by
    rw [hqa, Function.update_noteq fun (e : x = j) => hj f hf p' (e ▸ hx)]
  refine ⟨fun f hf p' => ?_, fun f hf p' => ?_, fun f hf p' x hx => ?_, fun f hf => ?_,
    fun f hf p' => ?_, fun f hf p' x hx => ?_⟩
  · -- the chain
    simp only [enqueue]
    by_cases hfp : f = fn ∧ p' = p
    · obtain ⟨rfl, rfl⟩ := hfp
      have hjl : lastOr none (qs f p) ≠ some j := lastOr_ne_of_not_mem (by simp) (hj f hf p)
      rw [if_pos ⟨rfl, rfl⟩, (hfun f p).1]
      simp only [true_and]
      refine chain_snoc (h.chain f hf p) (h.nodup hf p) (fun x _ hx => ?_) (fun e he => ?_) ?_
      · rw [(hjobs x).2.2.2, if_neg hx]
      · rw [(hjobs e).2.2.2, if_pos he]
      · rw [(hjobs j).2.2.2, if_neg hjl, hn]
    · rw [if_neg hfp, (hfun f p').1, if_neg fun h' => hfp ⟨h'.1, h'.2.1⟩]
      exact seg_congr (h.chain f hf p') fun x hx => by
        rw [(hjobs x).2.2.2, if_neg (hother f hf p' hfp x hx)]
  · rw [(hfun f p').2.1]
    simp only [enqueue]
    split_ifs
    · rw [lastOr_concat]
    · exact h.last f hf p'
  · have hold : ∀ x ∈ qs f p', x ∈ s'.live ∧ (s'.jobs x).function = some f ∧
        (s'.jobs x).priority = p' ∧ (s'.jobs x).worker = none := fun x hx => by
      rw [hlive, (hjobs x).1, (hjobs x).2.1, (hjobs x).2.2.1]
      exact h.mem f hf p' x hx
    rcases mem_enqueue.1 hx with hx | ⟨rfl, rfl, rfl⟩
    · exact hold x hx
    · rw [hlive, (hjobs x).1, (hjobs x).2.1, (hjobs x).2.2.1]
      exact ⟨hl, hjf, rfl, hw⟩
  · rw [(hfun f p).2.2, h.count f hf]
    simp only [enqueue]
    by_cases hf' : f = fn
    · subst hf'
      cases hp : p <;> simp <;> omega
    · simp [hf']
  · simp only [enqueue]
    split_ifs with hfp
    · obtain ⟨rfl, rfl⟩ := hfp
      refine List.pairwise_append.2 ⟨(h.sorted f hf p).imp_of_mem fun ha hb hab => ?_,
        List.pairwise_singleton _ _, fun a ha b hb => ?_⟩
      · rwa [hqa' f hf p _ ha, hqa' f hf p _ hb]
      · rw [List.mem_singleton.1 hb, hqa' f hf p a ha, hqa, Function.update_same]
        exact h.stamp f hf p a ha
    · exact (h.sorted f hf p').imp_of_mem fun ha hb hab => by
        rwa [hqa' f hf p' _ ha, hqa' f hf p' _ hb]
  · rw [hclock]
    rcases mem_enqueue.1 hx with hx | ⟨rfl, rfl, rfl⟩
    · rw [hqa' f hf p' x hx]
      exact Nat.lt_succ_of_lt (h.stamp f hf p' x hx)
    · rw [hqa, Function.update_same]
      exact Nat.lt_succ_self _

theorem QueueComplete.append {fn : Nat} (h : QueueComplete s qs hs) (hfn : fn ∈ fs)
    (hq : QueueInv s fs qs) (hjf : (s.jobs j).function = some fn)
    (ha : jobQueueAppend s j fn = some s') :
    QueueComplete s' (enqueue qs fn (s.jobs j).priority j) (j :: hs) := by
  obtain ⟨-, -, -, hjobs, -⟩ := jobQueueAppend_effect hq hfn ha
  intro x hx hw
  rw [(hjobs x).1, (hjobs x).2.1]
  rcases List.mem_cons.1 hx with rfl | hx
  · exact ⟨fn, hjf, mem_enqueue.2 (.inr ⟨rfl, rfl, rfl⟩)⟩
  · obtain ⟨f, hf, hm⟩ := h x hx ((hjobs x).2.2.1 ▸ hw)
    exact ⟨f, hf, mem_enqueue.2 (.inl hm)⟩

theorem jobTakeHead_effect {w : Nat} {p : GearmanJobPriority}
    (ht : jobTakeHead s w j p = some s') : ∃ fn, (s.jobs j).function = some fn ∧
    s'.live = s.live ∧ s'.queuedAt = s.queuedAt ∧ s'.queueClock = s.queueClock ∧
    (∀ x, x ≠ j → s'.jobs x = s.jobs x) ∧ s'.jobs j = { s.jobs j with worker := some w } ∧
    ∀ f p', (s'.functions f).jobList p' =
        (if f = fn ∧ p' = p then (s.jobs j).functionNext else (s.functions f).jobList p') ∧
      (s'.functions f).jobEnd p' =
        (if f = fn ∧ p' = p ∧ (s.functions f).jobEnd p = some j then none
          else (s.functions f).jobEnd p') ∧
      (s'.functions f).jobCount =
        (if f = fn then (s.functions f).jobCount - 1 else (s.functions f).jobCount) := by
  obtain ⟨fn, hfn, rfl⟩ := jobTakeHead_eq_some.1 ht
  refine ⟨fn, hfn, rfl, rfl, rfl, fun x hx => Function.update_noteq hx _ _, by simp,
    fun f p' => ?_⟩
  by_cases hf : f = fn
  · subst hf
    refine ⟨by simp [Function.update_apply], ?_, by simp⟩
    by_cases hp : p' = p
    · subst hp; split_ifs <;> simp_all
    · simp only [hp, false_and, and_false, if_false]
      split_ifs <;> simp [Function.update_noteq hp]
  · simp [hf]

theorem QueueInv.takeHead {w f : Nat} {p : GearmanJobPriority} (h : QueueInv s fs qs)
    (hf : f ∈ fs) (hj : (s.functions f).jobList p = some j) (ht : jobTakeHead s w j p = some s') :
    QueueInv s' fs (dequeue qs f p) := by
  obtain ⟨fn, hfn, hlive, hqa, hclock, hjobs, -, hfun⟩ := jobTakeHead_effect ht
  obtain ⟨rest, hq⟩ : ∃ rest, qs f p = j :: rest := by
    have := h.chain f hf p
    rw [hj] at this
    cases e : qs f p with
    | nil => rw [e] at this; cases this
    | cons y ys => rw [e] at this; exact ⟨ys, by cases this.1; rfl⟩
  have hjm := h.mem f hf p j (hq ▸ List.mem_cons_self _ _)
  obtain rfl : fn = f := Option.some.inj (hfn.symm.trans hjm.2.1)
  have hnd := h.nodup hf p
  rw [hq] at hnd
  have hjr : j ∉ rest := (List.nodup_cons.1 hnd).1
  have hsub : ∀ f' p', ∀ x ∈ dequeue qs fn p f' p', x ∈ qs f' p' := fun f' p' _ hx =>
    (dequeue_sublist qs fn p f' p').subset hx
  have hne : ∀ f' ∈ fs, ∀ p', ∀ x ∈ dequeue qs fn p f' p', x ≠ j := by
    intro f' hf' p' x hx e
    subst e
    have hm := h.mem f' hf' p' x (hsub f' p' x hx)
    obtain rfl : f' = fn := Option.some.inj (hm.2.1.symm.trans hjm.2.1)
    obtain rfl : p' = p := hm.2.2.1.symm.trans hjm.2.2.1
    simp only [dequeue, and_self, if_true, hq, List.tail_cons] at hx
    exact hjr hx
  have hchain := h.chain fn hf p
  rw [hq, hj] at hchain
  refine ⟨fun f' hf' p' => ?_, fun f' hf' p' => ?_, fun f' hf' p' x hx => ?_, fun f' hf' => ?_,
    fun f' hf' p' => ?_, fun f' hf' p' x hx => ?_⟩
  · have hc : Chain (fun x => (s.jobs x).functionNext) ((s'.functions f').jobList p')
        (dequeue qs fn p f' p') := by
      rw [(hfun f' p').1]
      by_cases hfp : f' = fn ∧ p' = p
      · obtain ⟨rfl, rfl⟩ := hfp
        simpa [dequeue, hq] using hchain.2
      · simpa [dequeue, hfp] using h.chain f' hf' p'
    exact seg_congr hc fun x hx => by rw [hjobs x (hne f' hf' p' x hx)]
  · have hl := h.last f' hf' p'
    rw [(hfun f' p').2.1]
    by_cases hfp : f' = fn ∧ p' = p
    · obtain ⟨rfl, rfl⟩ := hfp
      rw [hq] at hl
      simp only [dequeue, and_self, true_and, if_true, hq, List.tail_cons]
      rcases eq_or_ne rest [] with rfl | hr
      · simp [hl]
      · have e := lastOr_of_ne_nil hr (some j) none
        have hne' : lastOr none rest ≠ some j := lastOr_ne_of_not_mem (by simp) hjr
        rw [lastOr_cons, e] at hl
        rw [hl, if_neg hne']
    · simp only [dequeue, if_neg hfp, hl]
      split_ifs with h'
      · exact absurd ⟨h'.1, h'.2.1⟩ hfp
      · rfl
  · rw [hlive, hjobs x (hne f' hf' p' x hx)]
    exact h.mem f' hf' p' x (hsub f' p' x hx)
  · have hc := h.count f' hf'
    rw [(hfun f' .high).2.2]
    simp only [dequeue]
    by_cases hf'' : f' = fn
    · subst hf''
      rw [if_pos rfl, hc]
      cases p <;> simp [hq] <;> omega
    · simp [hf'', hc]
  · rw [hqa]
    exact (h.sorted f' hf' p').sublist (dequeue_sublist qs fn p f' p')
  · rw [hqa, hclock]
    exact h.stamp f' hf' p' x (hsub f' p' x hx)

theorem QueueComplete.takeHead {w f : Nat} {p : GearmanJobPriority} (h : QueueComplete s qs hs)
    (hq : QueueInv s fs qs) (hf : f ∈ fs) (hj : (s.functions f).jobList p = some j)
    (ht : jobTakeHead s w j p = some s') : QueueComplete s' (dequeue qs f p) hs := by
  obtain ⟨fn, -, -, -, -, hjobs, hjw, -⟩ := jobTakeHead_effect ht
  intro x hx hw
  have hxj : x ≠ j := fun e => by subst e; rw [hjw] at hw; cases hw
  rw [hjobs x hxj] at hw ⊢
  obtain ⟨f', hf', hm⟩ := h x hx hw
  refine ⟨f', hf', ?_⟩
  simp only [dequeue]
  split_ifs with hfp
  · obtain ⟨rfl, e⟩ := hfp
    have hc := hq.chain f' hf p
    rw [hj] at hc
    rw [e] at hm ⊢
    cases hl : qs f' p with
    | nil => rw [hl] at hc; cases hc
    | cons y ys =>
      rw [hl] at hc hm
      obtain rfl := Option.some.inj hc.1
      exact (List.mem_cons.1 hm).resolve_left hxj
  · exact hm

end

end GearmanServer
