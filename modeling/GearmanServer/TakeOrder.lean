import GearmanServer.Invariant.Reachable
import Mathlib.Algebra.Order.BigOperators.Group.List
import Mathlib.Algebra.Order.Ring.Nat

/-!
# The order in which `gearman_server_job_take` hands out jobs

`dispatchOrder` lists the jobs a worker connection can be handed as the loops of
`gearman_server_job_take` meet them: by the position of the function's entry on
`con->worker_list`, then by priority from `GEARMAN_JOB_PRIORITY_HIGH`, then by position in the
list of that priority. From every state of the invariant, take reaps the jobs marked
`GEARMAN_SERVER_JOB_IGNORE` at the front of that order (`reapedJobs`), returns the first job
that is not marked (`nextJob`) and runs it on the entry it was met on, and leaves every other
job on its list in its place (`takenQueues`). Within as many turns as there are live jobs,
entries and waiting clients it returns, so it never runs the priority loop to
`GEARMAN_JOB_PRIORITY_MAX`.
-/

namespace GearmanServer

def entryJobs (s : Server) (qs : Nat → GearmanJobPriority → List Nat) (w : Nat) :
    List (Nat × Nat) :=
  GearmanJobPriority.all.flatMap fun p => (qs (s.workers w).function p).map (Prod.mk w)

def dispatchOrder (s : Server) (qs : Nat → GearmanJobPriority → List Nat) (ws : List Nat) :
    List (Nat × Nat) :=
  ws.flatMap (entryJobs s qs)

def nextJob (s : Server) (qs : Nat → GearmanJobPriority → List Nat) (ws : List Nat) :
    Option (Nat × Nat) :=
  (dispatchOrder s qs ws).find? fun e => !(s.jobs e.2).ignore

def reapedJobs (s : Server) (qs : Nat → GearmanJobPriority → List Nat) (ws : List Nat) :
    List Nat :=
  ((dispatchOrder s qs ws).takeWhile fun e => (s.jobs e.2).ignore).map Prod.snd

def takenQueues (s : Server) (qs : Nat → GearmanJobPriority → List Nat) (ws : List Nat) :
    Nat → GearmanJobPriority → List Nat :=
  fun f p => (qs f p).filter fun x =>
    x ∉ reapedJobs s qs ws ∧ (nextJob s qs ws).map Prod.snd ≠ some x

def waitingClients (s : Server) : Nat :=
  (s.live.map fun x => (s.jobs x).clientCount).sum

/-! ## Searches over concatenations -/

section Lists
variable {α β : Type}

theorem findSome?_of_find? {g : α → Option β} {p : α → Bool} {l : List α} {a : α}
    (hp : ∀ x ∈ l, p x = (g x).isSome) (h : l.find? p = some a) : l.findSome? g = g a := by
  induction l with
  | nil => cases h
  | cons x l ih =>
    have hx := hp x (List.mem_cons_self _ _)
    by_cases px : p x
    · rw [List.find?_cons_of_pos _ px] at h
      cases h
      obtain ⟨b, hb⟩ := Option.isSome_iff_exists.1 (hx ▸ px)
      simp [List.findSome?_cons, hb]
    · rw [List.find?_cons_of_neg _ px] at h
      have hg : g x = none := Option.not_isSome_iff_eq_none.1 (hx ▸ px)
      rw [List.findSome?_cons, hg]
      exact ih (fun y hy => hp y (List.mem_cons_of_mem _ hy)) h

theorem find?_filter_of_skip {p q : α → Bool} {l : List α} (h : ∀ a ∈ l, q a = false → p a = false) :
    (l.filter q).find? p = l.find? p := by
  rw [List.find?_filter]
  refine find?_congr_of_mem fun a ha => ?_
  cases hq : q a with
  | false => simp [h a ha hq]
  | true => simp

theorem takeWhile_filter_of_skip {p q : α → Bool} {l : List α}
    (h : ∀ a ∈ l, q a = false → p a = true) :
    (l.filter q).takeWhile p = (l.takeWhile p).filter q := by
  rw [List.takeWhile_filter, takeWhile_congr_of_mem fun a ha => ?_]
  cases hq : q a with
  | false => simp [h a ha hq]
  | true => simp

end Lists

/-! ## The order under the invariant -/

section
variable {s s' : Server} {fs : List Nat} {qs qs' : Nat → GearmanJobPriority → List Nat}
  {ws : List Nat}

theorem entryJobs_length (s : Server) (qs : Nat → GearmanJobPriority → List Nat) (w : Nat) :
    (entryJobs s qs w).length = (qs (s.workers w).function .high).length +
      (qs (s.workers w).function .normal).length + (qs (s.workers w).function .low).length := by
  simp [entryJobs, GearmanJobPriority.all, Nat.add_assoc]

theorem dispatchOrder_congr (hw : ∀ w, (s'.workers w).function = (s.workers w).function)
    (qs : Nat → GearmanJobPriority → List Nat) (ws : List Nat) :
    dispatchOrder s' qs ws = dispatchOrder s qs ws := by
  unfold dispatchOrder entryJobs
  simp only [hw]

theorem dispatchOrder_filter (s : Server) (qs : Nat → GearmanJobPriority → List Nat)
    (ws : List Nat) (j : Nat) :
    dispatchOrder s (fun f p => (qs f p).filter (· ≠ j)) ws =
      (dispatchOrder s qs ws).filter fun e => e.2 ≠ j := by
  simp only [dispatchOrder, entryJobs, List.filter_flatMap, List.filter_map]
  rfl

theorem QueueInv.jobCount_ne_zero (h : QueueInv s fs qs) {w : Nat}
    (hf : (s.workers w).function ∈ fs) :
    ((s.functions (s.workers w).function).jobCount != 0) = (entryJobs s qs w).head?.isSome := by
  rw [h.count _ hf, ← entryJobs_length]
  cases entryJobs s qs w <;> simp

theorem QueueInv.firstPriority_eq (h : QueueInv s fs qs) {f : Nat} (hf : f ∈ fs) :
    firstPriority (s.functions f) = GearmanJobPriority.all.find? fun p => (qs f p).head?.isSome :=
  find?_congr_of_mem fun p _ => by rw [chain_head (h.chain f hf p)]

theorem QueueInv.firstPriority_of_jobCount (h : QueueInv s fs qs) {f : Nat} (hf : f ∈ fs)
    (hc : (s.functions f).jobCount ≠ 0) :
    ∃ p j, firstPriority (s.functions f) = some p ∧ (s.functions f).jobList p = some j := by
  rcases hp : firstPriority (s.functions f) with _ | p
  · rw [h.firstPriority_eq hf, List.find?_eq_none] at hp
    have he : ∀ p, qs f p = [] := fun p => by
      simpa using hp p (GearmanJobPriority.mem_all p)
    rw [h.count f hf, he, he, he] at hc
    exact absurd rfl hc
  · obtain ⟨j, hj⟩ := Option.isSome_iff_exists.1 (firstPriority_some hp)
    exact ⟨p, j, rfl, hj⟩

theorem QueueInv.dispatchOrder_nil (h : QueueInv s fs qs) (hm : ∀ w ∈ ws, (s.workers w).function ∈ fs)
    (hw : ws.find? (fun w => (s.functions (s.workers w).function).jobCount != 0) = none) :
    dispatchOrder s qs ws = [] := by
  refine List.flatMap_eq_nil_iff.2 fun w hw' => ?_
  have hn := List.find?_eq_none.1 hw w hw'
  rw [h.jobCount_ne_zero (hm w hw')] at hn
  simpa using hn

theorem QueueInv.dispatchOrder_head (h : QueueInv s fs qs)
    (hm : ∀ w ∈ ws, (s.workers w).function ∈ fs) {w j : Nat} {p : GearmanJobPriority}
    (hw : ws.find? (fun w => (s.functions (s.workers w).function).jobCount != 0) = some w)
    (hp : firstPriority (s.functions (s.workers w).function) = some p)
    (hj : (s.functions (s.workers w).function).jobList p = some j) :
    (dispatchOrder s qs ws).head? = some (w, j) := by
  have hf := hm w (List.mem_of_find?_eq_some hw)
  rw [h.firstPriority_eq hf] at hp
  have hentry : (entryJobs s qs w).head? = some (w, j) := by
    rw [entryJobs, List.head?_flatMap,
      findSome?_of_find? (fun p _ => by rw [List.head?_map, Option.isSome_map']) hp,
      List.head?_map, ← chain_head (h.chain _ hf p), hj]
    rfl
  rw [dispatchOrder, List.head?_flatMap,
    findSome?_of_find? (fun w' hw' => h.jobCount_ne_zero (hm w' hw')) hw, hentry]

theorem QueueInv.dequeue_eq_filter (h : QueueInv s fs qs) {f j : Nat} {p : GearmanJobPriority}
    {rest : List Nat} (hf : f ∈ fs) (hq : qs f p = j :: rest) (f' : Nat) (hf' : f' ∈ fs)
    (p' : GearmanJobPriority) : dequeue qs f p f' p' = (qs f' p').filter (· ≠ j) := by
  have hj := h.mem f hf p j (hq ▸ List.mem_cons_self _ _)
  have hn : (j :: rest).Nodup := hq ▸ h.nodup hf p
  unfold dequeue
  split_ifs with e
  · obtain ⟨rfl, rfl⟩ := e
    rw [hq, List.tail_cons, List.filter_cons_of_neg (by simp), eq_comm, List.filter_eq_self]
    exact fun x hx => by simpa using ne_of_mem_of_not_mem hx (List.nodup_cons.1 hn).1
  · refine (List.filter_eq_self.2 fun x hx => ?_).symm
    have hx' := h.mem f' hf' p' x hx
    simp only [ne_eq, decide_eq_true_eq]
    rintro rfl
    exact e ⟨Option.some.inj (hx'.2.1.symm.trans hj.2.1), hx'.2.2.1.symm.trans hj.2.2.1⟩

theorem QueueInv.congr_lists (h : QueueInv s fs qs) (e : ∀ f ∈ fs, ∀ p, qs' f p = qs f p) :
    QueueInv s fs qs' := by
  refine ⟨fun f hf p => ?_, fun f hf p => ?_, fun f hf p => ?_, fun f hf => ?_,
    fun f hf p => ?_, fun f hf p => ?_⟩
  all_goals simp only [e f hf]
  exacts [h.chain f hf p, h.last f hf p, h.mem f hf p, h.count f hf, h.sorted f hf p,
    h.stamp f hf p]

theorem BrokerInv.congr_lists (h : BrokerInv s fs qs) (e : ∀ f ∈ fs, ∀ p, qs' f p = qs f p) :
    BrokerInv s fs qs' :=
  ⟨h.functions, h.workers, h.hash, h.pool, h.counters, h.queues.congr_lists e, h.clients⟩

end

section
variable {s s₁ s₂ : Server} {fs : List Nat} {qs : Nat → GearmanJobPriority → List Nat}

theorem BrokerInv.reap {fuel w f j : Nat} {p : GearmanJobPriority} (h : BrokerInv s fs qs)
    (hf : f ∈ fs) (hj : (s.functions f).jobList p = some j) (h₁ : jobTakeHead s w j p = some s₁)
    (h₂ : gearmanServerJobFree fuel s₁ j = some s₂) :
    BrokerInv s₂ fs (fun f p => (qs f p).filter (· ≠ j)) ∧ SkeletonEq s s₂ ∧
      s₂.live = s.live.erase j ∧ s₂.queuedAt = s.queuedAt ∧
      ∀ x, x ≠ j → (s₂.jobs x).payload = (s.jobs x).payload := by
  obtain ⟨rest, hq, -, -⟩ := h.listHead hf hj
  obtain ⟨hB, -, hjl₁, -, hu⟩ := h.takeHead hf hj h₁
  obtain ⟨-, -, hl₁, hqa₁, -, hjobs₁, -⟩ := jobTakeHead_effect h₁
  obtain ⟨fn, -, hd⟩ := dispatchEq_free h₂
  exact ⟨(hB.free hjl₁ hu h₂).congr_lists fun f' hf' p' =>
      (h.queues.dequeue_eq_filter hf hq f' hf' p').symm,
    (frame_jobTakeHead h₁).1.trans (skeletonEq_jobFree h₂), by rw [jobFree_live h₂, hl₁],
    hd.queuedAt.trans hqa₁, fun x hx => by rw [hB.clients.free_payload hjl₁ h₂ hx, hjobs₁ x hx]⟩

theorem SkeletonEq.conChain {con : Nat} {ws : List Nat} (hk : SkeletonEq s s₂)
    (hws : Chain (fun w => (s.workers w).conNext) (s.cons con).workerList ws) :
    Chain (fun w => (s₂.workers w).conNext) (s₂.cons con).workerList ws := by
  rw [hk.cons con]
  exact seg_congr hws fun w _ => by have e := congrArg ServerWorker.conNext (hk.workers w); exact e

theorem SkeletonEq.workerFunction (hk : SkeletonEq s s₂) (w : Nat) :
    (s₂.workers w).function = (s.workers w).function := by
  have e := congrArg ServerWorker.function (hk.workers w)
  exact e

theorem waitingClients_le {j : Nat} (hnd : s.live.Nodup) (hl : s₂.live = s.live.erase j)
    (hp : ∀ x, x ≠ j → (s₂.jobs x).payload = (s.jobs x).payload) :
    waitingClients s₂ ≤ waitingClients s := by
  have e : (s.live.erase j).map (fun x => (s₂.jobs x).clientCount) =
      (s.live.erase j).map fun x => (s.jobs x).clientCount :=
    List.map_congr_left fun x hx => by
      have e := congrArg ServerJob.clientCount (hp x (hnd.mem_erase_iff.1 hx).1)
      exact e
  unfold waitingClients
  rw [hl, e]
  exact ((List.erase_sublist j s.live).map _).sum_le_sum fun _ _ => Nat.zero_le _

theorem BrokerInv.reap_returns {w f j : Nat} {p : GearmanJobPriority} (fuel : Nat)
    (h : BrokerInv s fs qs) (hf : f ∈ fs) (hj : (s.functions f).jobList p = some j)
    (h₁ : jobTakeHead s w j p = some s₁) (hfuel : waitingClients s ≤ fuel) :
    ∃ s₂, gearmanServerJobFree fuel s₁ j = some s₂ ∧ s₂.live.length + 1 = s.live.length ∧
      waitingClients s₂ ≤ waitingClients s := by
  obtain ⟨rest, hq, hjl, -⟩ := h.listHead hf hj
  have hfj := (h.queues.mem _ hf p j (hq ▸ List.mem_cons_self _ _)).2.1
  obtain ⟨hB, -, hjl₁, -, -⟩ := h.takeHead hf hj h₁
  obtain ⟨-, -, -, -, -, -, hjob₁, -⟩ := jobTakeHead_effect h₁
  have hcl : (s₁.jobs j).clientCount ≤ fuel := by
    rw [hjob₁]
    exact (List.le_sum_of_mem (List.mem_map_of_mem (fun x => (s.jobs x).clientCount) hjl)).trans
      hfuel
  obtain ⟨s₂, h₂⟩ := hB.clients.free_returns hjl₁ (by rw [hjob₁]; exact hfj) hcl
  obtain ⟨-, -, hl₂, -, hpay⟩ := h.reap hf hj h₁ h₂
  refine ⟨s₂, h₂, ?_, waitingClients_le h.hash.nodup hl₂ hpay⟩
  rw [hl₂, List.length_erase_of_mem hjl]
  have := List.length_pos_of_mem hjl
  omega

end

/-! ## The whole call -/

section
variable {s s' : Server} {fs : List Nat} {qs : Nat → GearmanJobPriority → List Nat}
  {ws : List Nat} {con : Nat}

theorem dispatch_reap {s₂ : Server} {w j : Nat} {rest : List (Nat × Nat)}
    (ho : dispatchOrder s qs ws = (w, j) :: rest) (hi : (s.jobs j).ignore = true)
    (hw : ∀ w, (s₂.workers w).function = (s.workers w).function)
    (hign : ∀ x, x ≠ j → (s₂.jobs x).ignore = (s.jobs x).ignore) :
    nextJob s₂ (fun f p => (qs f p).filter (· ≠ j)) ws = nextJob s qs ws ∧
      (∀ x, x ∉ reapedJobs s qs ws ↔
        x ≠ j ∧ x ∉ reapedJobs s₂ (fun f p => (qs f p).filter (· ≠ j)) ws) ∧
      takenQueues s₂ (fun f p => (qs f p).filter (· ≠ j)) ws = takenQueues s qs ws := by
  have ho₂ := (dispatchOrder_congr hw (fun f p => (qs f p).filter (· ≠ j)) ws).trans
    (dispatchOrder_filter s qs ws j)
  have hign' : ∀ e ∈ (dispatchOrder s qs ws).filter (fun e => e.2 ≠ j),
      (s₂.jobs e.2).ignore = (s.jobs e.2).ignore := fun e he =>
    hign e.2 (by simpa using (List.mem_filter.1 he).2)
  have hskip : ∀ e ∈ dispatchOrder s qs ws, decide (e.2 ≠ j) = false → (s.jobs e.2).ignore := by
    intro e _ he
    simp only [ne_eq, decide_eq_false_iff_not, not_not] at he
    rw [he, hi]
  have hn : nextJob s₂ (fun f p => (qs f p).filter (· ≠ j)) ws = nextJob s qs ws := by
    rw [nextJob, nextJob, ho₂, find?_congr_of_mem fun e he => by rw [hign' e he],
      find?_filter_of_skip fun e he hj' => by simp [hskip e he hj']]
  have hrp : reapedJobs s₂ (fun f p => (qs f p).filter (· ≠ j)) ws =
      (reapedJobs s qs ws).filter (· ≠ j) := by
    rw [reapedJobs, reapedJobs, ho₂, takeWhile_congr_of_mem fun e he => by rw [hign' e he],
      takeWhile_filter_of_skip hskip, List.filter_map]
    rfl
  have hjr : j ∈ reapedJobs s qs ws := by
    rw [reapedJobs, ho, List.takeWhile_cons_of_pos (by simpa using hi)]
    exact List.mem_cons_self _ _
  have hmem : ∀ x, x ∉ reapedJobs s qs ws ↔
      x ≠ j ∧ x ∉ reapedJobs s₂ (fun f p => (qs f p).filter (· ≠ j)) ws := fun x => by
    rw [hrp]
    by_cases e : x = j <;> simp [e, hjr]
  refine ⟨hn, hmem, funext fun f => funext fun p' => ?_⟩
  simp only [takenQueues, hn, List.filter_filter]
  exact List.filter_congr fun x _ => by simp only [hmem x]; by_cases e : x = j <;> simp [e]

theorem BrokerInv.take_order {fuel : Nat} {r : Option Nat} (h : BrokerInv s fs qs)
    (hws : Chain (fun w => (s.workers w).conNext) (s.cons con).workerList ws)
    (hm : ∀ w ∈ ws, (s.workers w).function ∈ fs)
    (ht : gearmanServerJobTake fuel s con = some (s', r)) :
    r = (nextJob s qs ws).map Prod.snd ∧
      s'.live = s.live.filter (fun x => x ∉ reapedJobs s qs ws) ∧
      BrokerInv s' fs (takenQueues s qs ws) ∧
      ∀ w j, nextJob s qs ws = some (w, j) →
        (s'.jobs j).worker = some w ∧ (s'.workers w).job = some j ∧
        ∀ f, (s.jobs j).function = some f →
          ∀ x ∈ takenQueues s qs ws f (s.jobs j).priority, s.queuedAt j < s.queuedAt x := by
  induction fuel generalizing s qs with
  | zero => simp [gearmanServerJobTake] at ht
  | succ fuel ih =>
    obtain ⟨found, hfound, ⟨rfl, rfl, rfl⟩ | ⟨w, p, j, s₁, rfl, hp, hj, h₁, hcase⟩⟩ :=
      gearmanServerJobTake_succ ht
    · -- no entry's function has a job: the order is empty
      have ho := h.queues.dispatchOrder_nil hm (chainFind_eq hws hfound).symm
      have hq : takenQueues s' qs ws = qs := by
        funext f p
        simp [takenQueues, nextJob, reapedJobs, ho]
      refine ⟨by simp [nextJob, ho], by simp [reapedJobs, ho], by rw [hq]; exact h,
        fun w j e => by simp [nextJob, ho] at e⟩
    have hw := (chainFind_eq hws hfound).symm
    have hf := hm w (List.mem_of_find?_eq_some hw)
    obtain ⟨rest, ho⟩ := List.head?_eq_some_iff.1 (h.queues.dispatchOrder_head hm hw hp hj)
    obtain ⟨restq, hq, -, -⟩ := h.listHead hf hj
    obtain ⟨-, -, hl₁, -, -, -, hjob₁, -⟩ := jobTakeHead_effect h₁
    have hI : (s₁.jobs j).ignore = (s.jobs j).ignore := by rw [hjob₁]
    rcases hcase with ⟨hi, rfl, rfl⟩ | ⟨hi, s₂, h₂, ht⟩
    · -- the head is handed out
      rw [hI] at hi
      have hn : nextJob s qs ws = some (w, j) := by
        rw [nextJob, ho, List.find?_cons_of_pos _ (by simp [hi])]
      have hr : reapedJobs s qs ws = [] := by
        rw [reapedJobs, ho, List.takeWhile_cons_of_neg (by simp [hi])]
        rfl
      have htq : ∀ f ∈ fs, ∀ p', takenQueues s qs ws f p' = dequeue qs (s.workers w).function p f p' :=
        fun f hf' p' => by
          rw [h.queues.dequeue_eq_filter hf hq f hf' p', takenQueues, hn, hr]
          exact List.filter_congr fun x _ => by simp [eq_comm]
      obtain ⟨hB, -, -, hjw, -⟩ := h.takeHead hf hj h₁
      refine ⟨by rw [hn]; rfl, by simp [hr, hl₁], hB.congr_lists htq, fun w' j' e => ?_⟩
      rw [hn] at e
      cases e
      have hmj := h.queues.mem _ hf p j (hq ▸ List.mem_cons_self _ _)
      refine ⟨hjw, by obtain ⟨fn, -, e⟩ := jobTakeHead_eq_some.1 h₁; rw [e]; simp, fun f hf' x hx => ?_⟩
      rw [hmj.2.1] at hf'
      cases hf'
      rw [hmj.2.2.1, htq _ hf p, dequeue, if_pos ⟨rfl, rfl⟩, hq, List.tail_cons] at hx
      have hs := h.queues.sorted _ hf p
      rw [hq] at hs
      exact List.rel_of_pairwise_cons hs hx
    · -- the head is reaped, and the call goes on from the state the free leaves
      rw [hI] at hi
      obtain ⟨hB₂, hk, hl₂, hqa₂, hpay⟩ := h.reap hf hj h₁ h₂
      obtain ⟨hr', hl', hB', hw'⟩ := ih hB₂ (hk.conChain hws)
        (fun w hw => by rw [hk.workerFunction]; exact hm w hw) ht
      obtain ⟨hn, hmem, htq⟩ := dispatch_reap ho hi hk.workerFunction fun x hx =>
        (congrArg ServerJob.ignore (hpay x hx) :)
      refine ⟨hr'.trans (by rw [hn]), ?_, htq ▸ hB', fun w' j' e => ?_⟩
      · rw [hl', hl₂, h.hash.nodup.erase_eq_filter, List.filter_filter]
        exact List.filter_congr fun x _ => by simp only [hmem x]; by_cases e : x = j <;> simp [e]
      · have hj' : j' ≠ j := by
          rintro rfl
          have := List.find?_some e
          simp [hi] at this
        obtain ⟨hw₁, hw₂, hfifo⟩ := hw' w' j' (hn.trans e)
        have hp' := hpay j' hj'
        have e₁ : (s₂.jobs j').function = (s.jobs j').function := (congrArg ServerJob.function hp' :)
        have e₂ : (s₂.jobs j').priority = (s.jobs j').priority := (congrArg ServerJob.priority hp' :)
        refine ⟨hw₁, hw₂, fun f hf' x hx => ?_⟩
        rw [← hqa₂]
        exact hfifo f (e₁.trans hf') x (by rw [htq, e₂]; exact hx)

theorem BrokerInv.take_returns {fuel : Nat} (h : BrokerInv s fs qs)
    (hws : Chain (fun w => (s.workers w).conNext) (s.cons con).workerList ws)
    (hm : ∀ w ∈ ws, (s.workers w).function ∈ fs)
    (hfuel : ws.length + s.live.length + waitingClients s < fuel) :
    ∃ r, gearmanServerJobTake fuel s con = some r := by
  induction fuel generalizing s qs with
  | zero => omega
  | succ fuel ih =>
    have hc : chainFind (fun w => (s.workers w).conNext)
        (fun w => (s.functions (s.workers w).function).jobCount != 0) fuel (s.cons con).workerList =
        some (ws.find? fun w => (s.functions (s.workers w).function).jobCount != 0) :=
      chainFind_of_le hws (by omega)
    rcases hw : ws.find? (fun w => (s.functions (s.workers w).function).jobCount != 0) with _ | w
    · exact ⟨(s, none), by simp [gearmanServerJobTake, hc, hw]⟩
    have hf := hm w (List.mem_of_find?_eq_some hw)
    obtain ⟨p, j, hp, hj⟩ := h.queues.firstPriority_of_jobCount hf (by simpa using List.find?_some hw)
    obtain ⟨rest, hq, hjl, -⟩ := h.listHead hf hj
    have hfj := (h.queues.mem _ hf p j (hq ▸ List.mem_cons_self _ _)).2.1
    obtain ⟨s₁, h₁⟩ : ∃ s₁, jobTakeHead s w j p = some s₁ := ⟨_, jobTakeHead_eq_some.2 ⟨_, hfj, rfl⟩⟩
    cases hi : (s₁.jobs j).ignore with
    | false => exact ⟨(s₁, some j), by simp [gearmanServerJobTake, hc, hw, hp, hj, h₁, hi]⟩
    | true =>
      obtain ⟨s₂, h₂, hlen, hwc⟩ := h.reap_returns fuel hf hj h₁ (by omega)
      obtain ⟨hB₂, hk, -, -, -⟩ := h.reap hf hj h₁ h₂
      obtain ⟨r, hr⟩ := ih hB₂ (hk.conChain hws)
        (fun w hw => by rw [hk.workerFunction]; exact hm w hw) (by omega)
      exact ⟨r, by simp [gearmanServerJobTake, hc, hw, hp, hj, h₁, hi, h₂, hr]⟩

end

section
variable {s : Server} {fs : List Nat} {qs : Nat → GearmanJobPriority → List Nat}

theorem job_take_hands_out_first_unmarked_job (h : BrokerInv s fs qs) (con : Nat) :
    ∃ ws, Chain (fun w => (s.workers w).conNext) (s.cons con).workerList ws ∧
      (∀ fuel, ws.length + s.live.length + waitingClients s < fuel →
        ∃ r, gearmanServerJobTake fuel s con = some r) ∧
      ∀ fuel s' r, gearmanServerJobTake fuel s con = some (s', r) →
        r = (nextJob s qs ws).map Prod.snd ∧
        s'.live = s.live.filter (fun x => x ∉ reapedJobs s qs ws) ∧
        BrokerInv s' fs (takenQueues s qs ws) ∧
        ∀ w j, nextJob s qs ws = some (w, j) →
          (s'.jobs j).worker = some w ∧ (s'.workers w).job = some j ∧
          ∀ f, (s.jobs j).function = some f →
            ∀ x ∈ takenQueues s qs ws f (s.jobs j).priority, s.queuedAt j < s.queuedAt x := by
  obtain ⟨ws, hws, hm⟩ := h.workers.con con
  exact ⟨ws, hws, fun _ hf => h.take_returns hws hm hf, fun _ _ _ ht => h.take_order hws hm ht⟩

end

set_option maxRecDepth 4000 in
theorem job_take_reaps_abandoned_job :
    ∃ s fs qs ws s', Reachable (fun _ _ _ => True) s ∧ BrokerInv s fs qs ∧
      Chain (fun w => (s.workers w).conNext) (s.cons 0).workerList ws ∧
      gearmanServerJobTake 4 s 0 = some (s', some 1) ∧ (nextJob s qs ws).map Prod.snd = some 1 ∧
      s'.live = [1] := by
  have hr₁ : Reachable (fun _ _ _ => True) _ := Reachable.add (.init initial_brokerWithWorker)
    (rfl : gearmanServerJobAdd 1 brokerWithWorker [102] [97] none .normal (some 0) {} = _)
    (fun _ e => by cases e; rfl) trivial
  have hr₃ := Reachable.add (Reachable.clientFree 0 hr₁ trivial)
    (rfl : gearmanServerJobAdd 1 _ [102] [98] none .normal none {} = _) (fun _ e => by cases e) trivial
  obtain ⟨fs, qs, h⟩ := hr₃.brokerInv
  obtain ⟨ws, hws, -, hspec⟩ := job_take_hands_out_first_unmarked_job h 0
  exact ⟨_, fs, qs, ws, _, hr₃, h, hws, rfl, (hspec 4 _ _ rfl).1.symm, rfl⟩

end GearmanServer
