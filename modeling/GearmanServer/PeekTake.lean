import GearmanServer.TakeOrder

/-!
# `gearman_server_job_peek` against `gearman_server_job_take`

Peek clears IGNORE on a marked head, takes it with a nested `gearman_server_job_take` and frees
it; take frees it with the mark on. The two calls reap the same jobs and agree on the job they
return, and a take after a peek leaves what a take alone leaves, but for the IGNORE bit of the
records of the reaped jobs: `Server.withIgnore` replaces the IGNORE bits of a state, and the
states agree once the bits of the jobs that are no longer live are replaced.
-/

namespace GearmanServer

def Server.withIgnore (s : Server) (g : Nat → Bool) : Server :=
  { s with jobs := fun x => { s.jobs x with ignore := g x } }

section
variable {s s' : Server} {g : Nat → Bool}

@[simp] theorem withIgnore_live : (s.withIgnore g).live = s.live := rfl

@[simp] theorem withIgnore_workers : (s.withIgnore g).workers = s.workers := rfl

@[simp] theorem withIgnore_functions : (s.withIgnore g).functions = s.functions := rfl

@[simp] theorem withIgnore_cons : (s.withIgnore g).cons = s.cons := rfl

@[simp] theorem withIgnore_jobs (x : Nat) :
    (s.withIgnore g).jobs x = { s.jobs x with ignore := g x } := rfl

theorem withIgnore_self (s : Server) : s.withIgnore (fun x => (s.jobs x).ignore) = s := rfl

@[simp] theorem withIgnore_withIgnore (g' : Nat → Bool) :
    (s.withIgnore g).withIgnore g' = s.withIgnore g' := rfl

theorem modifyJob_ignore_eq (j : Nat) (b : Bool) :
    s.modifyJob j (fun job => { job with ignore := b }) =
      s.withIgnore (Function.update (fun x => (s.jobs x).ignore) j b) := by
  simp only [Server.modifyJob, Server.withIgnore]
  congr 1
  funext x
  by_cases h : x = j
  · subst h; simp
  · simp [Function.update_noteq h]

theorem jobTakeHead_withIgnore (w j : Nat) (p : GearmanJobPriority) :
    jobTakeHead (s.withIgnore g) w j p = (jobTakeHead s w j p).map (·.withIgnore g) := by
  rcases hf : (s.jobs j).function with _ | fn
  · simp [jobTakeHead, hf]
  · simp only [jobTakeHead, withIgnore_jobs, hf, Option.bind_eq_bind, Option.some_bind,
      Option.pure_def, Option.map_some', Option.some.injEq, Server.modifyJob, Server.modifyFunction,
      Server.modifyWorker, Server.withIgnore]
    split_ifs <;>
    · congr 1
      funext x
      by_cases h : x = j
      · subst h; simp
      · simp [Function.update_noteq h]

/-! ## `gearman_server_job_free` and the IGNORE bits -/

theorem jobFreeCounters_withIgnore (j fn : Nat) :
    jobFreeCounters (s.withIgnore g) j fn = (jobFreeCounters s j fn).withIgnore g := by
  rcases hd : (s.jobs j).data with _ | d <;> by_cases hw : (s.jobs j).worker.isSome <;>
    simp [jobFreeCounters, Server.modifyFunction, Server.withIgnore, hd, hw]

theorem clientFree_withIgnore (s : Server) (g : Nat → Bool) (c : Nat) :
    ∃ g', gearmanServerClientFree (s.withIgnore g) c = (gearmanServerClientFree s c).withIgnore g' ∧
      ∀ x, (s.clients c).job ≠ some x → g' x = g x := by
  unfold gearmanServerClientFree
  rcases hc : (s.clients c).job with _ | j
  · exact ⟨g, by simp [Server.withIgnore, hc], fun _ _ => rfl⟩
  · refine ⟨Function.update g j (g j || (clientJobLinks.listDel s.clients (s.jobs j).clientList
      (s.jobs j).clientCount c).2.1.isNone), ?_, fun x hx => Function.update_noteq (fun e : x = j => hx (by rw [e])) _ _⟩
    simp only [Server.withIgnore, hc, Server.modifyJob]
    congr 1
    funext x
    by_cases h : x = j
    · subst h; simp
    · simp [Function.update_noteq h]

theorem jobLinks_hashDel_withIgnore {n : Nat} (heap : Nat → ServerJob) (g : Nat → Bool)
    (hash : Fin n → Option Nat) (count : Nat) (key : Fin n) (obj : Nat) :
    jobLinks.hashDel (fun x => { heap x with ignore := g x }) hash count key obj =
      (fun x => { (jobLinks.hashDel heap hash count key obj).1 x with ignore := g x },
        (jobLinks.hashDel heap hash count key obj).2) :=
  jobLinks.hashDel_map (fun x job => { job with ignore := g x }) (fun _ _ _ => rfl)
    (fun _ _ _ => rfl) (fun _ _ => rfl) (fun _ _ => rfl) heap hash count key obj

theorem uniqueLinks_hashDel_withIgnore {n : Nat} (heap : Nat → ServerJob) (g : Nat → Bool)
    (hash : Fin n → Option Nat) (count : Nat) (key : Fin n) (obj : Nat) :
    uniqueLinks.hashDel (fun x => { heap x with ignore := g x }) hash count key obj =
      (fun x => { (uniqueLinks.hashDel heap hash count key obj).1 x with ignore := g x },
        (uniqueLinks.hashDel heap hash count key obj).2) :=
  uniqueLinks.hashDel_map (fun x job => { job with ignore := g x }) (fun _ _ _ => rfl)
    (fun _ _ _ => rfl) (fun _ _ => rfl) (fun _ _ => rfl) heap hash count key obj

theorem jobFreeUnhash_withIgnore (j : Nat) :
    jobFreeUnhash (s.withIgnore g) j = (jobFreeUnhash s j).withIgnore g := by
  have hw : ∀ w, (clearWorkerJob (s.withIgnore g) w) = (clearWorkerJob s w).withIgnore g :=
    fun w => by cases w <;> rfl
  have hj : ∀ w, (clearWorkerJob s w).jobs = s.jobs := fun w => by cases w <;> rfl
  simp only [jobFreeUnhash, withIgnore_jobs, hw]
  simp only [Server.withIgnore, hj, uniqueLinks_hashDel_withIgnore, jobLinks_hashDel_withIgnore]

theorem jobFreeRelease_withIgnore (j : Nat) :
    jobFreeRelease (s.withIgnore g) j = (jobFreeRelease s j).withIgnore g := by
  have hl := jobLinks.listAdd_map (fun x job => { job with ignore := g x }) (fun _ _ _ => rfl)
    (fun _ _ _ => rfl) s.jobs s.freeJobList s.freeJobCount j
  unfold jobFreeRelease
  split_ifs <;> simp_all [Server.withIgnore]

theorem ClientsInv.clientLoop_withIgnore {fuel j : Nat} (h : ClientsInv s) (hj : j ∈ s.live)
    (hf : freeClientList fuel s j = some s') (g : Nat → Bool) :
    ∃ g', freeClientList fuel (s.withIgnore g) j = some (s'.withIgnore g') ∧
      ∀ x, x ≠ j → g' x = g x := by
  induction fuel, s, j using freeClientList.induct generalizing g with
  | case1 fuel s j hl =>
    unfold freeClientList at hf ⊢
    simp only [hl, Option.some.injEq] at hf
    subst hf
    exact ⟨g, by simp [hl], fun _ _ => rfl⟩
  | case2 s j c hl =>
    unfold freeClientList at hf
    simp [hl] at hf
  | case3 s j c fuel hl ih =>
    unfold freeClientList at hf ⊢
    simp only [hl] at hf
    obtain ⟨cs, hd, hm⟩ := h.list j hj
    have hcj : (s.clients c).job = some j := (hm c).1 (mem_of_chain_eq_some hd.chain hl)
    obtain ⟨g₁, e₁, h₁⟩ := clientFree_withIgnore s g c
    obtain ⟨g₂, e₂, h₂⟩ := ih (h.clientFree c) (by rwa [clientFree_live]) hf g₁
    refine ⟨g₂, ?_, fun x hx => (h₂ x hx).trans (h₁ x (by rw [hcj]; exact fun e => hx (Option.some.inj e).symm))⟩
    simp only [withIgnore_jobs, hl]
    rw [e₁]
    exact e₂

theorem ClientsInv.free_withIgnore {fuel j : Nat} (h : ClientsInv s) (hj : j ∈ s.live)
    (hf : gearmanServerJobFree fuel s j = some s') (g : Nat → Bool) :
    ∃ g', gearmanServerJobFree fuel (s.withIgnore g) j = some (s'.withIgnore g') ∧
      ∀ x, x ≠ j → g' x = g x := by
  obtain ⟨fn, s₁, hfn, h₁, rfl⟩ := gearmanServerJobFree_eq_some.1 hf
  have e := jobFreeCounters_eq s j fn
  have h₀ : ClientsInv (jobFreeCounters s j fn) := by
    rw [e]
    exact h.congr rfl rfl fun _ _ => ⟨rfl, rfl⟩
  obtain ⟨g', e₁, hg'⟩ := h₀.clientLoop_withIgnore (by rw [e]; exact hj) h₁ g
  refine ⟨g', gearmanServerJobFree_eq_some.2 ⟨fn, s₁.withIgnore g', hfn, ?_, ?_⟩, hg'⟩
  · rw [jobFreeCounters_withIgnore]
    exact e₁
  · rw [jobFreeUnhash_withIgnore, jobFreeRelease_withIgnore]

/-! ## Fuel -/

theorem freeClientList_det {fuel fuel' j : Nat} {s₁ s₂ : Server}
    (h₁ : freeClientList fuel s j = some s₁) (h₂ : freeClientList fuel' s j = some s₂) :
    s₁ = s₂ := by
  induction fuel, s, j using freeClientList.induct generalizing fuel' with
  | case1 fuel s j hl =>
    unfold freeClientList at h₁ h₂
    simp only [hl, Option.some.injEq] at h₁ h₂
    rw [← h₁, ← h₂]
  | case2 s j c hl =>
    unfold freeClientList at h₁
    simp [hl] at h₁
  | case3 s j c fuel hl ih =>
    unfold freeClientList at h₁ h₂
    simp only [hl] at h₁ h₂
    cases fuel' with
    | zero => simp at h₂
    | succ fuel' => exact ih h₁ h₂

theorem gearmanServerJobFree_det {fuel fuel' j : Nat} {s₁ s₂ : Server}
    (h₁ : gearmanServerJobFree fuel s j = some s₁) (h₂ : gearmanServerJobFree fuel' s j = some s₂) :
    s₁ = s₂ := by
  obtain ⟨fn, t₁, hfn, e₁, rfl⟩ := gearmanServerJobFree_eq_some.1 h₁
  obtain ⟨fn', t₂, hfn', e₂, rfl⟩ := gearmanServerJobFree_eq_some.1 h₂
  obtain rfl : fn = fn' := Option.some.inj (hfn.symm.trans hfn')
  rw [freeClientList_det e₁ e₂]

theorem gearmanServerJobTake_det {fuel fuel' con : Nat} {a b : Server × Option Nat}
    (ha : gearmanServerJobTake fuel s con = some a) (hb : gearmanServerJobTake fuel' s con = some b) :
    a = b := by
  induction fuel generalizing fuel' s a b with
  | zero => simp [gearmanServerJobTake] at ha
  | succ fuel ih =>
    cases fuel' with
    | zero => simp [gearmanServerJobTake] at hb
    | succ fuel' =>
      obtain ⟨sa, ra⟩ := a
      obtain ⟨sb, rb⟩ := b
      obtain ⟨f₁, c₁, h₁⟩ := gearmanServerJobTake_succ ha
      obtain ⟨f₂, c₂, h₂⟩ := gearmanServerJobTake_succ hb
      obtain rfl := chainFind_det c₁ c₂
      rcases h₁ with ⟨rfl, rfl, rfl⟩ | ⟨w, p, j, s₁, rfl, hp, hj, ht, hc⟩
      · rcases h₂ with ⟨-, rfl, rfl⟩ | ⟨_, _, _, _, e, -⟩
        · rfl
        · cases e
      · rcases h₂ with ⟨e, -⟩ | ⟨w', p', j', s₁', e, hp', hj', ht', hc'⟩
        · cases e
        cases e
        obtain rfl : p' = p := Option.some.inj (hp'.symm.trans hp)
        obtain rfl : j' = j := Option.some.inj (hj'.symm.trans hj)
        obtain rfl : s₁' = s₁ := Option.some.inj (ht'.symm.trans ht)
        rcases hc with ⟨hi, rfl, rfl⟩ | ⟨hi, s₂, hf, hr⟩ <;>
          rcases hc' with ⟨hi', rfl, rfl⟩ | ⟨hi', s₂', hf', hr'⟩
        · rfl
        · rw [hi] at hi'; cases hi'
        · rw [hi] at hi'; cases hi'
        · obtain rfl := gearmanServerJobFree_det hf hf'
          exact ih hr hr'

end

/-! ## Peek -/

section
variable {s s' : Server} {fs : List Nat} {qs : Nat → GearmanJobPriority → List Nat}
  {ws : List Nat} {con : Nat}

theorem QueueInv.peekPred_eq (h : QueueInv s fs qs) {w : Nat} (hf : (s.workers w).function ∈ fs) :
    ((s.functions (s.workers w).function).jobCount != 0 &&
      (firstPriority (s.functions (s.workers w).function)).isSome) =
    ((s.functions (s.workers w).function).jobCount != 0) := by
  by_cases hc : (s.functions (s.workers w).function).jobCount = 0
  · simp [hc]
  · obtain ⟨p, j, hp, -⟩ := h.firstPriority_of_jobCount hf hc
    simp [hc, hp]

theorem BrokerInv.withIgnore (h : BrokerInv s fs qs) (g : Nat → Bool) :
    BrokerInv (s.withIgnore g) fs qs :=
  h.dispatchEq ⟨rfl, rfl, rfl, fun _ => rfl, fun _ => rfl, fun _ => rfl⟩
    ⟨rfl, rfl, rfl, rfl, rfl, rfl, rfl, rfl, rfl, rfl, rfl, rfl, fun _ => rfl⟩
    ⟨rfl, fun _ => rfl, rfl, rfl, rfl⟩

theorem BrokerInv.take_withIgnore {fuel : Nat} {r : Option Nat} {g : Nat → Bool}
    (h : BrokerInv s fs qs) (hg : ∀ x ∈ s.live, g x = (s.jobs x).ignore)
    (ht : gearmanServerJobTake fuel s con = some (s', r)) :
    ∃ g', (∀ x ∈ s'.live, g' x = (s'.jobs x).ignore) ∧
      gearmanServerJobTake fuel (s.withIgnore g) con = some (s'.withIgnore g', r) := by
  induction fuel generalizing s qs g with
  | zero => simp [gearmanServerJobTake] at ht
  | succ fuel ih =>
    obtain ⟨found, hfound, ⟨rfl, rfl, rfl⟩ | ⟨w, p, j, s₁, rfl, hp, hj, h₁, hcase⟩⟩ :=
      gearmanServerJobTake_succ ht
    · exact ⟨g, hg, by simp [gearmanServerJobTake, hfound]⟩
    obtain ⟨ws, hws, hm⟩ := h.workers.con con
    have hf := (h.found hfound).1
    obtain ⟨-, -, hjl, -⟩ := h.listHead hf hj
    obtain ⟨-, -, hl₁, -, -, hne₁, hjob₁, -⟩ := jobTakeHead_effect h₁
    have h₁' : jobTakeHead (s.withIgnore g) w j p = some (s₁.withIgnore g) := by
      rw [jobTakeHead_withIgnore, h₁]
      rfl
    have hg₁ : ∀ x ∈ s₁.live, g x = (s₁.jobs x).ignore := fun x hx => by
      rw [hl₁] at hx
      by_cases e : x = j
      · subst e; rw [hjob₁]; exact hg x hx
      · rw [hne₁ x e]; exact hg x hx
    have hgj : g j = (s₁.jobs j).ignore := hg₁ j (hl₁ ▸ hjl)
    rcases hcase with ⟨hi, rfl, rfl⟩ | ⟨hi, s₂, h₂, ht⟩
    · exact ⟨g, hg₁, by simp [gearmanServerJobTake, hfound, hp, hj, h₁', hgj, hi]⟩
    obtain ⟨hB, -, hjl₁, -, -⟩ := h.takeHead hf hj h₁
    obtain ⟨g₁, e₂, hg₂⟩ := hB.clients.free_withIgnore hjl₁ h₂ g
    obtain ⟨hB₂, -, hl₂, -, hpay⟩ := h.reap hf hj h₁ h₂
    have hg₁' : ∀ x ∈ s₂.live, g₁ x = (s₂.jobs x).ignore := fun x hx => by
      rw [hl₂] at hx
      obtain ⟨hxj, hx⟩ := h.hash.nodup.mem_erase_iff.1 hx
      rw [hg₂ x hxj, hg x hx]
      exact (congrArg ServerJob.ignore (hpay x hxj) :).symm
    obtain ⟨g', hg', e'⟩ := ih hB₂ hg₁' ht
    exact ⟨g', hg', by simp [gearmanServerJobTake, hfound, hp, hj, h₁', hgj, hi, e₂, e']⟩

theorem take_cleared_head {fuel w j : Nat} {p : GearmanJobPriority} {sa : Server}
    (hfound : chainFind (fun w => (s.workers w).conNext)
      (fun w => (s.functions (s.workers w).function).jobCount != 0) fuel (s.cons con).workerList =
      some (some w))
    (hp : firstPriority (s.functions (s.workers w).function) = some p)
    (hj : (s.functions (s.workers w).function).jobList p = some j)
    (ha : jobTakeHead s w j p = some sa) :
    gearmanServerJobTake (fuel + 1) (s.modifyJob j fun job => { job with ignore := false }) con =
      some (sa.withIgnore (Function.update (fun x => (s.jobs x).ignore) j false), some j) := by
  have ha' := jobTakeHead_withIgnore (s := s)
    (g := Function.update (fun x => (s.jobs x).ignore) j false) w j p
  rw [ha] at ha'
  simp [modifyJob_ignore_eq, gearmanServerJobTake, hfound, hp, hj, ha']

theorem BrokerInv.peek_take {fuel fuel' : Nat} {s₁ t : Server} {r₁ r : Option Nat}
    (h : BrokerInv s fs qs) (hp : gearmanServerJobPeek fuel s con = some (s₁, r₁))
    (ht : gearmanServerJobTake fuel' s con = some (t, r)) :
    r = r₁ ∧ ∀ fuel'' s₂ r₂, gearmanServerJobTake fuel'' s₁ con = some (s₂, r₂) →
      r₂ = r₁ ∧ ∃ g, (∀ x ∈ t.live, g x = (t.jobs x).ignore) ∧ s₂ = t.withIgnore g := by
  induction fuel generalizing s qs fuel' t r with
  | zero => simp [gearmanServerJobPeek] at hp
  | succ fuel ih =>
    cases fuel' with
    | zero => simp [gearmanServerJobTake] at ht
    | succ fuel' =>
    obtain ⟨ws, hws, hm⟩ := h.workers.con con
    obtain ⟨found, hfound, hpc⟩ := gearmanServerJobPeek_succ hp
    obtain ⟨found', hfound', htc⟩ := gearmanServerJobTake_succ ht
    obtain rfl : found = found' := (chainFind_eq hws hfound).trans
      ((find?_congr_of_mem fun w hw => h.queues.peekPred_eq (hm w hw)).trans
        (chainFind_eq hws hfound').symm)
    -- a take from the state take starts from ends as take alone ends
    have hsame : ∀ fuel'' s₂ r₂, gearmanServerJobTake fuel'' s con = some (s₂, r₂) →
        r₂ = r ∧ ∃ g, (∀ x ∈ t.live, g x = (t.jobs x).ignore) ∧ s₂ = t.withIgnore g :=
      fun _ _ _ h₂ => by
        obtain ⟨rfl, rfl⟩ := Prod.mk.inj (gearmanServerJobTake_det h₂ ht)
        exact ⟨rfl, _, fun _ _ => rfl, (withIgnore_self _).symm⟩
    rcases hpc with ⟨rfl, rfl, rfl⟩ | ⟨w, p, j, rfl, hp', hj, hpc⟩
    · rcases htc with ⟨-, -, rfl⟩ | ⟨_, _, _, _, e, -⟩
      · exact ⟨rfl, hsame⟩
      · cases e
    rcases htc with ⟨e, -⟩ | ⟨w', p', j', sa, e, hp₂, hj', ha, htc⟩
    · cases e
    cases e
    obtain rfl : p = p' := Option.some.inj (hp'.symm.trans hp₂)
    obtain rfl : j = j' := Option.some.inj (hj.symm.trans hj')
    obtain ⟨-, -, -, -, -, -, hjob, -⟩ := jobTakeHead_effect ha
    have hI : (sa.jobs j).ignore = (s.jobs j).ignore := by rw [hjob]
    rcases hpc with ⟨hi, rfl, rfl⟩ | ⟨hi, s₀₁, t₀, s₀₂, h₀₁, h₀₂, hp₀⟩
    · -- an unmarked head: peek returns it and writes nothing
      rcases htc with ⟨-, -, rfl⟩ | ⟨hi', -⟩
      · exact ⟨rfl, hsame⟩
      · rw [hI, hi] at hi'; cases hi'
    rcases htc with ⟨hi', -⟩ | ⟨-, sb, hfb, htb⟩
    · rw [hI, hi] at hi'; cases hi'
    -- a marked head: peek's nested take unlinks it, and peek frees it with the mark cleared
    have hf := hm w (List.mem_of_find?_eq_some (chainFind_eq hws hfound').symm)
    obtain ⟨hB, -, hjl, -, -⟩ := h.takeHead hf hj ha
    obtain ⟨-, -, hl₁, -, -, hne, -, -⟩ := jobTakeHead_effect ha
    obtain ⟨rfl, ⟨⟩⟩ := Prod.mk.inj (gearmanServerJobTake_det h₀₁ (take_cleared_head hfound' hp' hj ha))
    obtain ⟨g₁, e₁, hg₁⟩ := hB.clients.free_withIgnore hjl hfb
      (Function.update (fun x => (s.jobs x).ignore) j false)
    obtain rfl := gearmanServerJobFree_det h₀₂ e₁
    obtain ⟨hB₂, -, hl₂, -, hpay⟩ := h.reap hf hj ha hfb
    have hg : ∀ x ∈ sb.live, g₁ x = (sb.jobs x).ignore := fun x hx => by
      rw [hl₂] at hx
      obtain ⟨hxj, -⟩ := h.hash.nodup.mem_erase_iff.1 hx
      rw [hg₁ x hxj, Function.update_noteq hxj]
      exact (congrArg ServerJob.ignore (hpay x hxj) :).symm
    obtain ⟨g₂, hg₂, e₂⟩ := hB₂.take_withIgnore hg htb
    obtain ⟨hr, hnext⟩ := ih (hB₂.withIgnore g₁) hp₀ e₂
    refine ⟨hr, fun fuel'' s₂ r₂ h₂ => ?_⟩
    obtain ⟨hr₂, g, hg', rfl⟩ := hnext fuel'' s₂ r₂ h₂
    exact ⟨hr₂, g, fun x hx => (hg' x hx).trans (hg₂ x hx), by rw [withIgnore_withIgnore]⟩

theorem waitingClients_withIgnore (s : Server) (g : Nat → Bool) :
    waitingClients (s.withIgnore g) = waitingClients s := rfl

theorem BrokerInv.peek_returns {fuel : Nat} (h : BrokerInv s fs qs)
    (hws : Chain (fun w => (s.workers w).conNext) (s.cons con).workerList ws)
    (hm : ∀ w ∈ ws, (s.workers w).function ∈ fs)
    (hfuel : ws.length + s.live.length + waitingClients s + 1 < fuel) :
    ∃ r, gearmanServerJobPeek fuel s con = some r := by
  induction fuel generalizing s qs with
  | zero => omega
  | succ fuel ih =>
    have hc : chainFind (fun w => (s.workers w).conNext)
        (fun w => (s.functions (s.workers w).function).jobCount != 0 &&
          (firstPriority (s.functions (s.workers w).function)).isSome) fuel (s.cons con).workerList =
        some (ws.find? fun w => (s.functions (s.workers w).function).jobCount != 0) := by
      rw [chainFind_of_le hws (by omega),
        find?_congr_of_mem fun w hw => h.queues.peekPred_eq (hm w hw)]
    rcases hw : ws.find? (fun w => (s.functions (s.workers w).function).jobCount != 0) with _ | w
    · exact ⟨(s, none), by simp [gearmanServerJobPeek, hc, hw]⟩
    have hf := hm w (List.mem_of_find?_eq_some hw)
    obtain ⟨p, j, hp, hj⟩ := h.queues.firstPriority_of_jobCount hf (by simpa using List.find?_some hw)
    obtain ⟨rest, hq, hjl, -⟩ := h.listHead hf hj
    cases hi : (s.jobs j).ignore with
    | false => exact ⟨(s, some j), by simp [gearmanServerJobPeek, hc, hw, hp, hj, hi]⟩
    | true =>
      have hL := List.length_pos_of_mem hjl
      obtain ⟨fuel, rfl⟩ : ∃ n, fuel = n + 1 := ⟨fuel - 1, by omega⟩
      have hfj := (h.queues.mem _ hf p j (hq ▸ List.mem_cons_self _ _)).2.1
      obtain ⟨sa, ha⟩ : ∃ sa, jobTakeHead s w j p = some sa :=
        ⟨_, jobTakeHead_eq_some.2 ⟨_, hfj, rfl⟩⟩
      have hfound : chainFind (fun w => (s.workers w).conNext)
          (fun w => (s.functions (s.workers w).function).jobCount != 0) fuel
          (s.cons con).workerList = some (some w) := by
        rw [chainFind_of_le hws (by omega), hw]
      obtain ⟨sb, hfb, hlen, hwc⟩ := h.reap_returns (fuel + 1) hf hj ha (by omega)
      obtain ⟨hB, -, hjla, -, -⟩ := h.takeHead hf hj ha
      obtain ⟨g₁, e₁, -⟩ := hB.clients.free_withIgnore hjla hfb
        (Function.update (fun x => (s.jobs x).ignore) j false)
      obtain ⟨hB₂, hk, -, -, -⟩ := h.reap hf hj ha hfb
      obtain ⟨r, hr⟩ := ih (hB₂.withIgnore g₁) (hk.conChain hws)
        (fun w hw => by rw [withIgnore_workers, hk.workerFunction]; exact hm w hw)
        (by rw [withIgnore_live, waitingClients_withIgnore]; omega)
      refine ⟨r, ?_⟩
      rw [gearmanServerJobPeek.eq_2]
      simp [hc, hw, hp, hj, hi, take_cleared_head hfound hp hj ha, e₁, hr]

end

section
variable {s : Server} {fs : List Nat} {qs : Nat → GearmanJobPriority → List Nat}

theorem skeletonEq_peek {fuel con : Nat} {s' : Server} {r : Option Nat}
    (hp : gearmanServerJobPeek fuel s con = some (s', r)) : SkeletonEq s s' :=
  gearmanServerJobPeek_rel SkeletonEq SkeletonEq.refl SkeletonEq.trans
    (fun h => (frame_jobTakeHead h).1) skeletonEq_jobFree (fun _ _ => skeletonEq_modifyJob _ _) hp

set_option maxRecDepth 4000 in
/-- Behind an abandoned job, a take after a peek and a take alone hand out and free the same jobs,
but the peek clears the freed job's IGNORE bit and the take alone keeps it. -/
theorem job_peek_then_take_leaves_freed_record_unmarked :
    ∃ s s₁ s₂ t, Reachable (fun _ _ _ => True) s ∧
      gearmanServerJobPeek 4 s 0 = some (s₁, some 1) ∧
      gearmanServerJobTake 4 s₁ 0 = some (s₂, some 1) ∧
      gearmanServerJobTake 4 s 0 = some (t, some 1) ∧
      s₂.live = [1] ∧ t.live = [1] ∧ (s₂.jobs 0).ignore = false ∧ (t.jobs 0).ignore = true ∧
      s₂ ≠ t := by
  have hr₁ : Reachable (fun _ _ _ => True) _ := Reachable.add (.init initial_brokerWithWorker)
    (rfl : gearmanServerJobAdd 1 brokerWithWorker [102] [97] none .normal (some 0) {} = _)
    (fun _ e => by cases e; rfl) trivial
  have hr₃ := Reachable.add (Reachable.clientFree 0 hr₁ trivial)
    (rfl : gearmanServerJobAdd 1 _ [102] [98] none .normal none {} = _) (fun _ e => by cases e) trivial
  have hne : ∀ a b : Server, (a.jobs 0).ignore = false → (b.jobs 0).ignore = true → a ≠ b :=
    fun a b ha hb e => by rw [e, hb] at ha; cases ha
  exact ⟨_, _, _, _, hr₃, rfl, rfl, rfl, rfl, rfl, rfl, rfl, hne _ _ rfl rfl⟩

theorem job_peek_then_take_agrees_with_take (h : BrokerInv s fs qs) (con : Nat) :
    ∃ ws, Chain (fun w => (s.workers w).conNext) (s.cons con).workerList ws ∧
      (∀ fuel, ws.length + s.live.length + waitingClients s + 1 < fuel →
        ∃ r, gearmanServerJobPeek fuel s con = some r) ∧
      ∀ fuel fuel' s₁ r₁ t r, gearmanServerJobPeek fuel s con = some (s₁, r₁) →
        gearmanServerJobTake fuel' s con = some (t, r) →
        r₁ = r ∧
        (∀ fuel'', ws.length + s₁.live.length + waitingClients s₁ < fuel'' →
          ∃ res, gearmanServerJobTake fuel'' s₁ con = some res) ∧
        ∀ fuel'' s₂ r₂, gearmanServerJobTake fuel'' s₁ con = some (s₂, r₂) →
          r₂ = r ∧ ∃ g, (∀ x ∈ t.live, g x = (t.jobs x).ignore) ∧ s₂ = t.withIgnore g := by
  obtain ⟨ws, hws, hm⟩ := h.workers.con con
  refine ⟨ws, hws, fun _ hf => h.peek_returns hws hm hf, fun fuel fuel' s₁ r₁ t r hp ht => ?_⟩
  obtain ⟨hr, hnext⟩ := h.peek_take hp ht
  obtain ⟨qs₁, h₁, -⟩ := h.peek hp
  have hk := skeletonEq_peek hp
  refine ⟨hr.symm, fun _ hf => h₁.take_returns (hk.conChain hws)
    (fun w hw => by rw [hk.workerFunction]; exact hm w hw) hf, fun fuel'' s₂ r₂ h₂ => ?_⟩
  obtain ⟨hr₂, hs₂⟩ := hnext fuel'' s₂ r₂ h₂
  exact ⟨hr₂.trans hr.symm, hs₂⟩

end

set_option maxRecDepth 4000 in
theorem job_peek_then_take_agrees_on_abandoned_job :
    ∃ s fs qs s₁ s₂ t, Reachable (fun _ _ _ => True) s ∧ BrokerInv s fs qs ∧
      gearmanServerJobPeek 4 s 0 = some (s₁, some 1) ∧ gearmanServerJobTake 4 s 0 = some (t, some 1) ∧
      gearmanServerJobTake 4 s₁ 0 = some (s₂, some 1) ∧
      ∃ g, (∀ x ∈ t.live, g x = (t.jobs x).ignore) ∧ s₂ = t.withIgnore g := by
  have hr₁ : Reachable (fun _ _ _ => True) _ := Reachable.add (.init initial_brokerWithWorker)
    (rfl : gearmanServerJobAdd 1 brokerWithWorker [102] [97] none .normal (some 0) {} = _)
    (fun _ e => by cases e; rfl) trivial
  have hr₃ := Reachable.add (Reachable.clientFree 0 hr₁ trivial)
    (rfl : gearmanServerJobAdd 1 _ [102] [98] none .normal none {} = _) (fun _ e => by cases e) trivial
  obtain ⟨fs, qs, h⟩ := hr₃.brokerInv
  obtain ⟨ws, -, -, hspec⟩ := job_peek_then_take_agrees_with_take h 0
  exact ⟨_, fs, qs, _, _, _, hr₃, h, rfl, rfl, rfl, ((hspec 4 4 _ _ _ _ rfl rfl).2.2 4 _ _ rfl).2⟩

end GearmanServer
