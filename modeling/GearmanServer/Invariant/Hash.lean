import GearmanServer.Invariant.Tables

/-!
# The hash tables over runs of `gearman_server_job_add` and `gearman_server_job_free`

`HashInv s hs`: both tables hold the jobs `hs`, each job's handle key is the hash of its
handle, and the job pool is a well-formed list of other structures. `gearman_server_job_create`
takes a structure out of the pool or from `malloc`, lines 110–131 of `gearman_server_job_add`
hash it, and `gearman_server_job_free` unhashes it and gives it back to the pool.
-/

namespace GearmanServer

def ServerJob.hashFields (job : ServerJob) :
    Option Nat × Option Nat × Option Nat × Option Nat × UInt32 × UInt32 × Bytes :=
  (job.next, job.prev, job.uniqueNext, job.uniquePrev, job.jobHandleKey, job.uniqueKey, job.jobHandle)

def ServerJob.uniqueFields (job : ServerJob) : Option Nat × Option Nat × UInt32 :=
  (job.uniqueNext, job.uniquePrev, job.uniqueKey)

def ServerJob.jobFields (job : ServerJob) : Option Nat × Option Nat × UInt32 × Bytes :=
  (job.next, job.prev, job.jobHandleKey, job.jobHandle)

def PoolInv (s : Server) (hs : List Nat) : Prop :=
  ∃ fl, jobLinks.DList s.jobs s.freeJobList s.freeJobCount fl ∧ ∀ x ∈ fl, x ∉ hs ∧ x < s.jobTop

structure HashInv (s : Server) (hs : List Nat) : Prop where
  nodup : hs.Nodup
  lt_top : ∀ j ∈ hs, j < s.jobTop
  job : TableInv jobLinks ServerJob.jobHandleKey s.jobs s.jobHash s.jobCount hs
  unique : TableInv uniqueLinks ServerJob.uniqueKey s.jobs s.uniqueHash s.uniqueCount hs
  handle_key : ∀ j ∈ hs, (s.jobs j).jobHandleKey = serverJobHash (cString (s.jobs j).jobHandle)

theorem jobLinks_key (a : ServerJob) (p : Option Nat) :
    (jobLinks.setNext a p).uniqueKey = a.uniqueKey ∧ (jobLinks.setPrev a p).uniqueKey = a.uniqueKey ∧
    (jobLinks.setNext a p).jobHandleKey = a.jobHandleKey ∧
    (jobLinks.setPrev a p).jobHandleKey = a.jobHandleKey :=
  ⟨rfl, rfl, rfl, rfl⟩

theorem uniqueLinks_key (a : ServerJob) (p : Option Nat) :
    (uniqueLinks.setNext a p).uniqueKey = a.uniqueKey ∧
    (uniqueLinks.setPrev a p).uniqueKey = a.uniqueKey ∧
    (uniqueLinks.setNext a p).jobHandleKey = a.jobHandleKey ∧
    (uniqueLinks.setPrev a p).jobHandleKey = a.jobHandleKey :=
  ⟨rfl, rfl, rfl, rfl⟩

section
variable {s s' : Server} {hs : List Nat} {j : Nat}

theorem PoolInv.congr (hp : PoolInv s hs) (htop : s.jobTop ≤ s'.jobTop)
    (hl : s'.freeJobList = s.freeJobList) (hc : s'.freeJobCount = s.freeJobCount)
    (hf : ∀ x, x ∉ hs → (s'.jobs x).next = (s.jobs x).next ∧ (s'.jobs x).prev = (s.jobs x).prev) :
    PoolInv s' hs := by
  obtain ⟨fl, hd, hm⟩ := hp
  refine ⟨fl, ?_, fun x hx => ⟨(hm x hx).1, (hm x hx).2.trans_le htop⟩⟩
  rw [hl, hc]
  exact hd.congr fun x hx => hf x (hm x hx).1

theorem HashInv.congr (h : HashInv s hs) (htop : s.jobTop ≤ s'.jobTop)
    (htab : s'.jobHash = s.jobHash ∧ s'.jobCount = s.jobCount ∧ s'.uniqueHash = s.uniqueHash ∧
      s'.uniqueCount = s.uniqueCount)
    (hf : ∀ x ∈ hs, (s'.jobs x).hashFields = (s.jobs x).hashFields) : HashInv s' hs := by
  obtain ⟨h1, h2, h3, h4⟩ := htab
  have hf' : ∀ x ∈ hs, _ := fun x hx => Prod.mk.inj_iff.1 (hf x hx)
  simp only [Prod.mk.injEq] at hf'
  refine ⟨h.nodup, fun j hj => (h.lt_top j hj).trans_le htop, ?_, ?_, ?_⟩
  · rw [h1, h2]
    exact h.job.congr fun x hx => ⟨(hf' x hx).1, (hf' x hx).2.1, (hf' x hx).2.2.2.2.1⟩
  · rw [h3, h4]
    exact h.unique.congr fun x hx => ⟨(hf' x hx).2.2.1, (hf' x hx).2.2.2.1, (hf' x hx).2.2.2.2.2.1⟩
  · intro j hj
    rw [(hf' j hj).2.2.2.2.1, (hf' j hj).2.2.2.2.2.2, h.handle_key j hj]

theorem PoolInv.mono (hp : PoolInv s hs) {hs' : List Nat} (h : ∀ x ∈ hs', x ∈ hs) :
    PoolInv s hs' := by
  obtain ⟨fl, hd, hm⟩ := hp
  exact ⟨fl, hd, fun x hx => ⟨fun h' => (hm x hx).1 (h x h'), (hm x hx).2⟩⟩

theorem HashInv.create {ok : Bool} (h : HashInv s hs) (hp : PoolInv s hs)
    (hc : gearmanServerJobCreate s ok = some (s', some j)) :
    j ∉ hs ∧ j < s'.jobTop ∧ HashInv s' hs ∧ PoolInv s' (j :: hs) := by
  unfold gearmanServerJobCreate at hc
  obtain ⟨fl, hd, hm⟩ := hp
  split_ifs at hc with hpos hok
  · rcases hfree : s.freeJobList with _ | k <;> rw [hfree] at hc hd
    · cases hc
    simp only [Option.some.injEq, Prod.mk.injEq] at hc
    obtain ⟨rfl, rfl⟩ := hc
    obtain ⟨fl', rfl⟩ : ∃ fl', fl = k :: fl' := by
      cases fl with
      | nil => simp [hd.count_eq] at hpos
      | cons y ys => exact ⟨ys, by cases hd.chain.1; rfl⟩
    have hj := hm k (List.mem_cons_self _ _)
    set heap := (jobLinks.listDel s.jobs (some k) s.freeJobCount k).1
    have hdel : jobLinks.DList heap (jobLinks.listDel s.jobs (some k) s.freeJobCount k).2.1
        (s.freeJobCount - 1) fl' := by
      simpa only [List.erase_cons_head] using hd.listDel (List.mem_cons_self k fl')
    have hjfl : k ∉ fl' := (List.nodup_cons.1 hd.nodup).1
    have hoff : ∀ x, x ∉ k :: fl' → (heap x).next = (s.jobs x).next ∧
        (heap x).prev = (s.jobs x).prev := fun x hx =>
      hd.toDChain.listDel_frame (List.mem_cons_self _ _) hx
    have hne : ∀ x ∈ hs, x ≠ k := fun x hx h' => hj.1 (h' ▸ hx)
    have hout : ∀ x ∈ hs, x ∉ k :: fl' := fun x hx h' =>
      (List.mem_cons.1 h').elim (hne x hx) fun h'' => (hm x (List.mem_cons_of_mem _ h'')).1 hx
    refine ⟨hj.1, hj.2, h.congr le_rfl ⟨rfl, rfl, rfl, rfl⟩ fun x hx => ?_, ?_⟩
    · -- a hashed job is off the pool, so the unlink keeps its links, and it keeps its keys
      have hk : ((heap x).uniqueNext, (heap x).uniquePrev, (heap x).jobHandleKey,
          (heap x).uniqueKey, (heap x).jobHandle) = ((s.jobs x).uniqueNext, (s.jobs x).uniquePrev,
          (s.jobs x).jobHandleKey, (s.jobs x).uniqueKey, (s.jobs x).jobHandle) :=
        jobLinks.field_listDel (fun job => (job.uniqueNext, job.uniquePrev, job.jobHandleKey,
          job.uniqueKey, job.jobHandle)) (fun _ _ => rfl) (fun _ _ => rfl) _ _ _ _ x
      simp only [Function.update_noteq (hne x hx), ServerJob.hashFields, Prod.mk.injEq] at hk ⊢
      exact ⟨(hoff x (hout x hx)).1, (hoff x (hout x hx)).2, hk⟩
    · refine ⟨fl', hdel.congr fun x hx => ?_, fun x hx => ⟨?_, (hm x (List.mem_cons_of_mem _ hx)).2⟩⟩
      · have : x ≠ k := fun h' => hjfl (h' ▸ hx)
        simp [Function.update_noteq this]
      · rintro (_ | ⟨_, hx'⟩)
        · exact hjfl hx
        · exact (hm x (List.mem_cons_of_mem _ hx)).1 hx'
  · simp only [Option.some.injEq, Prod.mk.injEq] at hc
    obtain ⟨rfl, rfl⟩ := hc
    have hne : ∀ x ∈ hs, x ≠ s.jobTop := fun x hx h' => (h' ▸ h.lt_top x hx).false
    refine ⟨fun hx => (h.lt_top _ hx).false, Nat.lt_succ_self _,
      h.congr (Nat.le_succ _) ⟨rfl, rfl, rfl, rfl⟩ fun x hx => by
        simp [Function.update_noteq (hne x hx)], ?_⟩
    · refine ⟨fl, hd.congr ?_, fun x hx => ⟨?_, (hm x hx).2.trans (Nat.lt_succ_self _)⟩⟩
      · intro x hx
        simp [Function.update_noteq (hm x hx).2.ne]
      · rintro (_ | ⟨_, hx'⟩)
        · exact (hm _ hx).2.false
        · exact (hm x hx).1 hx'
  · cases hc

theorem HashInv.insert (h : HashInv s hs) (hp : PoolInv s (j :: hs)) (hj : j ∉ hs)
    (hjt : j < s.jobTop) (hk : (s.jobs j).uniqueKey = key) :
    HashInv (jobAddHash s j key) (j :: hs) ∧ PoolInv (jobAddHash s j key) (j :: hs) := by
  have hne : ∀ x ∈ hs, x ≠ j := fun x hx h' => hj (h' ▸ hx)
  have hu := h.unique.hashAdd (fun _ _ => ⟨rfl, rfl⟩) hj
  rw [hk] at hu
  set r1 := uniqueLinks.hashAdd s.jobs s.uniqueHash s.uniqueCount (hashBucket key) j
  have hf1 : ∀ x, (r1.1 x).jobFields = (s.jobs x).jobFields :=
    uniqueLinks.field_hashAdd ServerJob.jobFields (fun _ _ => rfl) (fun _ _ => rfl)
  simp only [ServerJob.jobFields, Prod.mk.injEq] at hf1
  set hkey := serverJobHash (cString (r1.1 j).jobHandle)
  set heap2 := Function.update r1.1 j { r1.1 j with jobHandleKey := hkey }
  have hjob2 : TableInv jobLinks ServerJob.jobHandleKey heap2 s.jobHash s.jobCount hs :=
    h.job.congr fun x hx => by
      simp only [heap2, Function.update_noteq (hne x hx)]
      exact ⟨(hf1 x).1, (hf1 x).2.1, (hf1 x).2.2.1⟩
  have hj2 := hjob2.hashAdd (fun _ _ => ⟨rfl, rfl⟩) hj
  have hb : hashBucket (heap2 j).jobHandleKey = hashBucket hkey := by simp [heap2]
  rw [hb] at hj2
  set r3 := jobLinks.hashAdd heap2 s.jobHash s.jobCount (hashBucket hkey) j
  have hf3 : ∀ x, (r3.1 x).uniqueFields = (heap2 x).uniqueFields :=
    jobLinks.field_hashAdd ServerJob.uniqueFields (fun _ _ => rfl) (fun _ _ => rfl)
  have hk3 : ∀ x, (r3.1 x).jobHandleKey = (heap2 x).jobHandleKey ∧
      (r3.1 x).jobHandle = (heap2 x).jobHandle := fun x =>
    ⟨jobLinks.field_hashAdd ServerJob.jobHandleKey (fun _ _ => rfl) (fun _ _ => rfl) x,
      jobLinks.field_hashAdd ServerJob.jobHandle (fun _ _ => rfl) (fun _ _ => rfl) x⟩
  simp only [ServerJob.uniqueFields, Prod.mk.injEq] at hf3
  have hs3 : jobAddHash s j key = { s with
      jobs := r3.1
      jobHash := r3.2.1
      jobCount := r3.2.2
      uniqueHash := r1.2.1
      uniqueCount := r1.2.2 } := rfl
  rw [hs3]
  refine ⟨⟨List.nodup_cons.2 ⟨hj, h.nodup⟩, ?_, hj2, ?_, ?_⟩, ?_⟩
  · intro x hx
    rcases List.mem_cons.1 hx with rfl | hx
    · exact hjt
    · exact h.lt_top x hx
  · refine hu.congr fun x _ => ?_
    have : (heap2 x).uniqueNext = (r1.1 x).uniqueNext ∧ (heap2 x).uniquePrev = (r1.1 x).uniquePrev ∧
        (heap2 x).uniqueKey = (r1.1 x).uniqueKey := by
      by_cases hx : x = j
      · subst hx; simp [heap2]
      · simp [heap2, Function.update_noteq hx]
    exact ⟨(hf3 x).1.trans this.1, (hf3 x).2.1.trans this.2.1, (hf3 x).2.2.trans this.2.2⟩
  · intro x hx
    rw [(hk3 x).1, (hk3 x).2]
    rcases List.mem_cons.1 hx with rfl | hx
    · simp [heap2, hkey]
    · simp only [heap2, Function.update_noteq (hne x hx)]
      rw [(hf1 x).2.2.1, (hf1 x).2.2.2, h.handle_key x hx]
  · refine hp.congr le_rfl rfl rfl fun x hx => ?_
    have hxj : x ≠ j := fun h' => hx (h' ▸ List.mem_cons_self _ _)
    have hxs : x ∉ hs := fun h' => hx (List.mem_cons_of_mem _ h')
    have h3 := hjob2.hashAdd_off hxj hxs
    rw [hb] at h3
    simp only [heap2, Function.update_noteq hxj] at h3
    exact ⟨h3.1.trans (hf1 x).1, h3.2.trans (hf1 x).2.1⟩

theorem HashInv.unhash (h : HashInv s hs) (hp : PoolInv s hs) (hj : j ∈ hs) :
    HashInv (jobFreeUnhash s j) (hs.erase j) ∧ PoolInv (jobFreeUnhash s j) hs := by
  have hu := h.unique.hashDel (fun _ _ => ⟨rfl, rfl⟩) hj
  set r1 := uniqueLinks.hashDel s.jobs s.uniqueHash s.uniqueCount
    (hashBucket (s.jobs j).uniqueKey) j
  have hf1 : ∀ x, (r1.1 x).jobFields = (s.jobs x).jobFields :=
    uniqueLinks.field_hashDel ServerJob.jobFields (fun _ _ => rfl) (fun _ _ => rfl)
  simp only [ServerJob.jobFields, Prod.mk.injEq] at hf1
  have hjob1 : TableInv jobLinks ServerJob.jobHandleKey r1.1 s.jobHash s.jobCount hs :=
    h.job.congr fun x _ => ⟨(hf1 x).1, (hf1 x).2.1, (hf1 x).2.2.1⟩
  have hj2 := hjob1.hashDel (fun _ _ => ⟨rfl, rfl⟩) hj
  set r3 := jobLinks.hashDel r1.1 s.jobHash s.jobCount (hashBucket (r1.1 j).jobHandleKey) j
  have hf3 : ∀ x, (r3.1 x).uniqueFields = (r1.1 x).uniqueFields :=
    jobLinks.field_hashDel ServerJob.uniqueFields (fun _ _ => rfl) (fun _ _ => rfl)
  have hk3 : ∀ x, (r3.1 x).jobHandleKey = (r1.1 x).jobHandleKey ∧
      (r3.1 x).jobHandle = (r1.1 x).jobHandle := fun x =>
    ⟨jobLinks.field_hashDel ServerJob.jobHandleKey (fun _ _ => rfl) (fun _ _ => rfl) x,
      jobLinks.field_hashDel ServerJob.jobHandle (fun _ _ => rfl) (fun _ _ => rfl) x⟩
  simp only [ServerJob.uniqueFields, Prod.mk.injEq] at hf3
  have hs3 : jobFreeUnhash s j = { s with
      workers := (clearWorkerJob s (s.jobs j).worker).workers
      jobs := r3.1
      jobHash := r3.2.1
      jobCount := r3.2.2
      uniqueHash := r1.2.1
      uniqueCount := r1.2.2
      live := s.live.erase j } := by
    unfold jobFreeUnhash
    cases (s.jobs j).worker <;> rfl
  rw [hs3]
  refine ⟨⟨h.nodup.sublist (List.erase_sublist _ _), fun x hx => h.lt_top x
    (List.mem_of_mem_erase hx), hj2, hu.congr fun x _ => hf3 x, fun x hx => ?_⟩, ?_⟩
  · rw [(hk3 x).1, (hk3 x).2, (hf1 x).2.2.1, (hf1 x).2.2.2,
      h.handle_key x (List.mem_of_mem_erase hx)]
  · refine hp.congr le_rfl rfl rfl fun x hx => ?_
    have h3 := hjob1.hashDel_off hj hx
    exact ⟨h3.1.trans (hf1 x).1, h3.2.trans (hf1 x).2.1⟩

theorem HashInv.release (h : HashInv s hs) (hp : PoolInv s (j :: hs)) (hj : j ∉ hs)
    (hjt : j < s.jobTop) :
    HashInv (jobFreeRelease s j) hs ∧ PoolInv (jobFreeRelease s j) hs := by
  unfold jobFreeRelease
  split_ifs
  · obtain ⟨fl, hd, hm⟩ := hp
    have hjfl : j ∉ fl := fun h' => (hm j h').1 (List.mem_cons_self _ _)
    set heap := (jobLinks.listAdd s.jobs s.freeJobList s.freeJobCount j).1
    have hoff : ∀ x ∈ hs, (heap x).next = (s.jobs x).next ∧ (heap x).prev = (s.jobs x).prev := by
      intro x hx
      have hxj : x ≠ j := fun h' => hj (h' ▸ hx)
      exact hd.toDChain.listAdd_frame (fun h' => (hm x h').1 (List.mem_cons_of_mem _ hx)) hxj
    refine ⟨h.congr le_rfl ⟨rfl, rfl, rfl, rfl⟩ fun x hx => ?_,
      ⟨j :: fl, hd.listAdd hjfl, fun x hx => ?_⟩⟩
    · have hu := jobLinks.field_listAdd ServerJob.uniqueFields (fun _ _ => rfl) (fun _ _ => rfl) s.jobs s.freeJobList s.freeJobCount j x
      have hk := jobLinks.field_listAdd (fun job : ServerJob => (job.jobHandleKey, job.jobHandle)) (fun _ _ => rfl) (fun _ _ => rfl) s.jobs s.freeJobList s.freeJobCount j x
      simp only [ServerJob.uniqueFields, ServerJob.hashFields, Prod.mk.injEq] at hu hk ⊢
      exact ⟨(hoff x hx).1, (hoff x hx).2, hu.1, hu.2.1, hk.1, hu.2.2, hk.2⟩
    · rcases List.mem_cons.1 hx with rfl | hx
      · exact ⟨hj, hjt⟩
      · exact ⟨fun h' => (hm x hx).1 (List.mem_cons_of_mem _ h'), (hm x hx).2⟩
  · exact ⟨h, hp.mono fun x hx => List.mem_cons_of_mem _ hx⟩

theorem HashInv.clientsOnly (h : HashInv s hs) (hc : ClientsOnly s s') : HashInv s' hs := by
  rw [hc.eq]
  refine h.congr le_rfl ⟨rfl, rfl, rfl, rfl⟩ fun x _ => ?_
  have e := congrArg ServerJob.hashFields (hc.jobs x)
  exact e

theorem PoolInv.clientsOnly (hp : PoolInv s hs) (hc : ClientsOnly s s') : PoolInv s' hs := by
  rw [hc.eq]
  refine hp.congr le_rfl rfl rfl fun x _ => ?_
  have e := congrArg (fun job => (job.next, job.prev)) (hc.jobs x)
  exact Prod.mk.inj e

theorem HashInv.free {fuel : Nat} (h : HashInv s hs) (hp : PoolInv s hs) (hj : j ∈ hs)
    (hf : gearmanServerJobFree fuel s j = some s') :
    HashInv s' (hs.erase j) ∧ PoolInv s' (hs.erase j) := by
  obtain ⟨fn, s₁, -, h₁, rfl⟩ := gearmanServerJobFree_eq_some.1 hf
  have hc := clientsOnly_freeClientList h₁
  have e := jobFreeCounters_eq s j fn
  have h₀ : HashInv (jobFreeCounters s j fn) hs ∧ PoolInv (jobFreeCounters s j fn) hs := by
    rw [e]
    exact ⟨h.congr le_rfl ⟨rfl, rfl, rfl, rfl⟩ fun _ _ => rfl, hp.congr le_rfl rfl rfl
      fun _ _ => ⟨rfl, rfl⟩⟩
  obtain ⟨hu, hpu⟩ := (h₀.1.clientsOnly hc).unhash (h₀.2.clientsOnly hc) hj
  have htop : (jobFreeUnhash s₁ j).jobTop = s.jobTop := by
    rw [jobFreeUnhash_eq, hc.eq, e]
  exact hu.release (hpu.mono fun x hx => (List.mem_cons.1 hx).elim (· ▸ hj) List.mem_of_mem_erase)
    (h.nodup.not_mem_erase) (htop ▸ h.lt_top j hj)

end

end GearmanServer
