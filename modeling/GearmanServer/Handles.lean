import GearmanServer.Invariant.Reachable
import GearmanServer.Format

/-!
# Job handles

`gearman_server_job_add` names each job it creates `"%s:%u"` of `job_handle_prefix` and
`job_handle_count`, and counts on; the ghost `handleLog` holds these handles, the last first.
Over a run from an initial broker the log is the handles of consecutive counter values, and the
handles of the live jobs stand in it in the order of `live`, each at its own place
(`HandleInv`). With a prefix of at most 52 bytes and at most `2 ^ 32` jobs created, the handles
are pairwise different, so `gearman_server_job_get` finds each live job by its handle.
-/

namespace GearmanServer

def handlesFrom (pfx : Bytes) (c₀ : Nat) : Nat → List Bytes
  | 0 => []
  | n + 1 => formatJobHandle pfx (UInt32.ofNat (c₀ + n)) :: handlesFrom pfx c₀ n

theorem mem_handlesFrom {pfx x : Bytes} {c₀ : Nat} :
    ∀ {n}, x ∈ handlesFrom pfx c₀ n → ∃ k < n, x = formatJobHandle pfx (UInt32.ofNat (c₀ + k))
  | 0, h => by cases h
  | n + 1, h => by
    rcases List.mem_cons.1 h with rfl | h
    · exact ⟨n, Nat.lt_succ_self n, rfl⟩
    · obtain ⟨k, hk, rfl⟩ := mem_handlesFrom h
      exact ⟨k, by omega, rfl⟩

theorem toNat_ofNat (m : Nat) : (UInt32.ofNat m).toNat = m % 2 ^ 32 := by
  simp [UInt32.toNat, UInt32.ofNat]

theorem toNat_add_one (c : UInt32) : (c + 1).toNat = (c.toNat + 1) % 2 ^ 32 := by
  simp [UInt32.toNat, UInt32.add_def, BitVec.toNat_add]

theorem handlesFrom_nodup {pfx : Bytes} (hp : (cString pfx).length ≤ 52) (c₀ : Nat) :
    ∀ {n}, n ≤ 2 ^ 32 → (handlesFrom pfx c₀ n).Nodup
  | 0, _ => List.nodup_nil
  | n + 1, hn => by
    refine List.nodup_cons.2 ⟨fun hm => ?_, handlesFrom_nodup hp c₀ (by omega)⟩
    obtain ⟨k, hk, e⟩ := mem_handlesFrom hm
    have := congrArg UInt32.toNat (formatJobHandle_injective hp e)
    rw [toNat_ofNat, toNat_ofNat] at this
    omega

/-! ## What the calls write of the handles -/

structure HandlesEq (s s' : Server) : Prop where
  jobHandlePrefix : s'.jobHandlePrefix = s.jobHandlePrefix
  jobHandleCount : s'.jobHandleCount = s.jobHandleCount
  handleLog : s'.handleLog = s.handleLog
  jobHandle : ∀ x, (s'.jobs x).jobHandle = (s.jobs x).jobHandle
  live : s'.live.Sublist s.live

section
variable {s s' s'' : Server}

theorem HandlesEq.refl (s : Server) : HandlesEq s s := ⟨rfl, rfl, rfl, fun _ => rfl, .refl _⟩

theorem HandlesEq.trans (h : HandlesEq s s') (h' : HandlesEq s' s'') : HandlesEq s s'' :=
  ⟨h'.jobHandlePrefix.trans h.jobHandlePrefix, h'.jobHandleCount.trans h.jobHandleCount,
    h'.handleLog.trans h.handleLog, fun x => (h'.jobHandle x).trans (h.jobHandle x),
    h'.live.trans h.live⟩

theorem TablesEq.handlesEq (h : TablesEq s s') : HandlesEq s s' :=
  ⟨h.jobHandlePrefix, h.jobHandleCount, h.handleLog,
    fun x => congrArg (fun t => t.1.2.2.2.2.2.2) (h.jobs x), h.live ▸ .refl _⟩

theorem ClientsOnly.handlesEq (h : ClientsOnly s s') : HandlesEq s s' := by
  have hl : s'.live = s.live := by rw [h.eq]
  refine ⟨by rw [h.eq], by rw [h.eq], by rw [h.eq], fun x => ?_, hl ▸ .refl _⟩
  have e := congrArg ServerJob.jobHandle (h.jobs x)
  exact e

theorem handlesEq_jobFree {fuel j : Nat} (h : gearmanServerJobFree fuel s j = some s') :
    HandlesEq s s' := by
  obtain ⟨fn, s₁, -, h₁, rfl⟩ := gearmanServerJobFree_eq_some.1 h
  have hc := (clientsOnly_freeClientList h₁).handlesEq
  have e := jobFreeCounters_eq s j fn
  have hl : (jobFreeCounters s j fn).live = s.live := by rw [e]
  refine ⟨?_, ?_, ?_, fun x => ?_, ?_⟩
  · rw [jobFreeRelease_eq, jobFreeUnhash_eq, hc.jobHandlePrefix, e]
  · rw [jobFreeRelease_eq, jobFreeUnhash_eq, hc.jobHandleCount, e]
  · rw [jobFreeRelease_eq, jobFreeUnhash_eq, hc.handleLog, e]
  · rw [jobFreeRelease_field ServerJob.jobHandle (fun _ _ => ⟨rfl, rfl⟩),
      jobFreeUnhash_field ServerJob.jobHandle (fun _ _ => ⟨rfl, rfl⟩) (fun _ _ => ⟨rfl, rfl⟩),
      hc.jobHandle, e]
  · rw [jobFreeRelease_eq, jobFreeUnhash_eq]
    exact (List.erase_sublist _ _).trans (hl ▸ hc.live)

theorem handlesEq_take {fuel con : Nat} {r : Option Nat}
    (h : gearmanServerJobTake fuel s con = some (s', r)) : HandlesEq s s' :=
  gearmanServerJobTake_rel HandlesEq HandlesEq.refl HandlesEq.trans
    (fun h => (frame_jobTakeHead h).2.handlesEq) handlesEq_jobFree h

theorem handlesEq_peek {fuel con : Nat} {r : Option Nat}
    (h : gearmanServerJobPeek fuel s con = some (s', r)) : HandlesEq s s' :=
  gearmanServerJobPeek_rel HandlesEq HandlesEq.refl HandlesEq.trans
    (fun h => (frame_jobTakeHead h).2.handlesEq) handlesEq_jobFree
    (fun _ _ => ClientsOnly.handlesEq (clientsOnly_modifyJob fun _ => rfl)) h

theorem handlesEq_functionGet {fs : List Nat} {fuel : Nat} {name : Bytes} {fm nm : Bool}
    {fo : Option Nat} (h : FunctionsInv s fs)
    (hg : gearmanServerFunctionGet fuel s name fm nm = some (s', fo)) : HandlesEq s s' := by
  rw [(h.get hg).1]
  exact ⟨rfl, rfl, rfl, fun _ => rfl, .refl _⟩

theorem handlesEq_jobAddHash (s : Server) (j : Nat) (key : UInt32) :
    HandlesEq s (jobAddHash s j key) :=
  ⟨rfl, rfl, rfl, jobAddHash_field ServerJob.jobHandle (fun _ _ => ⟨rfl, rfl⟩)
    (fun _ _ => ⟨rfl, rfl⟩) (fun _ _ => rfl) s j key, by rw [jobAddHash_live]⟩

theorem handlesEq_jobAddNew {fuel j fn : Nat} {fname unique : Bytes} {data : Option Bytes}
    {priority : GearmanJobPriority} {client : Option Nat} {env : AddEnv} {key : UInt32}
    {jo : Option Nat} {ret : GearmanReturn}
    (h : jobAddNew fuel s j fn fname unique data priority client env key = some (s', jo, ret)) :
    HandlesEq (jobAddFields s j fn unique data priority key) s' := by
  obtain ⟨s₄, err, hp, h⟩ := jobAddNew_cases h
  obtain ⟨s₀, -, hT, -, -, hp⟩ := jobAddPersist_cases hp
  rw [jobAddInit_eq] at hT
  have e₀ := (handlesEq_jobAddHash _ j key).trans hT.handlesEq
  rcases hp with ⟨rfl, rfl⟩ | ⟨r, rfl, hf⟩
  · rcases h with ⟨r, h, -⟩ | ⟨-, s₅, r, hq, ⟨-, -, -, hf⟩ | ⟨-, rfl, -, -⟩⟩
    · cases h
    · exact e₀.trans ((frame_jobQueue hq).2.handlesEq.trans
        ((frame_jobAddDoneLog s₅ j fn unique client).2.1.handlesEq.trans (handlesEq_jobFree hf)))
    · exact e₀.trans ((frame_jobQueue hq).2.handlesEq.trans
        (clientsOnly_jobAddClient _ _ _).handlesEq)
  · rcases h with ⟨r', -, rfl, -, -⟩ | ⟨h, -⟩
    · exact e₀.trans (handlesEq_jobFree hf)
    · cases h

end

/-! ## The handle invariant -/

structure HandleInv (s : Server) : Prop where
  log : ∃ c₀, s.handleLog = handlesFrom s.jobHandlePrefix c₀ s.handleLog.length ∧
    s.jobHandleCount.toNat = (c₀ + s.handleLog.length) % 2 ^ 32
  live : (s.live.map fun j => (s.jobs j).jobHandle).Sublist s.handleLog

section
variable {s s' : Server} {fs : List Nat} {qs : Nat → GearmanJobPriority → List Nat}

theorem HandleInv.initial (hi : Initial s) : HandleInv s := by
  refine ⟨⟨s.jobHandleCount.toNat, by rw [hi.handleLog_eq]; rfl, ?_⟩, ?_⟩
  · rw [hi.handleLog_eq, List.length_nil, Nat.add_zero]
    exact (Nat.mod_eq_of_lt s.jobHandleCount.toNat_lt_size).symm
  · rw [hi.live_eq, hi.handleLog_eq]
    exact .slnil

theorem HandleInv.handlesEq (h : HandleInv s) (he : HandlesEq s s') : HandleInv s' := by
  obtain ⟨c₀, hl, hc⟩ := h.log
  refine ⟨⟨c₀, ?_, ?_⟩, ?_⟩
  · rw [he.handleLog, he.jobHandlePrefix]
    exact hl
  · rw [he.jobHandleCount, he.handleLog]
    exact hc
  · rw [he.handleLog, List.map_congr_left fun x _ => he.jobHandle x]
    exact (he.live.map _).trans h.live

theorem HandleInv.create {ok : Bool} {s₂ : Server} {j fn : Nat} {unique : Bytes}
    {data : Option Bytes} {priority : GearmanJobPriority} {key : UInt32} (h : HandleInv s)
    (hj : j ∉ s.live) (hcr : gearmanServerJobCreate s ok = some (s₂, some j)) :
    HandleInv (jobAddFields s₂ j fn unique data priority key) := by
  obtain ⟨e₂, -, hpay⟩ := gearmanServerJobCreate_some hcr
  have hx : ∀ x ∈ s.live, (s₂.jobs x).jobHandle = (s.jobs x).jobHandle := fun x hx => by
    have e := congrArg ServerJob.jobHandle (hpay x fun e => hj (by rwa [← e]))
    exact e
  obtain ⟨c₀, hl, hc⟩ := h.log
  have hC : s.jobHandleCount = UInt32.ofNat (c₀ + s.handleLog.length) :=
    UInt32.toNat.inj (by rw [hc, toNat_ofNat])
  rw [jobAddFields_eq, e₂]
  refine ⟨⟨c₀, ?_, ?_⟩, ?_⟩
  · show formatJobHandle s.jobHandlePrefix s.jobHandleCount :: s.handleLog =
      handlesFrom s.jobHandlePrefix c₀ (s.handleLog.length + 1)
    rw [handlesFrom, ← hC, ← hl]
  · show (s.jobHandleCount + 1).toNat = (c₀ + (s.handleLog.length + 1)) % 2 ^ 32
    rw [toNat_add_one, hc]
    omega
  · show ((j :: s.live).map fun x => (Function.update s₂.jobs j _ x).jobHandle).Sublist
      (formatJobHandle s.jobHandlePrefix s.jobHandleCount :: s.handleLog)
    rw [List.map_cons, Function.update_same, List.map_congr_left fun x hm => by
      rw [Function.update_noteq fun e => hj (by rwa [← e]), hx x hm]]
    exact h.live.cons₂ _

theorem HandleInv.add {fuel : Nat} {fname unique : Bytes} {data : Option Bytes}
    {priority : GearmanJobPriority} {client : Option Nat} {env : AddEnv} {jo : Option Nat}
    {ret : GearmanReturn} (h : HandleInv s) (hb : BrokerInv s fs qs)
    (ha : gearmanServerJobAdd fuel s fname unique data priority client env = some (s', jo, ret)) :
    HandleInv s' := by
  obtain ⟨s₁, fo, hg, ha⟩ := gearmanServerJobAdd_cases ha
  have h₁ := h.handlesEq (handlesEq_functionGet hb.functions hg)
  obtain ⟨fs₁, hb₁, -, -, -, -, hfo, -⟩ := hb.functionGet hg
  rcases ha with ⟨-, rfl, -, -⟩ | ⟨fn, key, found, rfl, -, ⟨j, -, rfl, -, -⟩ |
    ⟨-, ⟨-, rfl, -, -⟩ | ⟨-, s₂, jo₂, hcr, ⟨rfl, rfl, -, -⟩ | ⟨j, rfl, hn⟩⟩⟩⟩
  · exact h₁
  · exact h₁.handlesEq (clientsOnly_jobAddClient _ _ _).handlesEq
  · exact h₁
  · rw [gearmanServerJobCreate_none hcr]
    exact h₁
  · obtain ⟨-, -, hj, -⟩ := hb₁.init unique data priority key (hfo fn rfl).1 hcr
    exact (h₁.create hj hcr).handlesEq (handlesEq_jobAddNew hn)

theorem HandleInv.exec {fuel : Nat} {op : Op} {out : Outcome} (h : HandleInv s)
    (hb : BrokerInv s fs qs) (he : op.exec fuel s = some (s', out)) : HandleInv s' := by
  cases op with
  | add n u d p c env =>
    obtain ⟨r, hr, e⟩ := Option.map_eq_some'.1 he
    cases e
    exact h.add hb hr
  | peek con =>
    obtain ⟨r, hr, e⟩ := Option.map_eq_some'.1 he
    cases e
    exact h.handlesEq (handlesEq_peek hr)
  | take con =>
    obtain ⟨r, hr, e⟩ := Option.map_eq_some'.1 he
    cases e
    exact h.handlesEq (handlesEq_take hr)
  | queue j pa =>
    obtain ⟨r, hr, e⟩ := Option.map_eq_some'.1 he
    cases e
    exact h.handlesEq (frame_jobQueue hr).2.handlesEq
  | free j =>
    obtain ⟨r, hr, e⟩ := Option.map_eq_some'.1 he
    cases e
    exact h.handlesEq (handlesEq_jobFree hr)
  | clientFree c =>
    cases he
    exact h.handlesEq (clientsOnly_clientFree s c).handlesEq

end

theorem Reachable.handleInv {ok : Server → Op → Outcome → Prop} {s : Server}
    (hr : Reachable ok s) : HandleInv s := by
  induction hr with
  | init hi => exact .initial hi
  | step _ hr' _ he _ ih =>
    obtain ⟨fs, qs, hb⟩ := hr'.brokerInv
    exact ih.exec hb he

/-! ## `gearman_server_job_get` -/

theorem HashInv.jobGet_eq {s : Server} (hh : HashInv s s.live) (h : Bytes) (fuel : Nat) :
    (∀ r, gearmanServerJobGet fuel s h = some r →
      r = s.live.find? fun j => cString (s.jobs j).jobHandle == cString h) ∧
    (s.live.length ≤ fuel → gearmanServerJobGet fuel s h =
      some (s.live.find? fun j => cString (s.jobs j).jobHandle == cString h)) := by
  set b := hashBucket (serverJobHash (cString h))
  have hch := (hh.job.bucket b).chain
  -- a live job of that handle has that key, so it is in the bucket searched
  have hfind : (bucketOf s.jobs s.live ServerJob.jobHandleKey b).find? (fun x =>
        (s.jobs x).jobHandleKey == serverJobHash (cString h) &&
          cString (s.jobs x).jobHandle == cString h) =
      s.live.find? fun j => cString (s.jobs j).jobHandle == cString h := by
    rw [bucketOf, List.find?_filter]
    refine find?_congr_of_mem fun x hx => ?_
    by_cases e : cString (s.jobs x).jobHandle = cString h
    · simp [e, hh.handle_key x hx, b]
    · simp [e]
  exact ⟨fun r hr => (chainFind_eq hch hr).trans hfind, fun hf =>
    (chainFind_of_le hch ((List.length_filter_le _ _).trans hf)).trans (congrArg some hfind)⟩

theorem HashInv.jobGet {s : Server} {j : Nat} (hh : HashInv s s.live) (hj : j ∈ s.live)
    (hu : ∀ x ∈ s.live, cString (s.jobs x).jobHandle = cString (s.jobs j).jobHandle → x = j)
    (fuel : Nat) :
    (∀ r, gearmanServerJobGet fuel s (s.jobs j).jobHandle = some r → r = some j) ∧
      (s.live.length ≤ fuel → gearmanServerJobGet fuel s (s.jobs j).jobHandle = some (some j)) := by
  have hf : (s.live.find? fun x =>
      cString (s.jobs x).jobHandle == cString (s.jobs j).jobHandle) = some j := by
    cases e : List.find? _ _ with
    | none => exact absurd (List.find?_eq_none.1 e j hj) (by simp)
    | some x => exact congrArg some (hu x (List.mem_of_find?_eq_some e)
        (by simpa using List.find?_some e))
  obtain ⟨h₁, h₂⟩ := hh.jobGet_eq (s.jobs j).jobHandle fuel
  exact ⟨fun r hr => (h₁ r hr).trans hf, fun hl => (h₂ hl).trans (congrArg some hf)⟩

section
variable {ok : Server → Op → Outcome → Prop} {s : Server}

theorem job_get_returns_live_job_of_handle (hr : Reachable ok s) (h : Bytes) (fuel : Nat) :
    (∀ r, gearmanServerJobGet fuel s h = some r →
      (r = none ↔ ∀ j ∈ s.live, cString (s.jobs j).jobHandle ≠ cString h) ∧
      ∀ j, r = some j → j ∈ s.live ∧ cString (s.jobs j).jobHandle = cString h) ∧
    (s.live.length ≤ fuel → ∃ r, gearmanServerJobGet fuel s h = some r) := by
  obtain ⟨fs, qs, hb⟩ := hr.brokerInv
  obtain ⟨h₁, h₂⟩ := hb.hash.jobGet_eq h fuel
  refine ⟨fun r hg => ?_, fun hl => ⟨_, h₂ hl⟩⟩
  rw [h₁ r hg]
  exact ⟨by simp [List.find?_eq_none], fun j hj =>
    ⟨List.mem_of_find?_eq_some hj, by simpa using List.find?_some hj⟩⟩

end

set_option maxRecDepth 2000 in
theorem job_get_first_job :
    ∃ s₁, Reachable (fun _ _ _ => True) s₁ ∧ s₁.live = [0] ∧
      (∀ r, gearmanServerJobGet 1 s₁ (s₁.jobs 0).jobHandle = some r →
        (r = none ↔ ∀ j ∈ s₁.live, cString (s₁.jobs j).jobHandle ≠
          cString (s₁.jobs 0).jobHandle) ∧
        ∀ j, r = some j → j ∈ s₁.live ∧
          cString (s₁.jobs j).jobHandle = cString (s₁.jobs 0).jobHandle) ∧
      (s₁.live.length ≤ 1 → ∃ r, gearmanServerJobGet 1 s₁ (s₁.jobs 0).jobHandle = some r) :=
  have hr := Reachable.add (.init initial_empty)
    (rfl : gearmanServerJobAdd 1 {} [102] [97] none .normal none {} = some (_, some 0, .success))
    (fun _ h => by cases h) trivial
  ⟨_, hr, rfl, job_get_returns_live_job_of_handle hr _ 1⟩

/-! ## Distinct handles -/

/-- The handles made in a run are pairwise different, no two live jobs share one, and
`gearman_server_job_get` of a live job's handle returns that job, given enough turns. -/
def HandlesDistinct (s : Server) : Prop :=
  s.handleLog.Nodup ∧
    (∀ j ∈ s.live, ∀ j' ∈ s.live, (s.jobs j).jobHandle = (s.jobs j').jobHandle → j = j') ∧
    ∀ j ∈ s.live, ∀ fuel,
      (∀ r, gearmanServerJobGet fuel s (s.jobs j).jobHandle = some r → r = some j) ∧
      (s.live.length ≤ fuel → gearmanServerJobGet fuel s (s.jobs j).jobHandle = some (some j))

theorem job_handles_distinct {ok : Server → Op → Outcome → Prop} {s : Server}
    (hr : Reachable ok s) (hp : (cString s.jobHandlePrefix).length ≤ 52)
    (hn : s.handleLog.length ≤ 2 ^ 32) : HandlesDistinct s := by
  have h := hr.handleInv
  obtain ⟨fs, qs, hb⟩ := hr.brokerInv
  obtain ⟨c₀, hl, -⟩ := h.log
  have hnd : s.handleLog.Nodup := by
    rw [hl]
    exact handlesFrom_nodup hp c₀ hn
  have hinj := List.inj_on_of_nodup_map (hnd.sublist h.live)
  have hcs : ∀ x ∈ s.live, cString (s.jobs x).jobHandle = (s.jobs x).jobHandle := fun x hx => by
    have hm : (s.jobs x).jobHandle ∈ s.handleLog := h.live.subset (List.mem_map_of_mem _ hx)
    rw [hl] at hm
    obtain ⟨k, -, e⟩ := mem_handlesFrom hm
    rw [e, cString_formatJobHandle]
  refine ⟨hnd, fun j hj j' hj' e => hinj hj hj' e, fun j hj => hb.hash.jobGet hj fun x hx e => ?_⟩
  rw [hcs x hx, hcs j hj] at e
  exact hinj hx hj e

set_option maxRecDepth 2000 in
theorem job_handles_distinct_two_jobs :
    ∃ s₂, Reachable (fun _ _ _ => True) s₂ ∧ s₂.live = [1, 0] ∧
      (s₂.jobs 0).jobHandle ≠ (s₂.jobs 1).jobHandle ∧ (cString s₂.jobHandlePrefix).length ≤ 52 ∧
      s₂.handleLog.length ≤ 2 ^ 32 ∧ HandlesDistinct s₂ :=
  have hr₁ := Reachable.add (.init (initial_empty.withConfig false [72] false false false))
    (rfl : gearmanServerJobAdd 1 { jobHandlePrefix := [72] } [102] [97] none .normal none {} =
      some (_, some 0, .success)) (fun _ h => by cases h) trivial
  have hr₂ := Reachable.add hr₁
    (rfl : gearmanServerJobAdd 1 _ [102] [98] none .normal none {} = _)
    (fun _ h => by cases h) trivial
  ⟨_, hr₂, by decide, by decide, by decide, by decide, job_handles_distinct hr₂ (by decide) (by decide)⟩

set_option maxRecDepth 2000 in
/-- With a 62-byte prefix the counter digits are cut off: two jobs get the same handle, and
`gearman_server_job_get` of the first one's handle returns the second. -/
theorem job_handles_collide_long_prefix :
    ∃ s₁ s₂, gearmanServerJobAdd 1 { jobHandlePrefix := List.replicate 62 97 } [102] [97] none
        .normal none {} = some (s₁, some 0, .success) ∧
      gearmanServerJobAdd 1 s₁ [102] [98] none .normal none {} = some (s₂, some 1, .success) ∧
      Reachable (fun _ _ _ => True) s₂ ∧ (cString s₂.jobHandlePrefix).length = 62 ∧
      s₂.live = [1, 0] ∧ (s₂.jobs 0).jobHandle = (s₂.jobs 1).jobHandle ∧
      gearmanServerJobGet 2 s₂ (s₂.jobs 0).jobHandle = some (some 1) :=
  have e₁ : gearmanServerJobAdd 1 { jobHandlePrefix := List.replicate 62 97 } [102] [97] none
      .normal none {} = some (_, some 0, .success) := rfl
  have hr₁ := Reachable.add (.init (initial_empty.withConfig false _ false false false)) e₁ (fun _ h => by cases h) trivial
  have hr₂ := Reachable.add hr₁
    (rfl : gearmanServerJobAdd 1 _ [102] [98] none .normal none {} = _) (fun _ h => by cases h)
    trivial
  ⟨_, _, e₁, rfl, hr₂, by decide, by decide, by decide, by decide⟩

end GearmanServer
