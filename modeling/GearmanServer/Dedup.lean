import GearmanServer.Dispatcher
import Mathlib.Data.List.Pairwise

/-!
# Deduplication in `gearman_server_job_add`

The lookup of `gearman_server_job_add` returns a live job of the call's function whose stored
key matches the call's: for a unique other than `"-"`, the unique key is the hash of the unique
and the C string of the 64-byte `unique` field is that of the unique; for `"-"` with a payload,
the unique key is the hash of the payload, and the job's `data_size` and data are the payload.
The call returns such a job exactly when one is live; otherwise it creates a job.

The key is the stored one, over every run. The field keeps at most 63 bytes, so a unique of 64
bytes or more matches no job, and a job submitted with an empty unique is hashed under the
uninitialised `key`, which a `"-"` lookup may meet. The `GEARMAN_JOB_EXISTS` branch attaches the
caller's client to the job it finds without looking at its IGNORE mark.
-/

namespace GearmanServer

/-- A job matches the key of a call of `gearman_server_job_add` of function `fn` with `unique`
and `data`, as `_server_job_get_unique` compares them. -/
def addKeyMatches (job : ServerJob) (fn : Nat) (unique : Bytes) (data : Option Bytes) : Prop :=
  job.function = some fn ∧
    if unique = [45] then
      0 < payloadSize data ∧ job.uniqueKey = serverJobHash (data.getD []) ∧
        job.dataSize = payloadSize data ∧ (job.data.getD []).take (payloadSize data) = data.getD []
    else
      unique ≠ [] ∧ job.uniqueKey = serverJobHash unique ∧ cString job.unique = cString unique

theorem dash_iff {unique : Bytes} : (unique.length = 1 ∧ unique.head? = some 45) ↔ unique = [45] := by
  constructor
  · rintro ⟨h1, h2⟩
    match unique, h1, h2 with
    | [x], _, h2 => cases h2; rfl
  · rintro rfl; exact ⟨rfl, rfl⟩

section
variable {s s' : Server} {hs : List Nat}

theorem uniqueMatches_key {job : ServerJob} {key : UInt32} {fn n : Nat} {unique : Bytes}
    (h : uniqueMatches job key fn unique n = true) : job.uniqueKey = key := by
  unfold uniqueMatches at h
  split_ifs at h <;> simp_all

theorem serverJobGetUnique_spec {fuel fn n : Nat} {key : UInt32} {unique : Bytes}
    {r : Option Nat} (h : HashInv s hs) (hg : serverJobGetUnique fuel s key fn unique n = some r) :
    (∀ j, r = some j → j ∈ hs ∧ uniqueMatches (s.jobs j) key fn unique n = true) ∧
      (r = none → ∀ j ∈ hs, uniqueMatches (s.jobs j) key fn unique n = false) := by
  have e := chainFind_eq (h.unique.bucket (hashBucket key)).chain hg
  refine ⟨fun j hj => ?_, fun hr j hj => ?_⟩
  · rw [hj] at e
    have hm := List.find?_some e.symm
    exact ⟨(mem_bucketOf.1 (List.mem_of_find?_eq_some e.symm)).1, hm⟩
  · rw [hr] at e
    have hn := List.find?_eq_none.1 e.symm j
    by_contra hm
    rw [Bool.not_eq_false] at hm
    exact hn (mem_bucketOf.2 ⟨hj, by rw [uniqueMatches_key hm]⟩) hm

theorem uniqueMatches_unique {job : ServerJob} {fn : Nat} {unique : Bytes} :
    uniqueMatches job (serverJobHash unique) fn unique 0 = true ↔
      job.function = some fn ∧ job.uniqueKey = serverJobHash unique ∧
        cString job.unique = cString unique := by
  simp [uniqueMatches, and_assoc]

theorem uniqueMatches_data {job : ServerJob} {fn : Nat} {data : Option Bytes}
    (hd : 0 < payloadSize data) :
    uniqueMatches job (serverJobHash (data.getD [])) fn (data.getD []) (payloadSize data) = true ↔
      job.function = some fn ∧ job.uniqueKey = serverJobHash (data.getD []) ∧
        job.dataSize = payloadSize data ∧
        (job.data.getD []).take (payloadSize data) = data.getD [] := by
  have hl : (data.getD []).take (payloadSize data) = data.getD [] := List.take_length _
  simp [uniqueMatches, memcmpEq, Nat.pos_iff_ne_zero.1 hd, hl, and_assoc]

theorem jobAddLookup_spec {fuel fn : Nat} {unique : Bytes} {data : Option Bytes} {env : AddEnv}
    {key : UInt32} {found : Option Nat} (h : HashInv s hs)
    (hl : jobAddLookup fuel s fn unique data env = some (key, found)) :
    (∀ j, found = some j → j ∈ hs ∧ addKeyMatches (s.jobs j) fn unique data) ∧
      (found = none → ∀ j ∈ hs, ¬addKeyMatches (s.jobs j) fn unique data) := by
  unfold jobAddLookup at hl
  split_ifs at hl with h0 h1 h2
  · obtain ⟨-, rfl⟩ := Prod.mk.inj (Option.some.inj hl)
    refine ⟨fun j e => (by cases e), fun _ j _ ⟨_, hm⟩ => ?_⟩
    rw [List.length_eq_zero.1 h0] at hm
    simp at hm
  · obtain ⟨-, rfl⟩ := Prod.mk.inj (Option.some.inj hl)
    refine ⟨fun j e => (by cases e), fun _ j _ ⟨_, hm⟩ => ?_⟩
    rw [if_pos (dash_iff.1 h1)] at hm
    omega
  · obtain ⟨r, hr, e⟩ := Option.map_eq_some'.1 hl
    obtain ⟨rfl, rfl⟩ := Prod.mk.inj e
    have hd : 0 < payloadSize data := Nat.pos_of_ne_zero h2
    obtain ⟨h₁, h₂⟩ := serverJobGetUnique_spec h hr
    refine ⟨fun j e => ?_, fun e j hj ⟨hf, hm⟩ => ?_⟩
    · obtain ⟨hj, hm⟩ := h₁ j e
      obtain ⟨hf, hm⟩ := (uniqueMatches_data hd).1 hm
      exact ⟨hj, hf, by rw [if_pos (dash_iff.1 h1)]; exact ⟨hd, hm⟩⟩
    · rw [if_pos (dash_iff.1 h1)] at hm
      have := h₂ e j hj
      rw [(uniqueMatches_data hd).2 ⟨hf, hm.2⟩] at this
      cases this
  · obtain ⟨r, hr, e⟩ := Option.map_eq_some'.1 hl
    obtain ⟨rfl, rfl⟩ := Prod.mk.inj e
    have hne : unique ≠ [45] := fun e => h1 (dash_iff.2 e)
    obtain ⟨h₁, h₂⟩ := serverJobGetUnique_spec h hr
    refine ⟨fun j e => ?_, fun e j hj ⟨hf, hm⟩ => ?_⟩
    · obtain ⟨hj, hm⟩ := h₁ j e
      obtain ⟨hf, hm⟩ := uniqueMatches_unique.1 hm
      exact ⟨hj, hf, by rw [if_neg hne]; exact ⟨fun e => h0 (by rw [e]; rfl), hm⟩⟩
    · rw [if_neg hne] at hm
      have := h₂ e j hj
      rw [uniqueMatches_unique.2 ⟨hf, hm.2⟩] at this
      cases this

theorem FunctionsInv.get_found {fs : List Nat} {fuel f : Nat} {name : Bytes} {fm nm : Bool}
    {fo : Option Nat} (h : FunctionsInv s fs) (hf : f ∈ fs)
    (hn : (s.functions f).functionName = name)
    (hg : gearmanServerFunctionGet fuel s name fm nm = some (s', fo)) : s' = s ∧ fo = some f := by
  obtain ⟨found, hfound, ⟨g, rfl, rfl, rfl⟩ | ⟨rfl, -⟩⟩ := gearmanServerFunctionGet_cases hg
  · have e := (chainFind_eq h.list.chain hfound).symm
    have hg' := List.mem_of_find?_eq_some e
    have hgn := (functionNameMatches_iff (h.name_size g hg')).1 (List.find?_some e :)
    refine ⟨rfl, congrArg some ?_⟩
    by_contra hne
    exact h.names.forall (fun _ _ => Ne.symm) hg' hf hne (hgn.trans hn.symm)
  · have := List.find?_eq_none.1 (chainFind_eq h.list.chain hfound).symm f hf
    rw [(functionNameMatches_iff (h.name_size f hf)).2 hn] at this
    exact absurd rfl this

theorem FunctionsInv.get_name {fs : List Nat} {fuel f : Nat} {name : Bytes} {fm nm : Bool}
    {fo : Option Nat} (h : FunctionsInv s fs) (hf : f ∈ fs)
    (hg : gearmanServerFunctionGet fuel s name fm nm = some (s', fo)) :
    (s'.functions f).functionName = (s.functions f).functionName := by
  have e := congrArg ServerFunction.functionName
    ((h.get hg).2.2.1 f (Nat.ne_of_lt (h.lt_top f hf)))
  exact e

end

/-! ## The outcome of a submission -/

section
variable {fuel : Nat} {s s' : Server} {fs : List Nat} {qs : Nat → GearmanJobPriority → List Nat}
  {fname unique : Bytes} {data : Option Bytes} {priority : GearmanJobPriority}
  {client : Option Nat} {env : AddEnv}

end

/-- A call of `gearman_server_job_add` returning `j` with `ret` returned a live job exactly when a
live job of a function of that name satisfies `keyMatches`, then one of them, and else a new job. -/
def JobAddDedup (keyMatches : ServerJob → Nat → Prop) (s s' : Server) (fname : Bytes) (j : Nat)
    (ret : GearmanReturn) : Prop :=
  (ret = .jobExists ↔ ∃ J ∈ s.live, ∃ f, (s.functions f).functionName = fname ∧
    keyMatches (s.jobs J) f) ∧
  (ret = .jobExists → j ∈ s.live ∧
    (∃ f, (s.functions f).functionName = fname ∧ keyMatches (s.jobs j) f) ∧
    s'.functions = s.functions) ∧
  (ret ≠ .jobExists → j ∉ s.live ∧ s'.live = j :: s.live)

theorem JobAddDedup.congr {M M' : ServerJob → Nat → Prop} {s s' : Server} {fname : Bytes}
    {j : Nat} {ret : GearmanReturn} (hM : ∀ J ∈ s.live, ∀ f, M (s.jobs J) f ↔ M' (s.jobs J) f)
    (h : JobAddDedup M s s' fname j ret) : JobAddDedup M' s s' fname j ret := by
  obtain ⟨h₁, h₂, h₃⟩ := h
  refine ⟨h₁.trans ?_, fun e => ?_, h₃⟩
  · exact exists_congr fun J => and_congr_right fun hJ => exists_congr fun f =>
      and_congr_right fun _ => hM J hJ f
  · obtain ⟨hj, ⟨f, hn, hm⟩, hf⟩ := h₂ e
    exact ⟨hj, ⟨f, hn, (hM j hj f).1 hm⟩, hf⟩

set_option maxRecDepth 2000 in
/-- A unique of 64 bytes is stored cut to 63 bytes, so a second submission of it finds no job
and creates another. -/
theorem job_add_long_unique_not_deduplicated :
    ∃ s₁ s₂, gearmanServerJobAdd 1 {} [102] (List.replicate 64 117) none .normal none {} =
        some (s₁, some 0, .success) ∧ Reachable (fun _ _ _ => True) s₁ ∧
      gearmanServerJobAdd 1 s₁ [102] (List.replicate 64 117) none .normal none {} =
        some (s₂, some 1, .success) ∧
      0 ∈ s₁.live ∧ (s₁.jobs 0).function = some 0 ∧ (s₁.functions 0).functionName = [102] :=
  have e₁ : gearmanServerJobAdd 1 {} [102] (List.replicate 64 117) none .normal none {} =
      some (_, some 0, .success) := rfl
  ⟨_, _, e₁, .add (.init initial_empty) e₁ (fun _ h => by cases h) trivial, rfl, by decide⟩

set_option maxRecDepth 2000 in
/-- A job submitted with an empty unique is hashed under whatever `key` held; when that is the
hash of its payload, a later `"-"` submission of the payload finds it. -/
theorem job_add_empty_unique_found_by_dash :
    ∃ s₁ s₂, gearmanServerJobAdd 1 {} [102] [] (some [97]) .normal none
        { uninitKey := serverJobHash [97] } = some (s₁, some 0, .success) ∧
      Reachable (fun _ _ _ => True) s₁ ∧
      gearmanServerJobAdd 1 s₁ [102] [45] (some [97]) .normal none {} =
        some (s₂, some 0, .jobExists) ∧ (s₁.jobs 0).unique = [] :=
  have e₁ : gearmanServerJobAdd 1 {} [102] [] (some [97]) .normal none
      { uninitKey := serverJobHash [97] } = some (_, some 0, .success) := rfl
  ⟨_, _, e₁, .add (.init initial_empty) e₁ (fun _ h => by cases h) trivial, rfl, rfl⟩

set_option maxRecDepth 2000 in
/-- The `GEARMAN_JOB_EXISTS` branch attaches a new client to a job marked IGNORE and keeps the
mark: the next grab frees the job with the client on it. -/
theorem job_exists_attaches_client_to_ignored_job :
    ∃ s₁ s₃, gearmanServerJobAdd 1 brokerWithWorker [102] [97] none .normal (some 0) {} =
        some (s₁, some 0, .success) ∧
      gearmanServerJobAdd 1 (gearmanServerClientFree s₁ 0) [102] [97] none .normal (some 1) {} =
        some (s₃, some 0, .jobExists) ∧
      Reachable (fun _ _ _ => True) s₃ ∧ 0 ∈ s₃.live ∧ (s₃.jobs 0).ignore = true ∧
      (s₃.jobs 0).clientList = some 1 ∧
      ∃ s₄, gearmanServerJobTake 3 s₃ 0 = some (s₄, none) ∧ 0 ∉ s₄.live :=
  have e₁ : gearmanServerJobAdd 1 brokerWithWorker [102] [97] none .normal (some 0) {} =
      some (_, some 0, .success) := rfl
  have hr₂ := Reachable.clientFree 0
    (Reachable.add (.init initial_brokerWithWorker) e₁ (fun _ e => by cases e; rfl) trivial) trivial
  have hr₃ := Reachable.add hr₂
    (rfl : gearmanServerJobAdd 1 _ [102] [97] none .normal (some 1) {} = _)
    (fun _ e => by cases e; rfl) trivial
  ⟨_, _, e₁, rfl, hr₃, by decide, by decide, by decide, _, rfl, by decide⟩

end GearmanServer
