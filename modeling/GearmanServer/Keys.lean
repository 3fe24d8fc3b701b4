import GearmanServer.Persist
import GearmanServer.Format

/-!
# The keys of the live jobs

`gearman_server_job_add` writes the unique, the unique key, the data and `data_size` of a job
when it creates it, and no call writes them again while the job is live. So in a run whose
submissions carry uniques that the 64-byte field holds whole, every live job holds the unique it
was submitted with, under the key the lookup computes from it: the hash of the unique, or of the
data for `"-"`. A later lookup then finds a job exactly when it was submitted with the call's
unique, or, for `"-"`, with the call's data and a unique that hashes like that data.
-/

namespace GearmanServer

def ServerJob.keyFields (job : ServerJob) : Bytes × UInt32 × Option Bytes × Nat :=
  (job.unique, job.uniqueKey, job.data, job.dataSize)

/-- The key lines 70–89 compute for a non-empty unique: the hash of the data for `"-"`, 0 when
it has none, and else the hash of the unique. -/
def uniqueKeyOf (unique : Bytes) (data : Option Bytes) : UInt32 :=
  if unique = [45] then (if payloadSize data = 0 then 0 else serverJobHash (data.getD []))
  else serverJobHash unique

theorem jobAddLookup_key {fuel fn : Nat} {s : Server} {unique : Bytes} {data : Option Bytes}
    {env : AddEnv} {key : UInt32} {found : Option Nat}
    (h : jobAddLookup fuel s fn unique data env = some (key, found)) (hu : unique ≠ []) :
    key = uniqueKeyOf unique data := by
  unfold jobAddLookup at h
  split_ifs at h with h0 h1 h2
  · exact absurd (List.length_eq_zero.1 h0) hu
  · cases h
    unfold uniqueKeyOf
    rw [if_pos (dash_iff.1 h1), if_pos h2]
  · obtain ⟨r, -, e⟩ := Option.map_eq_some'.1 h
    obtain ⟨rfl, -⟩ := Prod.mk.inj e
    unfold uniqueKeyOf
    rw [if_pos (dash_iff.1 h1), if_neg h2]
  · obtain ⟨r, -, e⟩ := Option.map_eq_some'.1 h
    obtain ⟨rfl, -⟩ := Prod.mk.inj e
    unfold uniqueKeyOf
    rw [if_neg fun e => h1 (dash_iff.2 e)]

theorem jobAddInit_keyFields (s : Server) (j fn : Nat) (unique : Bytes) (data : Option Bytes)
    (priority : GearmanJobPriority) (key : UInt32) (x : Nat) :
    ((jobAddInit s j fn unique data priority key).jobs x).keyFields =
      if x = j then (formatUnique unique, key, data, payloadSize data)
      else (s.jobs x).keyFields := by
  rw [jobAddInit_eq, jobAddHash_field ServerJob.keyFields (fun _ _ => ⟨rfl, rfl⟩)
    (fun _ _ => ⟨rfl, rfl⟩) (fun _ _ => rfl)]
  simp only [jobAddFields_eq, Function.update_apply]
  split_ifs <;> rfl

/-! ## What each call writes to the keys -/

def KeysEq (s s' : Server) : Prop :=
  ∀ x ∈ s'.live, x ∈ s.live ∧ (s'.jobs x).keyFields = (s.jobs x).keyFields

section
variable {s s' s'' : Server}

theorem KeysEq.refl (s : Server) : KeysEq s s := fun _ hx => ⟨hx, rfl⟩

theorem KeysEq.trans (h : KeysEq s s') (h' : KeysEq s' s'') : KeysEq s s'' := fun x hx =>
  have ⟨hx', e'⟩ := h' x hx
  have ⟨hx'', e⟩ := h x hx'
  ⟨hx'', e'.trans e⟩

theorem keysEq_of_jobs (hl : ∀ x ∈ s'.live, x ∈ s.live)
    (hj : ∀ x, (s'.jobs x).keyFields = (s.jobs x).keyFields) : KeysEq s s' :=
  fun x hx => ⟨hl x hx, hj x⟩

theorem ClientsOnly.keysEq (h : ClientsOnly s s') : KeysEq s s' :=
  keysEq_of_jobs (fun x hx => by rwa [h.eq] at hx) fun x => (congrArg ServerJob.keyFields (h.jobs x) :)

theorem jobFree_keys {fuel j : Nat} (h : gearmanServerJobFree fuel s j = some s') :
    s'.live = s.live.erase j ∧ ∀ x, (s'.jobs x).keyFields = (s.jobs x).keyFields := by
  obtain ⟨fn, s₁, -, h₁, rfl⟩ := gearmanServerJobFree_eq_some.1 h
  have hc := clientsOnly_freeClientList h₁
  have e := jobFreeCounters_eq s j fn
  have hl : s₁.live = s.live := by rw [hc.eq, e]
  refine ⟨by rw [jobFreeRelease_eq, jobFreeUnhash_eq, hl], fun x => ?_⟩
  rw [jobFreeRelease_field ServerJob.keyFields (fun _ _ => ⟨rfl, rfl⟩),
    jobFreeUnhash_field ServerJob.keyFields (fun _ _ => ⟨rfl, rfl⟩) (fun _ _ => ⟨rfl, rfl⟩)]
  have ex := congrArg ServerJob.keyFields (hc.jobs x)
  rwa [e] at ex

theorem keysEq_jobFree {fuel j : Nat} (h : gearmanServerJobFree fuel s j = some s') :
    KeysEq s s' :=
  have ⟨hl, hk⟩ := jobFree_keys h
  keysEq_of_jobs (fun _ hx => List.mem_of_mem_erase (hl ▸ hx)) hk

theorem keysEq_jobTakeHead {w j : Nat} {p : GearmanJobPriority} (h : jobTakeHead s w j p = some s') :
    KeysEq s s' := by
  obtain ⟨fn, -, rfl⟩ := jobTakeHead_eq_some.1 h
  refine keysEq_of_jobs (fun _ hx => hx) fun x => ?_
  simp only [Function.update_apply]
  split_ifs with e
  · exact e ▸ rfl
  · rfl

theorem keysEq_take {fuel con : Nat} {r : Option Nat}
    (h : gearmanServerJobTake fuel s con = some (s', r)) : KeysEq s s' :=
  gearmanServerJobTake_rel KeysEq KeysEq.refl KeysEq.trans keysEq_jobTakeHead keysEq_jobFree h

theorem keysEq_peek {fuel con : Nat} {r : Option Nat}
    (h : gearmanServerJobPeek fuel s con = some (s', r)) : KeysEq s s' :=
  gearmanServerJobPeek_rel KeysEq KeysEq.refl KeysEq.trans keysEq_jobTakeHead keysEq_jobFree
    (fun _ _ => ClientsOnly.keysEq (clientsOnly_modifyJob fun _ => rfl)) h

theorem keysEq_queue {fuel j : Nat} {packetAdd : Nat → GearmanReturn} {r : GearmanReturn}
    (h : gearmanServerJobQueue fuel s j packetAdd = some (s', r)) : KeysEq s s' :=
  keysEq_of_jobs (fun _ hx => (frame_jobQueue h).2.live ▸ hx)
    (jobQueue_field ServerJob.keyFields (fun _ _ _ _ _ => rfl) h)

theorem keysEq_jobAddPersist {fuel j : Nat} {fname unique : Bytes} {data : Option Bytes}
    {priority : GearmanJobPriority} {client : Option Nat} {env : AddEnv}
    {err : Option GearmanReturn} (hnd : s.live.Nodup)
    (h : jobAddPersist fuel s j fname unique data priority client env = some (s', err)) :
    KeysEq s s' := by
  have ha : ∀ (t : Server) (r : GearmanReturn), jobAddAbort fuel t j r = some (s', err) →
      t.live = s.live → (∀ x, (t.jobs x).keyFields = (s.jobs x).keyFields) → KeysEq s s' :=
    fun t r h hl hk x hx => by
    obtain ⟨s₁, h₁, e⟩ := Option.map_eq_some'.1 h
    cases e
    obtain ⟨hl₁, hk₁⟩ := jobFree_keys h₁
    rw [hl₁, Server.modifyJob_live, hl, hnd.mem_erase_iff] at hx
    refine ⟨hx.2, ?_⟩
    rw [hk₁, Server.modifyJob_jobs, if_neg hx.1, hk]
  unfold jobAddPersist at h
  dsimp only at h
  -- each branch aborts, marks the job queued, or leaves the server as it is
  split_ifs at h <;> first
    | exact ha _ _ h rfl fun _ => rfl
    | cases h; exact keysEq_of_jobs (fun _ hx => hx) (Server.modifyJob_field _ fun _ => rfl)
    | cases h; exact .refl s

theorem keysEq_jobAddDoneLog (s : Server) (j fn : Nat) (unique : Bytes) (client : Option Nat) :
    KeysEq s (jobAddDoneLog s j fn unique client) := by
  unfold jobAddDoneLog
  split_ifs
  · exact keysEq_of_jobs (fun _ hx => hx) fun _ => rfl
  · exact .refl s

theorem keysEq_jobAddNew {fuel j fn : Nat} {fname unique : Bytes} {data : Option Bytes}
    {priority : GearmanJobPriority} {client : Option Nat} {env : AddEnv} {key : UInt32}
    {jo : Option Nat} {ret : GearmanReturn}
    (hnd : (jobAddInit s j fn unique data priority key).live.Nodup)
    (h : jobAddNew fuel s j fn fname unique data priority client env key = some (s', jo, ret)) :
    KeysEq (jobAddInit s j fn unique data priority key) s' := by
  obtain ⟨s₄, err, hp, h⟩ := jobAddNew_cases h
  have e₄ := keysEq_jobAddPersist hnd hp
  rcases h with ⟨r, -, rfl, -, -⟩ | ⟨-, s₅, r, hq, ⟨-, -, -, hf⟩ | ⟨-, rfl, -, -⟩⟩
  · exact e₄
  · exact e₄.trans ((keysEq_queue hq).trans
      ((keysEq_jobAddDoneLog s₅ j fn unique client).trans (keysEq_jobFree hf)))
  · exact e₄.trans ((keysEq_queue hq).trans (clientsOnly_jobAddClient _ _ _).keysEq)

end

section
variable {s s' : Server} {fs : List Nat} {qs : Nat → GearmanJobPriority → List Nat} {fuel : Nat}

theorem BrokerInv.add_keys {fname unique : Bytes} {data : Option Bytes}
    {priority : GearmanJobPriority} {client : Option Nat} {env : AddEnv} {jo : Option Nat}
    {ret : GearmanReturn} (h : BrokerInv s fs qs)
    (ha : gearmanServerJobAdd fuel s fname unique data priority client env = some (s', jo, ret)) :
    ∀ x ∈ s'.live, (x ∈ s.live ∧ (s'.jobs x).keyFields = (s.jobs x).keyFields) ∨
      ∃ key, (unique ≠ [] → key = uniqueKeyOf unique data) ∧
        (s'.jobs x).keyFields = (formatUnique unique, key, data, payloadSize data) := by
  obtain ⟨s₁, fo, hg, ha⟩ := gearmanServerJobAdd_cases ha
  have e₁ : KeysEq s s₁ := by
    rw [(h.functions.get hg).1]
    exact .refl s
  obtain ⟨fs₁, h₁, -, -, -, -, hfo, -⟩ := h.functionGet hg
  rcases ha with ⟨-, rfl, -, -⟩ | ⟨fn, key, found, rfl, hlk, ⟨j, -, rfl, -, -⟩ |
    ⟨-, ⟨-, rfl, -, -⟩ | ⟨-, s₂, jo₂, hcr, ⟨rfl, rfl, -, -⟩ | ⟨j, rfl, hn⟩⟩⟩⟩
  · exact fun x hx => .inl (e₁ x hx)
  · exact fun x hx => .inl ((e₁.trans (clientsOnly_jobAddClient _ _ _).keysEq) x hx)
  · exact fun x hx => .inl (e₁ x hx)
  · rw [gearmanServerJobCreate_none hcr]
    exact fun x hx => .inl (e₁ x hx)
  obtain ⟨h₃, -, hj, hl₃, -⟩ := h₁.init unique data priority key (hfo fn rfl).1 hcr
  obtain ⟨-, -, hpay⟩ := gearmanServerJobCreate_some hcr
  intro x hx
  obtain ⟨hx₃, ex⟩ := keysEq_jobAddNew h₃.hash.nodup hn x hx
  rw [ex, jobAddInit_keyFields]
  rw [hl₃] at hx₃
  rcases List.mem_cons.1 hx₃ with rfl | hx₁
  · exact .inr ⟨key, jobAddLookup_key hlk, if_pos rfl⟩
  · have hxj : x ≠ j := fun e => hj (e ▸ hx₁)
    obtain ⟨hx, e⟩ := e₁ x hx₁
    rw [if_neg hxj, ← e]
    have ep := congrArg ServerJob.keyFields (hpay x hxj)
    exact .inl ⟨hx, ep⟩

theorem BrokerInv.exec_keys {op : Op} {out : Outcome} (h : BrokerInv s fs qs)
    (he : op.exec fuel s = some (s', out)) :
    ∀ x ∈ s'.live, (x ∈ s.live ∧ (s'.jobs x).keyFields = (s.jobs x).keyFields) ∨
      ∃ n u d p c env key, op = .add n u d p c env ∧ (u ≠ [] → key = uniqueKeyOf u d) ∧
        (s'.jobs x).keyFields = (formatUnique u, key, d, payloadSize d) := by
  cases op with
  | clientFree c =>
    cases he
    exact fun x hx => .inl ((clientsOnly_clientFree s c).keysEq x hx)
  | add n u d p c env =>
    obtain ⟨r, hr, e⟩ := Option.map_eq_some'.1 he
    cases e
    exact fun x hx => (h.add_keys hr x hx).imp id
      fun ⟨key, hk, e⟩ => ⟨n, u, d, p, c, env, key, rfl, hk, e⟩
  | _ =>
    obtain ⟨r, hr, e⟩ := Option.map_eq_some'.1 he
    cases e
    refine fun x hx => .inl ?_
    first
    | exact keysEq_peek hr x hx
    | exact keysEq_take hr x hx
    | exact keysEq_queue hr x hx
    | exact keysEq_jobFree hr x hx

end

/-! ## Runs whose uniques fit the field -/

/-- A unique the 64-byte field holds whole: non-empty, shorter than the field and without NUL,
as the protocol's NUL-terminated arguments carry it. -/
def UniqueFits (unique : Bytes) : Prop :=
  unique ≠ [] ∧ unique.length < gearmanUniqueSize ∧ (0 : UInt8) ∉ unique

instance : DecidablePred UniqueFits := fun _ => inferInstanceAs (Decidable (_ ∧ _ ∧ _))

/-- Every submission carries a unique that fits. -/
def FitUniques (_ : Server) (op : Op) (_ : Outcome) : Prop :=
  match op with
  | .add _ unique _ _ _ _ => UniqueFits unique
  | _ => True

instance (s : Server) (op : Op) (out : Outcome) : Decidable (FitUniques s op out) :=
  match op with
  | .add _ unique _ _ _ _ => inferInstanceAs (Decidable (UniqueFits unique))
  | .peek _ | .take _ | .queue _ _ | .free _ | .clientFree _ => isTrue trivial

def ServerJob.Keyed (job : ServerJob) : Prop :=
  job.dataSize = payloadSize job.data ∧
    (job.unique ≠ [] → job.uniqueKey = uniqueKeyOf job.unique job.data)

theorem ServerJob.Keyed.of_keyFields {a b : ServerJob} (e : a.keyFields = b.keyFields)
    (h : b.Keyed) : a.Keyed := by
  simp only [ServerJob.keyFields, Prod.mk.injEq] at e
  obtain ⟨e₁, e₂, e₃, e₄⟩ := e
  rw [ServerJob.Keyed, e₁, e₂, e₃, e₄]
  exact h

theorem ServerJob.keyed_of_new {job : ServerJob} {unique : Bytes} {key : UInt32}
    {data : Option Bytes} (hf : formatUnique unique = unique)
    (hk : unique ≠ [] → key = uniqueKeyOf unique data)
    (e : job.keyFields = (formatUnique unique, key, data, payloadSize data)) : job.Keyed := by
  simp only [ServerJob.keyFields, Prod.mk.injEq, hf] at e
  obtain ⟨e₁, e₂, e₃, e₄⟩ := e
  rw [ServerJob.Keyed, e₁, e₂, e₃, e₄]
  exact ⟨rfl, hk⟩

def KeyInv (s : Server) : Prop :=
  ∀ J ∈ s.live, UniqueFits (s.jobs J).unique ∧ (s.jobs J).Keyed

section
variable {s s' : Server} {fs : List Nat} {qs : Nat → GearmanJobPriority → List Nat} {fuel : Nat}
  {op : Op} {out : Outcome}

theorem KeyInv.exec (hk : KeyInv s) (h : BrokerInv s fs qs) (he : op.exec fuel s = some (s', out))
    (hok : FitUniques s op out) : KeyInv s' := fun x hx => by
  rcases h.exec_keys he x hx with ⟨hx', e⟩ | ⟨n, u, d, p, c, env, key, rfl, hkey, e⟩
  · obtain ⟨hf, hkd⟩ := hk x hx'
    have eu : (s'.jobs x).unique = (s.jobs x).unique := congrArg Prod.fst e
    exact ⟨eu ▸ hf, hkd.of_keyFields e⟩
  · have hfu := formatUnique_of_valid hok.2.1 hok.2.2
    have eu : (s'.jobs x).unique = u := (congrArg Prod.fst e).trans hfu
    exact ⟨eu ▸ hok, ServerJob.keyed_of_new hfu hkey e⟩

end

theorem eq_of_getD_eq {a b : Option Bytes} (h : a.getD [] = b.getD []) (hb : 0 < payloadSize b) :
    a = b := by
  cases a <;> cases b <;> simp_all [payloadSize]

theorem ServerJob.Keyed.dash_match {job : ServerJob} {fn : Nat} {data : Option Bytes}
    (hk : job.Keyed) (hm : addKeyMatches job fn [45] data) :
    0 < payloadSize data ∧ job.data = data ∧ (job.unique ≠ [] →
      job.unique = [45] ∨ serverJobHash job.unique = serverJobHash (data.getD [])) := by
  obtain ⟨-, hpos, hkd, hs, ht⟩ := hm
  have hl : (job.data.getD []).length ≤ payloadSize data := by
    rw [← hs, hk.1]
    rfl
  refine ⟨hpos, eq_of_getD_eq (by rw [← ht, List.take_of_length_le hl]) hpos, fun hu => ?_⟩
  by_cases hju : job.unique = [45]
  · exact .inl hju
  · rw [← hkd, hk.2 hu, uniqueKeyOf, if_neg hju]
    exact .inr rfl

end GearmanServer
