import GearmanServer.Invariant.Functions

/-!
# The client lists of the jobs

`ClientsInv s`: the `client_list` of every live job is a well-formed list of exactly the
clients whose `job` is that job, and a client waits on live jobs only. A disconnect takes the
client off its job's list, `gearman_server_job_add` puts a client that waits on nothing on
it, and `gearman_server_job_free` empties it before the job stops being live. With this the
client loop of `gearman_server_job_free` ends.
-/

namespace GearmanServer

structure ClientsInv (s : Server) : Prop where
  list : ∀ j ∈ s.live, ∃ cs, clientJobLinks.DList s.clients (s.jobs j).clientList
    (s.jobs j).clientCount cs ∧ ∀ c, c ∈ cs ↔ (s.clients c).job = some j
  live : ∀ c j, (s.clients c).job = some j → j ∈ s.live

section
variable {s s' : Server}

theorem ClientsInv.congr (h : ClientsInv s) (hc : s'.clients = s.clients) (hl : s'.live = s.live)
    (hj : ∀ j ∈ s.live, (s'.jobs j).clientList = (s.jobs j).clientList ∧
      (s'.jobs j).clientCount = (s.jobs j).clientCount) : ClientsInv s' := by
  refine ⟨fun j hj' => ?_, fun c j e => ?_⟩
  · rw [hl] at hj'
    rw [(hj j hj').1, (hj j hj').2, hc]
    exact h.list j hj'
  · rw [hl]
    exact h.live c j (hc ▸ e)

theorem ClientsInv.payload (h : ClientsInv s) (hc : s'.clients = s.clients)
    (hl : s'.live = s.live) (hj : ∀ j, (s'.jobs j).payload = (s.jobs j).payload) :
    ClientsInv s' := by
  refine h.congr hc hl fun j _ => ⟨?_, ?_⟩
  · have e := congrArg ServerJob.clientList (hj j)
    exact e
  · have e := congrArg ServerJob.clientCount (hj j)
    exact e

/-! ## A disconnect -/

theorem clientFree_live (s : Server) (c : Nat) : (gearmanServerClientFree s c).live = s.live := by
  unfold gearmanServerClientFree; split <;> rfl

theorem clientFree_job (hcj : (s.clients c).job = some j) (x : Nat) :
    ((gearmanServerClientFree s c).clients x).job = if x = c then none else (s.clients x).job := by
  simp only [gearmanServerClientFree, hcj, Server.modifyJob_clients]
  by_cases hx : x = c
  · subst hx; simp
  · simp only [Function.update_noteq hx, if_neg hx]
    exact clientJobLinks.field_listDel ServerClient.job (fun _ _ => rfl) (fun _ _ => rfl) _ _ _ _ x

theorem clientFree_links (hcj : (s.clients c).job = some j) (x : Nat) :
    clientJobLinks.next ((gearmanServerClientFree s c).clients x) = clientJobLinks.next
      ((clientJobLinks.listDel s.clients (s.jobs j).clientList (s.jobs j).clientCount c).1 x) ∧
    clientJobLinks.prev ((gearmanServerClientFree s c).clients x) = clientJobLinks.prev
      ((clientJobLinks.listDel s.clients (s.jobs j).clientList (s.jobs j).clientCount c).1 x) := by
  simp only [gearmanServerClientFree, hcj, Server.modifyJob_clients]
  by_cases hx : x = c
  · subst hx; simp [clientJobLinks]
  · simp [Function.update_noteq hx]

theorem clientFree_jobs (hcj : (s.clients c).job = some j) (x : Nat) :
    (gearmanServerClientFree s c).jobs x = if x = j then
      { s.jobs j with
        clientList := (clientJobLinks.listDel s.clients (s.jobs j).clientList
          (s.jobs j).clientCount c).2.1
        clientCount := (s.jobs j).clientCount - 1
        ignore := (s.jobs j).ignore || ((clientJobLinks.listDel s.clients (s.jobs j).clientList
          (s.jobs j).clientCount c).2.1).isNone }
      else s.jobs x := by
  simp only [gearmanServerClientFree, hcj, Server.modifyJob_jobs]
  split_ifs <;> rfl

theorem ClientsInv.clientFree (h : ClientsInv s) (c : Nat) :
    ClientsInv (gearmanServerClientFree s c) := by
  rcases hcj : (s.clients c).job with _ | j
  · unfold gearmanServerClientFree
    rw [hcj]
    exact h
  have hjl := h.live c j hcj
  obtain ⟨cs, hd, hm⟩ := h.list j hjl
  have hc : c ∈ cs := (hm c).2 hcj
  have hdel := hd.listDel hc
  refine ⟨fun j' hj' => ?_, fun c' j' e => ?_⟩
  · rw [clientFree_live] at hj'
    rw [clientFree_jobs hcj]
    by_cases hjj : j' = j
    · subst hjj
      simp only [if_true]
      refine ⟨cs.erase c, hdel.congr fun x _ => clientFree_links hcj x, fun c' => ?_⟩
      rw [clientFree_job hcj]
      by_cases hc' : c' = c
      · subst hc'; simp [hd.nodup.not_mem_erase]
      · rw [if_neg hc', List.mem_erase_of_ne hc', hm]
    · rw [if_neg hjj]
      obtain ⟨cs', hd', hm'⟩ := h.list j' hj'
      have hout : ∀ x ∈ cs', x ∉ cs := fun x hx hx' =>
        hjj (Option.some.inj (((hm' x).1 hx).symm.trans ((hm x).1 hx')))
      refine ⟨cs', hd'.congr fun x hx => ?_, fun c' => ?_⟩
      · rw [(clientFree_links hcj x).1, (clientFree_links hcj x).2]
        exact hd.toDChain.listDel_frame hc (hout x hx)
      · rw [clientFree_job hcj, hm']
        by_cases hc' : c' = c
        · subst hc'; simp [hcj, Ne.symm hjj]
        · rw [if_neg hc']
  · rw [clientFree_job hcj] at e
    rw [clientFree_live]
    split_ifs at e
    exact h.live c' j' e

/-! ## `gearman_server_job_free` -/

theorem ClientsInv.clientLoop {fuel j : Nat} (h : ClientsInv s) (hj : j ∈ s.live)
    (hf : freeClientList fuel s j = some s') :
    ClientsInv s' ∧ (s'.jobs j).clientList = none ∧ s'.live = s.live := by
  induction fuel, s, j using freeClientList.induct with
  | case1 fuel s j hl =>
    unfold freeClientList at hf
    simp only [hl, Option.some.injEq] at hf
    exact hf ▸ ⟨h, hl, rfl⟩
  | case2 s j c hl =>
    unfold freeClientList at hf
    simp [hl] at hf
  | case3 s j c fuel hl ih =>
    unfold freeClientList at hf
    simp only [hl] at hf
    obtain ⟨h₁, h₂, h₃⟩ := ih (h.clientFree c) (by rwa [clientFree_live]) hf
    exact ⟨h₁, h₂, h₃.trans (clientFree_live s c)⟩

theorem ClientsInv.clientLoop_some {j : Nat} (h : ClientsInv s) (hj : j ∈ s.live) :
    ∃ cs, clientJobLinks.DList s.clients (s.jobs j).clientList (s.jobs j).clientCount cs ∧
      ∀ fuel, cs.length ≤ fuel → ∃ s', freeClientList fuel s j = some s' := by
  obtain ⟨cs, hd, hm⟩ := h.list j hj
  refine ⟨cs, hd, ?_⟩
  induction cs generalizing s with
  | nil =>
    intro fuel _
    have hl : (s.jobs j).clientList = none := hd.chain
    exact ⟨s, by unfold freeClientList; simp [hl]⟩
  | cons c cs ih =>
    intro fuel hfuel
    obtain ⟨fuel, rfl⟩ : ∃ n, fuel = n + 1 := ⟨fuel - 1, by simp at hfuel; omega⟩
    have hl : (s.jobs j).clientList = some c := hd.chain.1
    have hcj : (s.clients c).job = some j := (hm c).1 (List.mem_cons_self _ _)
    have h' := h.clientFree c
    have hj' : j ∈ (gearmanServerClientFree s c).live := by rwa [clientFree_live]
    obtain ⟨cs', hd', hm'⟩ := h'.list j hj'
    have hdel := hd.listDel (List.mem_cons_self c cs)
    rw [List.erase_cons_head] at hdel
    have hc : Chain (fun x => clientJobLinks.next ((gearmanServerClientFree s c).clients x))
        ((gearmanServerClientFree s c).jobs j).clientList cs := by
      rw [clientFree_jobs hcj, if_pos rfl]
      exact seg_congr hdel.chain fun x _ => (clientFree_links hcj x).1
    have e : cs' = cs := chain_unique hd'.chain hc
    subst e
    obtain ⟨s', hs'⟩ := ih h' hj' hd' hm' fuel (by simpa using hfuel)
    exact ⟨s', by unfold freeClientList; simp only [hl]; exact hs'⟩

theorem ClientsInv.free {fuel j : Nat} (h : ClientsInv s) (hj : j ∈ s.live)
    (hf : gearmanServerJobFree fuel s j = some s') : ClientsInv s' := by
  obtain ⟨fn, s₁, -, h₁, rfl⟩ := gearmanServerJobFree_eq_some.1 hf
  have e := jobFreeCounters_eq s j fn
  have h₀ : ClientsInv (jobFreeCounters s j fn) := by
    rw [e]
    exact h.congr rfl rfl fun _ _ => ⟨rfl, rfl⟩
  obtain ⟨hc₁, hnil, hl₁⟩ := h₀.clientLoop (by rw [e]; exact hj) h₁
  have hj₁ : j ∈ s₁.live := by rw [hl₁, e]; exact hj
  have hno : ∀ c, (s₁.clients c).job ≠ some j := fun c hc => by
    obtain ⟨cs, hd, hm⟩ := hc₁.list j hj₁
    rw [hnil] at hd
    have : cs = [] := chain_none_iff.1 hd.chain
    subst this
    exact List.not_mem_nil c ((hm c).2 hc)
  have hpay : ∀ x, ((jobFreeRelease (jobFreeUnhash s₁ j) j).jobs x).payload =
      (s₁.jobs x).payload := fun x => by
    rw [jobFreeRelease_field ServerJob.payload (fun _ _ => ⟨rfl, rfl⟩),
      jobFreeUnhash_field ServerJob.payload (fun _ _ => ⟨rfl, rfl⟩) (fun _ _ => ⟨rfl, rfl⟩)]
  have hcl : (jobFreeRelease (jobFreeUnhash s₁ j) j).clients = s₁.clients := by
    rw [jobFreeRelease_eq, jobFreeUnhash_eq]
  have hlv : (jobFreeRelease (jobFreeUnhash s₁ j) j).live = s₁.live.erase j := by
    rw [jobFreeRelease_eq, jobFreeUnhash_eq]
  refine ⟨fun j' hj' => ?_, fun c j' e' => ?_⟩
  · rw [hlv] at hj'
    have hl := congrArg ServerJob.clientList (hpay j')
    have hc := congrArg ServerJob.clientCount (hpay j')
    simp only [ServerJob.payload] at hl hc
    rw [hl, hc, hcl]
    exact hc₁.list j' (List.mem_of_mem_erase hj')
  · rw [hcl] at e'
    rw [hlv]
    exact (List.mem_erase_of_ne fun h' : j' = j => hno c (h' ▸ e')).2 (hc₁.live c j' e')

theorem ClientsInv.clientLoop_jobs {fuel j : Nat} (h : ClientsInv s) (hj : j ∈ s.live)
    (hf : freeClientList fuel s j = some s') {x : Nat} (hx : x ≠ j) : s'.jobs x = s.jobs x := by
  induction fuel, s, j using freeClientList.induct with
  | case1 fuel s j hl =>
    unfold freeClientList at hf
    simp only [hl, Option.some.injEq] at hf
    rw [hf]
  | case2 s j c hl =>
    unfold freeClientList at hf
    simp [hl] at hf
  | case3 s j c fuel hl ih =>
    unfold freeClientList at hf
    simp only [hl] at hf
    obtain ⟨cs, hd, hm⟩ := h.list j hj
    have hcj : (s.clients c).job = some j := (hm c).1 (mem_of_chain_eq_some hd.chain hl)
    rw [ih (h.clientFree c) (by rwa [clientFree_live]) hf hx, clientFree_jobs hcj, if_neg hx]

theorem ClientsInv.free_payload {fuel j : Nat} (h : ClientsInv s) (hj : j ∈ s.live)
    (hf : gearmanServerJobFree fuel s j = some s') {x : Nat} (hx : x ≠ j) :
    (s'.jobs x).payload = (s.jobs x).payload := by
  obtain ⟨fn, s₁, -, h₁, rfl⟩ := gearmanServerJobFree_eq_some.1 hf
  have e := jobFreeCounters_eq s j fn
  have h₀ : ClientsInv (jobFreeCounters s j fn) := by
    rw [e]
    exact h.congr rfl rfl fun _ _ => ⟨rfl, rfl⟩
  rw [jobFreeRelease_field ServerJob.payload (fun _ _ => ⟨rfl, rfl⟩),
    jobFreeUnhash_field ServerJob.payload (fun _ _ => ⟨rfl, rfl⟩) (fun _ _ => ⟨rfl, rfl⟩),
    h₀.clientLoop_jobs (by rw [e]; exact hj) h₁ hx, e]

theorem ClientsInv.free_returns {fuel j fn : Nat} (h : ClientsInv s) (hj : j ∈ s.live)
    (hfn : (s.jobs j).function = some fn) (hfuel : (s.jobs j).clientCount ≤ fuel) :
    ∃ s', gearmanServerJobFree fuel s j = some s' := by
  have e := jobFreeCounters_eq s j fn
  have h₀ : ClientsInv (jobFreeCounters s j fn) := by
    rw [e]
    exact h.congr rfl rfl fun _ _ => ⟨rfl, rfl⟩
  obtain ⟨cs, hd, hs⟩ := h₀.clientLoop_some (by rw [e]; exact hj)
  obtain ⟨s₁, h₁⟩ := hs fuel (by rw [← hd.count_eq, e]; exact hfuel)
  exact ⟨_, gearmanServerJobFree_eq_some.2 ⟨fn, s₁, hfn, h₁, rfl⟩⟩

/-! ## `gearman_server_job_add` -/

theorem ClientsInv.create {ok : Bool} {s₁ : Server} {j fn : Nat} {unique : Bytes}
    {data : Option Bytes} {priority : GearmanJobPriority} {key : UInt32}
    (h : ClientsInv s) (hj : j ∉ s.live) (hc : gearmanServerJobCreate s ok = some (s₁, some j)) :
    ClientsInv (jobAddFields s₁ j fn unique data priority key) := by
  obtain ⟨e, hjob, hpay⟩ := gearmanServerJobCreate_some hc
  have hcl : (jobAddFields s₁ j fn unique data priority key).clients = s.clients := by
    rw [jobAddFields_eq, e]; rfl
  have hlv : (jobAddFields s₁ j fn unique data priority key).live = j :: s.live := by
    rw [jobAddFields_eq, e]; rfl
  refine ⟨fun j' hj' => ?_, fun c j' e' => ?_⟩
  · rw [hlv] at hj'
    rw [hcl]
    rcases List.mem_cons.1 hj' with rfl | hj'
    · refine ⟨[], ?_, fun c => ⟨fun h' => (List.not_mem_nil c h').elim, fun h' => (hj (h.live c _ h')).elim⟩⟩
      simp only [jobAddFields_eq, Function.update_same, hjob]
      exact ⟨⟨rfl, trivial, List.nodup_nil⟩, rfl⟩
    · have hxj : j' ≠ j := fun e' => hj (e' ▸ hj')
      have hp := hpay j' hxj
      have hl := congrArg ServerJob.clientList hp
      have hc' := congrArg ServerJob.clientCount hp
      simp only [ServerJob.payload] at hl hc'
      simp only [jobAddFields_eq, Function.update_noteq hxj, hl, hc']
      exact h.list j' hj'
  · rw [hcl] at e'
    rw [hlv]
    exact List.mem_cons_of_mem _ (h.live c j' e')

theorem ClientsInv.addClient {j : Nat} {client : Option Nat} (h : ClientsInv s) (hj : j ∈ s.live)
    (hc : ∀ c, client = some c → (s.clients c).job = none) :
    ClientsInv (jobAddClient s j client) := by
  rcases client with _ | c
  · exact h
  have hcn := hc c rfl
  set cl₀ := Function.update s.clients c { s.clients c with job := some j }
  have hl₀ : ∀ x, clientJobLinks.next (cl₀ x) = clientJobLinks.next (s.clients x) ∧
      clientJobLinks.prev (cl₀ x) = clientJobLinks.prev (s.clients x) := fun x => by
    by_cases hx : x = c
    · subst hx; simp [cl₀, clientJobLinks]
    · simp [cl₀, Function.update_noteq hx]
  have hjob : ∀ x, ((clientJobLinks.listAdd cl₀ (s.jobs j).clientList (s.jobs j).clientCount c).1
      x).job = if x = c then some j else (s.clients x).job := fun x => by
    rw [clientJobLinks.field_listAdd ServerClient.job (fun _ _ => rfl) (fun _ _ => rfl)]
    by_cases hx : x = c
    · subst hx; simp [cl₀]
    · simp [cl₀, Function.update_noteq hx, hx]
  obtain ⟨cs, hd, hm⟩ := h.list j hj
  have hcs : c ∉ cs := fun h' => by rw [(hm c).1 h'] at hcn; cases hcn
  have hd₀ := hd.congr fun x _ => hl₀ x
  refine ⟨fun j' hj' => ?_, fun x j' e' => ?_⟩
  · simp only [jobAddClient, Server.modifyJob_jobs]
    by_cases hjj : j' = j
    · subst hjj
      simp only [if_true]
      refine ⟨c :: cs, hd₀.listAdd hcs, fun x => ?_⟩
      rw [hjob, List.mem_cons, hm]
      by_cases hx : x = c <;> simp [hx, hcn]
    · rw [if_neg hjj]
      obtain ⟨cs', hd', hm'⟩ := h.list j' hj'
      refine ⟨cs', hd'.congr fun x hx => ?_, fun x => ?_⟩
      · have hxc : x ≠ c := fun e => by rw [e, hm'] at hx; rw [hx] at hcn; cases hcn
        have hxs : x ∉ cs := fun h' => hjj (Option.some.inj (((hm' x).1 hx).symm.trans
          ((hm x).1 h')))
        rw [(hd₀.toDChain.listAdd_frame hxs hxc).1, (hd₀.toDChain.listAdd_frame hxs hxc).2]
        exact hl₀ x
      · rw [hjob, hm']
        by_cases hx : x = c
        · subst hx; simp [hcn, Ne.symm hjj]
        · rw [if_neg hx]
  · simp only [jobAddClient, hjob] at e'
    split_ifs at e' with hx
    · cases e'; exact hj
    · exact h.live x j' e'

end

end GearmanServer
