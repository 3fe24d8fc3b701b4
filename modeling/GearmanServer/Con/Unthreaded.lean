import GearmanServer.Con.WorkerSteps

/-!
# The daemon without threads

With `gearmand->threads == 0` one event loop, that of `gearmand->thread_list`, runs every
connection. `gearmand_con_create` then hands its structure to `_con_add` at once (lines
66..70) and `gearmand_con_free` keeps a closed one on the main free list while that list is
shorter than `GEARMAN_MAX_FREE_SERVER_CON`, and `free`s it otherwise (lines 134..137). Each call
runs to its end before the next one.

Over every run of calls the main free list and the thread's `dcon` list stay well formed and
apart, the allocated structures are exactly those on them, and the free list never holds more
than `GEARMAN_MAX_FREE_SERVER_CON`; a run stops only at a call whose input the environment cannot
give (a `malloc` result that is in use, a connection that is not there).
-/

namespace GearmanServer

open Daemon

/-- `_con_add` on thread `t`, `added` being whether `gearman_server_con_add` succeeds; on failure
the descriptor is closed, the structure freed and `GEARMAN_MEMORY_ALLOCATION_FAILURE` returned. -/
def conAddReturn (s : Daemon) (t dcon : Nat) (added : Bool) : GearmanReturn × Daemon :=
  if added then
    let th := s.threads t
    let r := dconLinks.listAdd s.dcons th.dconList th.dconCount dcon
    (.success, (s.setDcons r.1).modifyThread t fun th => { th with
      dconList := r.2.1
      dconCount := uint32Inc th.dconCount })
  else
    (.memoryAllocationFailure,
      s.setDcons (Function.update s.dcons dcon { s.dcons dcon with allocated := false }))

/-- Lines 61..70 of `gearmand_con_create` without threads: `memset`, `dcon->thread=
gearmand->thread_list` and `_con_add` on that thread. -/
def conCreateAdd (s : Daemon) (dcon : Nat) (added : Bool) : Option (GearmanReturn × Daemon) :=
  s.gearmand.threadList.map fun t =>
    conAddReturn (s.setDcons (Function.update s.dcons dcon { allocated := true, thread := some t }))
      t dcon added

/-- `gearmand_con_create` with `gearmand->threads == 0`; `none` where the code dereferences
`NULL`, or `malloc` returns an address in use or not below `slots`. -/
def gearmandConCreateUnthreaded (slots : Nat) (s : Daemon) (malloc : Option Nat) (added : Bool) :
    Option (GearmanReturn × Daemon) :=
  if 0 < s.gearmand.freeDconCount then
    match s.gearmand.freeDconList with
    | none => none
    | some dcon =>
      let r := dconLinks.listDel s.dcons s.gearmand.freeDconList s.gearmand.freeDconCount dcon
      conCreateAdd ((s.setDcons r.1).setPool r.2.1 (uint32Dec s.gearmand.freeDconCount)) dcon
        added
  else
    match malloc with
    | none => some (.memoryAllocationFailure, s)
    | some dcon =>
      if dcon < slots ∧ (s.dcons dcon).allocated = false then conCreateAdd s dcon added
      else none

/-- `gearmand_con_free` with `gearmand->threads == 0`, after its event calls; `none` when no
connection `k` links down the list, or the code dereferences `NULL` or a freed structure. -/
def gearmandConFreeUnthreaded (s : Daemon) (k : Nat) : Option Daemon :=
  s.gearmand.threadList.bind fun t =>
    (nthNode (fun x => (s.dcons x).next) (s.threads t).dconList k).bind fun d =>
      (s.dconThread d).map fun u =>
        let th := s.threads u
        let r := dconLinks.listDel s.dcons th.dconList th.dconCount d
        let s := (s.setDcons r.1).modifyThread u fun th => { th with
          dconList := r.2.1
          dconCount := uint32Dec th.dconCount }
        if s.gearmand.freeDconCount < gearmanMaxFreeServerCon then
          let r := dconLinks.listAdd s.dcons s.gearmand.freeDconList s.gearmand.freeDconCount d
          (s.setDcons r.1).setPool r.2.1 (uint32Inc s.gearmand.freeDconCount)
        else s.setDcons (Function.update s.dcons d { s.dcons d with allocated := false })

inductive UnthreadedCall
  | create (malloc : Option Nat) (added : Bool)
  | free (k : Nat)
  deriving DecidableEq, Repr

namespace UnthreadedCall

def step (slots : Nat) (s : Daemon) : UnthreadedCall → Option Daemon
  | .create malloc added => (gearmandConCreateUnthreaded slots s malloc added).map Prod.snd
  | .free k => gearmandConFreeUnthreaded s k

def Valid (slots : Nat) (s : Daemon) : UnthreadedCall → Prop
  | .create none _ => True
  | .create (some d) _ => d < slots ∧ (s.dcons d).allocated = false
  | .free k => ∀ t ∈ s.gearmand.threadList, k < (s.threads t).dconCount

instance (slots : Nat) (s : Daemon) (c : UnthreadedCall) : Decidable (c.Valid slots s) := by
  cases c with
  | create malloc added => cases malloc <;> dsimp only [Valid] <;> infer_instance
  | free k => dsimp only [Valid]; infer_instance

end UnthreadedCall

def unthreadedRun (slots : Nat) : Daemon → List UnthreadedCall → Option Daemon
  | s, [] => some s
  | s, c :: calls => (c.step slots s).bind fun s' => unthreadedRun slots s' calls

-- A closed connection goes to the main free list, and the next connection reuses it without
-- calling `malloc`.
example : (unthreadedRun 4 (Daemon.init [0] 0) [.create (some 1) true, .free 0, .create none true]).map
    (fun s => ((s.threads 0).dconList, s.gearmand.freeDconCount)) = some (some 1, 0) := by decide

/-! ## The invariant -/

theorem nthNode_eq_getElem? {next : Nat → Option Nat} {h : Option Nat} {xs : List Nat}
    (hc : Chain next h xs) (k : Nat) : nthNode next h k = xs[k]? := by
  induction xs generalizing h k with
  | nil => rw [show h = none from hc]; cases k <;> rfl
  | cons x xs ih =>
    obtain ⟨rfl, hc⟩ := hc
    cases k with
    | zero => rw [List.getElem?_cons_zero]; rfl
    | succ k => rw [List.getElem?_cons_succ]; exact ih hc k

theorem allocated_listAdd (heap : Nat → Dcon) (list : Option Nat) (count obj d : Nat) :
    ((dconLinks.listAdd heap list count obj).1 d).allocated = (heap d).allocated :=
  dconLinks.field_listAdd Dcon.allocated (fun _ _ => rfl) (fun _ _ => rfl) heap list count obj d

theorem allocated_listDel (heap : Nat → Dcon) (list : Option Nat) (count obj d : Nat) :
    ((dconLinks.listDel heap list count obj).1 d).allocated = (heap d).allocated :=
  dconLinks.field_listDel Dcon.allocated (fun _ _ => rfl) (fun _ _ => rfl) heap list count obj d

section Macros
variable {heap : Nat → Dcon} {l l' : Option Nat} {c c' d : Nat} {xs ys : List Nat}

theorem DList.listDel_apart (hx : dconLinks.DList heap l c xs) (hy : dconLinks.DList heap l' c' ys)
    (hd : d ∈ xs) (happ : ∀ y ∈ ys, y ∉ xs) (hlen : xs.length ≤ uint32Size) :
    dconLinks.DList (dconLinks.listDel heap l c d).1 (dconLinks.listDel heap l c d).2.1
        (uint32Dec c) (xs.erase d) ∧
      dconLinks.DList (dconLinks.listDel heap l c d).1 l' c' ys :=
  ⟨DList.listDel32 hx hd hlen, hy.congr fun y hy' => hx.toDChain.listDel_frame hd (happ y hy')⟩

theorem DList.listAdd_apart (hx : dconLinks.DList heap l c xs) (hy : dconLinks.DList heap l' c' ys)
    (hd : d ∉ xs) (hdy : d ∉ ys) (happ : ∀ y ∈ ys, y ∉ xs) (hlen : xs.length + 1 < uint32Size) :
    dconLinks.DList (dconLinks.listAdd heap l c d).1 (some d) (uint32Inc c) (d :: xs) ∧
      dconLinks.DList (dconLinks.listAdd heap l c d).1 l' c' ys :=
  ⟨DList.listAdd32 hx hd hlen, hy.congr fun y hy' =>
    hx.toDChain.listAdd_frame (happ y hy') fun h => hdy (h ▸ hy')⟩

end Macros

namespace Daemon

structure UnthreadedInv (slots t : Nat) (s : Daemon) (ps cs hs : List Nat) : Prop where
  threadList : s.gearmand.threadList = some t
  pool : dconLinks.DList s.dcons s.gearmand.freeDconList s.gearmand.freeDconCount ps
  cons : dconLinks.DList s.dcons (s.threads t).dconList (s.threads t).dconCount cs
  nodup : (ps ++ cs ++ hs).Nodup
  allocated : ∀ d, (s.dcons d).allocated = true ↔ d ∈ ps ++ cs ++ hs
  below : ∀ d ∈ ps ++ cs ++ hs, d < slots
  thread : ∀ d ∈ cs, (s.dcons d).thread = some t
  poolBound : ps.length ≤ gearmanMaxFreeServerCon

theorem unthreadedInv_init (slots t m : Nat) : (Daemon.init [t] m).UnthreadedInv slots t [] [] [] :=
  ⟨rfl, ⟨⟨rfl, trivial, List.nodup_nil⟩, rfl⟩, ⟨⟨rfl, trivial, List.nodup_nil⟩, rfl⟩,
    List.nodup_nil, fun _ => by simp [Daemon.init], by simp, by simp, by decide⟩

namespace UnthreadedInv

variable {slots t : Nat} {s : Daemon} {ps cs hs : List Nat} {d : Nat}

theorem apart (hi : s.UnthreadedInv slots t ps cs hs) : ∀ y ∈ ps, y ∉ cs := fun _ hp hc =>
  (List.nodup_append.1 (List.nodup_append.1 hi.nodup).1).2.2 hp hc

theorem held_not_mem (hi : s.UnthreadedInv slots t ps cs [d]) : d ∉ ps ++ cs := fun h =>
  (List.nodup_append.1 hi.nodup).2.2 h (List.mem_singleton_self d)

theorem dconThread (hi : s.UnthreadedInv slots t ps cs hs) (hd : d ∈ cs) :
    s.dconThread d = some t := by
  unfold Daemon.dconThread
  rw [if_pos ((hi.allocated d).2 (by simp [hd]))]
  exact hi.thread d hd

theorem length_lt (hslots : slots < uint32Size) (hi : s.UnthreadedInv slots t ps cs hs)
    {xs : List Nat} (hnd : xs.Nodup) (hxs : ∀ x ∈ xs, x ∈ ps ++ cs ++ hs) :
    xs.length < uint32Size :=
  (length_le_of_lt hnd fun x hx => hi.below x (hxs x hx)).trans_lt hslots

theorem relist (hi : s.UnthreadedInv slots t ps cs hs) {s' : Daemon} {ps' cs' hs' : List Nat}
    (hperm : (ps' ++ cs' ++ hs').Perm (ps ++ cs ++ hs)) (hl : s'.gearmand.threadList = some t)
    (hp : dconLinks.DList s'.dcons s'.gearmand.freeDconList s'.gearmand.freeDconCount ps')
    (hc : dconLinks.DList s'.dcons (s'.threads t).dconList (s'.threads t).dconCount cs')
    (ha : ∀ d, (s'.dcons d).allocated = (s.dcons d).allocated)
    (ht : ∀ d ∈ cs', (s'.dcons d).thread = some t) (hb : ps'.length ≤ gearmanMaxFreeServerCon) :
    s'.UnthreadedInv slots t ps' cs' hs' :=
  ⟨hl, hp, hc, hperm.nodup_iff.2 hi.nodup, fun d => by rw [ha, hi.allocated, hperm.mem_iff],
    fun d hd => hi.below d (hperm.mem_iff.1 hd), ht, hb⟩

theorem memset (hi : s.UnthreadedInv slots t ps cs hs) (hhs : ∀ x ∈ hs, x = d)
    (hd : d ∉ ps ++ cs) (hlt : d < slots) :
    (s.setDcons (Function.update s.dcons d { allocated := true, thread := some t })).UnthreadedInv
      slots t ps cs [d] := by
  have hsame : ∀ x ∈ ps ++ cs,
      Function.update s.dcons d ({ allocated := true, thread := some t } : Dcon) x = s.dcons x :=
    fun x hx => Function.update_noteq (fun h : x = d => hd (h ▸ hx)) _ _
  have hmem : ∀ x, x ≠ d → (x ∈ ps ++ cs ++ hs ↔ x ∈ ps ++ cs ++ [d]) := fun x hx => by
    simp only [List.mem_append, List.mem_singleton, hx, or_false]
    exact or_iff_left fun h => hx (hhs x h)
  refine ⟨hi.threadList,
    hi.pool.congr fun x hx => by rw [setDcons_dcons, hsame x (by simp [hx])]; exact ⟨rfl, rfl⟩,
    hi.cons.congr fun x hx => by rw [setDcons_dcons, hsame x (by simp [hx])]; exact ⟨rfl, rfl⟩,
    List.nodup_append.2 ⟨(List.nodup_append.1 hi.nodup).1, List.nodup_singleton d,
      fun x hx hy => hd (List.mem_singleton.1 hy ▸ hx)⟩, fun x => ?_, fun x hx => ?_,
    fun x hx => by rw [setDcons_dcons, hsame x (by simp [hx])]; exact hi.thread x hx,
    hi.poolBound⟩
  · by_cases hx : x = d
    · subst hx; simp
    · rw [setDcons_dcons, Function.update_noteq hx, hi.allocated, hmem x hx]
  · by_cases hx' : x = d
    · exact hx' ▸ hlt
    · exact hi.below x ((hmem x hx').2 hx)

theorem release (hi : s.UnthreadedInv slots t ps cs [d]) :
    (s.setDcons (Function.update s.dcons d { s.dcons d with allocated := false })).UnthreadedInv
      slots t ps cs [] := by
  have hlinks : ∀ x, (Function.update s.dcons d { s.dcons d with allocated := false } x).next =
      (s.dcons x).next ∧ (Function.update s.dcons d { s.dcons d with allocated := false } x).prev =
      (s.dcons x).prev := fun x => ⟨next_update_allocated .., prev_update_allocated ..⟩
  refine ⟨hi.threadList, hi.pool.congr fun x _ => hlinks x, hi.cons.congr fun x _ => hlinks x,
    by simpa using (List.nodup_append.1 hi.nodup).1, fun x => ?_,
    fun x hx => hi.below x (List.mem_append_left _ (by simpa using hx)), fun x hx => ?_,
    hi.poolBound⟩
  · rw [setDcons_dcons, allocated_update_allocated]
    split
    · subst x; simpa using hi.held_not_mem
    · rename_i hx; rw [hi.allocated]; simp [hx]
  · rw [setDcons_dcons, thread_update_allocated]; exact hi.thread x hx

theorem poolTake (hslots : slots < uint32Size) (hi : s.UnthreadedInv slots t ps cs [])
    (hp : s.gearmand.freeDconList = some d) :
    ((s.setDcons (dconLinks.listDel s.dcons s.gearmand.freeDconList s.gearmand.freeDconCount
          d).1).setPool
        (dconLinks.listDel s.dcons s.gearmand.freeDconList s.gearmand.freeDconCount d).2.1
        (uint32Dec s.gearmand.freeDconCount)).UnthreadedInv slots t (ps.erase d) cs [d] := by
  have hd : d ∈ ps := mem_of_chain_eq_some hi.pool.chain hp
  have hperm : (ps.erase d ++ cs ++ [d]).Perm (ps ++ cs ++ []) := by
    rw [List.append_nil]
    exact (List.perm_append_singleton d _).trans ((List.perm_cons_erase hd).append_right cs).symm
  have hl := DList.listDel_apart hi.pool hi.cons hd (fun y hy hp => hi.apart y hp hy)
    (hi.length_lt hslots hi.pool.nodup fun x hx => by simp [hx]).le
  exact hi.relist hperm hi.threadList hl.1 hl.2
    (fun x => by rw [setPool_dcons, setDcons_dcons, allocated_listDel])
    (fun x hx => by rw [setPool_dcons, setDcons_dcons, thread_listDel]; exact hi.thread x hx)
    ((List.length_erase_le _ _).trans hi.poolBound)

theorem conListDel (hslots : slots < uint32Size) (hi : s.UnthreadedInv slots t ps cs [])
    (hd : d ∈ cs) :
    ((s.setDcons (dconLinks.listDel s.dcons (s.threads t).dconList (s.threads t).dconCount
        d).1).modifyThread t fun th => { th with
          dconList := (dconLinks.listDel s.dcons (s.threads t).dconList (s.threads t).dconCount
            d).2.1
          dconCount := uint32Dec th.dconCount }).UnthreadedInv slots t ps (cs.erase d) [d] := by
  have hperm : (ps ++ cs.erase d ++ [d]).Perm (ps ++ cs ++ []) := by
    rw [List.append_nil, List.append_assoc]
    exact ((List.perm_append_singleton d _).trans (List.perm_cons_erase hd).symm).append_left ps
  have hl := DList.listDel_apart hi.cons hi.pool hd hi.apart
    (hi.length_lt hslots hi.cons.nodup fun x hx => by simp [hx]).le
  refine hi.relist hperm hi.threadList hl.2 ?_
    (fun x => by rw [modifyThread_dcons, setDcons_dcons, allocated_listDel])
    (fun x hx => by
      rw [modifyThread_dcons, setDcons_dcons, thread_listDel]
      exact hi.thread x (List.mem_of_mem_erase hx))
    hi.poolBound
  simp only [modifyThread_threads, modifyThread_dcons, setDcons_threads, setDcons_dcons,
    Function.update_same]
  exact hl.1

theorem poolAdd (hi : s.UnthreadedInv slots t ps cs [d])
    (hlt : s.gearmand.freeDconCount < gearmanMaxFreeServerCon) :
    ((s.setDcons (dconLinks.listAdd s.dcons s.gearmand.freeDconList s.gearmand.freeDconCount
          d).1).setPool
        (dconLinks.listAdd s.dcons s.gearmand.freeDconList s.gearmand.freeDconCount d).2.1
        (uint32Inc s.gearmand.freeDconCount)).UnthreadedInv slots t (d :: ps) cs [] := by
  have hd := hi.held_not_mem
  have hperm : (d :: ps ++ cs ++ []).Perm (ps ++ cs ++ [d]) := by
    rw [List.append_nil]; exact (List.perm_append_singleton d (ps ++ cs)).symm
  have hlen : ps.length < gearmanMaxFreeServerCon := by rw [← hi.pool.count_eq]; exact hlt
  have hl := DList.listAdd_apart hi.pool hi.cons (fun h => hd (List.mem_append_left cs h))
    (fun h => hd (List.mem_append_right ps h)) (fun y hy hp => hi.apart y hp hy)
    (by unfold gearmanMaxFreeServerCon at hlen; unfold uint32Size; omega)
  exact hi.relist hperm hi.threadList hl.1 hl.2
    (fun x => by rw [setPool_dcons, setDcons_dcons, allocated_listAdd])
    (fun x hx => by rw [setPool_dcons, setDcons_dcons, thread_listAdd]; exact hi.thread x hx) hlen

theorem conListAdd (hslots : slots < uint32Size) (hi : s.UnthreadedInv slots t ps cs [d])
    (ht : (s.dcons d).thread = some t) :
    ((s.setDcons (dconLinks.listAdd s.dcons (s.threads t).dconList (s.threads t).dconCount
        d).1).modifyThread t fun th => { th with
          dconList := (dconLinks.listAdd s.dcons (s.threads t).dconList (s.threads t).dconCount
            d).2.1
          dconCount := uint32Inc th.dconCount }).UnthreadedInv slots t ps (d :: cs) [] := by
  have hd := hi.held_not_mem
  have hdc : d ∉ cs := fun h => hd (List.mem_append_right ps h)
  have hperm : (ps ++ d :: cs ++ []).Perm (ps ++ cs ++ [d]) := by
    rw [List.append_nil]
    exact List.perm_middle.trans (List.perm_append_singleton d (ps ++ cs)).symm
  have hl := DList.listAdd_apart hi.cons hi.pool hdc (fun h => hd (List.mem_append_left cs h))
    hi.apart
    (hi.length_lt hslots (List.nodup_cons.2 ⟨hdc, hi.cons.nodup⟩ : (d :: cs).Nodup)
      fun x hx => by rcases List.mem_cons.1 hx with rfl | hx <;> simp [*])
  refine hi.relist hperm hi.threadList hl.2 ?_
    (fun x => by rw [modifyThread_dcons, setDcons_dcons, allocated_listAdd])
    (fun x hx => ?_) hi.poolBound
  · simp only [modifyThread_threads, modifyThread_dcons, setDcons_threads, setDcons_dcons,
      Function.update_same]
    exact hl.1
  · rw [modifyThread_dcons, setDcons_dcons, thread_listAdd]
    rcases List.mem_cons.1 hx with rfl | hx
    · exact ht
    · exact hi.thread x hx

theorem conAddReturn (hslots : slots < uint32Size) (hi : s.UnthreadedInv slots t ps cs [d])
    (ht : (s.dcons d).thread = some t) (added : Bool) :
    ∃ cs', (GearmanServer.conAddReturn s t d added).2.UnthreadedInv slots t ps cs' [] := by
  cases added
  · exact ⟨cs, hi.release⟩
  · exact ⟨d :: cs, hi.conListAdd hslots ht⟩

theorem conCreateAdd (hslots : slots < uint32Size) (hi : s.UnthreadedInv slots t ps cs hs)
    (hhs : ∀ x ∈ hs, x = d) (hd : d ∉ ps ++ cs) (hlt : d < slots) (added : Bool) :
    ∃ r s', GearmanServer.conCreateAdd s d added = some (r, s') ∧
      ∃ cs', s'.UnthreadedInv slots t ps cs' [] := by
  obtain ⟨cs', h⟩ := (hi.memset hhs hd hlt).conAddReturn hslots (by simp) added
  exact ⟨_, _, by rw [GearmanServer.conCreateAdd, hi.threadList]; rfl, cs', h⟩

theorem create (hslots : slots < uint32Size) (hi : s.UnthreadedInv slots t ps cs [])
    {malloc : Option Nat} {added : Bool} (hv : (UnthreadedCall.create malloc added).Valid slots s) :
    ∃ r s', gearmandConCreateUnthreaded slots s malloc added = some (r, s') ∧
      ∃ ps' cs', s'.UnthreadedInv slots t ps' cs' [] := by
  unfold gearmandConCreateUnthreaded
  split
  · split
    · rename_i hc _ hp
      have hch := hi.pool.chain
      rw [hp, chain_none_iff] at hch
      rw [hi.pool.count_eq, hch] at hc
      cases hc
    · rename_i dcon hp
      have h₁ := hi.poolTake hslots hp
      obtain ⟨r, s', h, cs', h'⟩ :=
        h₁.conCreateAdd hslots (by simp) h₁.held_not_mem (h₁.below dcon (by simp)) added
      exact ⟨r, s', h, _, cs', h'⟩
  · cases malloc with
    | none => exact ⟨_, _, rfl, ps, cs, hi⟩
    | some dcon =>
      obtain ⟨hlt, hna⟩ := hv
      dsimp only
      rw [if_pos ⟨hlt, hna⟩]
      have hd : dcon ∉ ps ++ cs := fun h => by
        have := (hi.allocated dcon).2 (List.mem_append_left _ h)
        rw [hna] at this
        cases this
      obtain ⟨r, s', h, cs', h'⟩ := hi.conCreateAdd hslots (by simp) hd hlt added
      exact ⟨r, s', h, ps, cs', h'⟩

theorem free (hslots : slots < uint32Size) (hi : s.UnthreadedInv slots t ps cs []) {k : Nat}
    (hv : (UnthreadedCall.free k).Valid slots s) :
    ∃ s', gearmandConFreeUnthreaded s k = some s' ∧ ∃ ps' cs', s'.UnthreadedInv slots t ps' cs' [] := by
  have hk : k < cs.length := hi.cons.count_eq ▸ hv t hi.threadList
  have hd : cs[k] ∈ cs := List.getElem_mem hk
  have hn : nthNode (fun x => (s.dcons x).next) (s.threads t).dconList k = some cs[k] :=
    (nthNode_eq_getElem? hi.cons.chain k).trans (List.getElem?_eq_getElem hk)
  have h₁ := hi.conListDel hslots hd
  unfold gearmandConFreeUnthreaded
  rw [hi.threadList, Option.some_bind, hn, Option.some_bind, hi.dconThread hd, Option.map_some']
  dsimp only
  split
  · exact ⟨_, rfl, _, _, h₁.poolAdd ‹_›⟩
  · exact ⟨_, rfl, _, _, h₁.release⟩

theorem step (hslots : slots < uint32Size) (hi : s.UnthreadedInv slots t ps cs [])
    {c : UnthreadedCall} (hv : c.Valid slots s) :
    ∃ s', c.step slots s = some s' ∧ ∃ ps' cs', s'.UnthreadedInv slots t ps' cs' [] := by
  cases c with
  | create malloc added =>
    obtain ⟨r, s', h, h'⟩ := hi.create hslots hv
    exact ⟨s', by rw [UnthreadedCall.step, h]; rfl, h'⟩
  | free k => exact hi.free hslots hv

theorem run (hslots : slots < uint32Size) (hi : s.UnthreadedInv slots t ps cs [])
    (calls : List UnthreadedCall) :
    (∃ s', unthreadedRun slots s calls = some s' ∧ ∃ ps' cs', s'.UnthreadedInv slots t ps' cs' []) ∨
      ∃ pre c post s₁, calls = pre ++ c :: post ∧ unthreadedRun slots s pre = some s₁ ∧
        (∃ ps' cs', s₁.UnthreadedInv slots t ps' cs' []) ∧ ¬c.Valid slots s₁ := by
  induction calls generalizing s ps cs with
  | nil => exact Or.inl ⟨s, rfl, ps, cs, hi⟩
  | cons c calls ih =>
    by_cases hv : c.Valid slots s
    · obtain ⟨s₁, h₁, ps₁, cs₁, hi₁⟩ := hi.step hslots hv
      rcases ih hi₁ with ⟨s', h', hr⟩ | ⟨pre, c', post, s₂, rfl, h₂, hr, hn⟩
      · exact Or.inl ⟨s', by rw [unthreadedRun, h₁, Option.some_bind, h'], hr⟩
      · exact Or.inr ⟨c :: pre, c', post, s₂, rfl,
          by rw [unthreadedRun, h₁, Option.some_bind, h₂], hr, hn⟩
    · exact Or.inr ⟨[], c, calls, s, rfl, rfl, ⟨ps, cs, hi⟩, hv⟩

end UnthreadedInv

theorem unthreaded_runs_keep_lists (hslots : slots < uint32Size) (t m : Nat)
    (calls : List UnthreadedCall) :
    (∃ s', unthreadedRun slots (Daemon.init [t] m) calls = some s' ∧
        ∃ ps cs, s'.UnthreadedInv slots t ps cs []) ∨
      ∃ pre c post s₁, calls = pre ++ c :: post ∧ unthreadedRun slots (Daemon.init [t] m) pre =
        some s₁ ∧ (∃ ps cs, s₁.UnthreadedInv slots t ps cs []) ∧ ¬c.Valid slots s₁ :=
  (unthreadedInv_init slots t m).run hslots calls

theorem unthreaded_runs_keep_lists_two_connections : 4 < uint32Size ∧
    ((∃ s', unthreadedRun 4 (Daemon.init [0] 0)
        [.create (some 1) true, .create (some 2) true, .free 0, .create none true] = some s' ∧
        ∃ ps cs, s'.UnthreadedInv 4 0 ps cs []) ∨
      ∃ pre c post s₁, [.create (some 1) true, .create (some 2) true, .free 0, .create none true] =
          pre ++ c :: post ∧ unthreadedRun 4 (Daemon.init [0] 0) pre = some s₁ ∧
        (∃ ps cs, s₁.UnthreadedInv 4 0 ps cs []) ∧ ¬c.Valid 4 s₁) :=
  ⟨by decide, unthreaded_runs_keep_lists (by decide) 0 0 _⟩

end Daemon

end GearmanServer
