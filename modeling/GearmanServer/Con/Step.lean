import GearmanServer.Con.State

/-!
# The daemon's connection hand-off: steps

One step of a thread is one statement of its C code, an `if` test being a statement of its
own and the `++`/`--` of a count a load and then a store. The main thread's locked region
(lines 88..98 of `gearmand_con_create`) and the locked `GEARMAN_LIST_ADD` of
`gearmand_con_free` are one step each: the other thread touches their data only under the
same lock, or reads a count or a head once without it, and such a read sees the values before
or after the region either way. The macros on the main free list and on a thread's `dcon`
list are one step each too: one thread writes each of those lists, and the others read at most
its count.

`malloc` is an input of the step that calls it: `NULL`, or an address below `slots` that is
not allocated. So is the result of `gearman_server_con_add` (`added`). A worker thread runs
`gearmand_con_check_queue` when it reads a wakeup byte and `gearmand_con_free` on one
connection of its `dcon` list when that connection closes; both are the work of the thread's
event loop, which is outside the sources.
-/

namespace GearmanServer

namespace Daemon
variable (s : Daemon)

/-- Lines 61..77 of `gearmand_con_create`: `memset` the structure and give it the thread of the
round. -/
def conCreateInit (dcon : Nat) : Daemon :=
  { s with
    dcons := Function.update s.dcons dcon { allocated := true, thread := s.gearmand.nextThread }
    gearmand := { s.gearmand with threadAddNext := s.gearmand.nextThread }
    main := .addCount dcon
    handoffs := s.handoffs ++ s.gearmand.nextThread.toList }

/-- Line 115: `gearmand->thread_add_next= gearmand->thread_add_next->next`, and return. -/
def conCreateDone : Daemon :=
  match s.gearmand.threadAddNext with
  | none => s.setMain .fault
  | some u => { s with
      gearmand := { s.gearmand with threadAddNext := (s.threads u).next }
      main := .idle }

def withThread (dcon : Nat) (k : Nat → Option Daemon) : Option Daemon :=
  match s.dconThread dcon with
  | none => some (s.setMain .fault)
  | some t => k t

def withWorkerThread (t dcon : Nat) (k : Nat → Option Daemon) : Option Daemon :=
  match s.dconThread dcon with
  | none => some (s.setWorker t .fault)
  | some u => k u

/-- `gearmand_thread_wakeup(thread, GEARMAND_WAKEUP_CON)`: one byte on the thread's pipe. -/
def wakeThread (t : Nat) : Daemon :=
  s.modifyThread t fun th => { th with wakeups := th.wakeups + 1 }

end Daemon

open Daemon

/-- Lines 45..59 of `gearmand_con_create`: a structure off the main free list, or from `malloc`,
whose `NULL` closes the descriptor and returns `GEARMAN_MEMORY_ALLOCATION_FAILURE`. -/
def conCreateStart (slots : Nat) (s : Daemon) (malloc : Option Nat) : Option Daemon :=
  if 0 < s.gearmand.freeDconCount then
    match s.gearmand.freeDconList with
    | none => some (s.setMain .fault)
    | some dcon =>
      let r := dconLinks.listDel s.dcons s.gearmand.freeDconList s.gearmand.freeDconCount dcon
      some (((s.setDcons r.1).setPool r.2.1 (uint32Dec s.gearmand.freeDconCount)).conCreateInit
        dcon)
  else
    match malloc with
    | none => some s
    | some dcon =>
      if dcon < slots ∧ (s.dcons dcon).allocated = false then some (s.conCreateInit dcon)
      else none

/-- The locked region of `gearmand_con_create` (lines 88..98): `GEARMAN_LIST_ADD` on `dcon_add`
and `free_dcon` taken into the locals; `none` while the mutex is held. -/
def conCreateLocked (s : Daemon) (dcon t : Nat) : Option Daemon :=
  let th := s.threads t
  if th.lock then none
  else
    let r := dconLinks.listAdd s.dcons th.dconAddList th.dconAddCount dcon
    some (((s.setDcons r.1).modifyThread t fun th => { th with
      dconAddList := r.2.1
      dconAddCount := uint32Inc th.dconAddCount
      freeDconList := none
      freeDconCount := 0 }).setMain (.checkCount dcon th.freeDconList))

/-- One turn of lines 107..112: `GEARMAN_LIST_DEL` of the head of the local list (its count is
not read again), `GEARMAN_LIST_ADD` of it on the main free list. -/
def conCreateMove (s : Daemon) (x : Nat) : Daemon :=
  let r := dconLinks.listDel s.dcons (some x) 0 x
  let r' := dconLinks.listAdd r.1 s.gearmand.freeDconList s.gearmand.freeDconCount x
  ((s.setDcons r'.1).setPool r'.2.1 (uint32Inc s.gearmand.freeDconCount)).setMain
    (.moveFree r.2.1)

/-- One statement of `gearmand_con_create` on the main thread (`gearmand->threads > 0`); `none`
when it cannot run. -/
def gearmandConCreate (slots : Nat) (s : Daemon) (malloc : Option Nat) : Option Daemon :=
  match s.main with
  | .idle => conCreateStart slots s malloc
  | .addCount dcon => s.withThread dcon fun t =>
    some (s.setMain (if (s.threads t).dconAddCount = 0 then .freeCount dcon else .lock dcon))
  | .freeCount dcon => s.withThread dcon fun t =>
    some (s.setMain (if (s.threads t).freeDconCount < s.gearmand.maxThreadFreeDconCount
      then .addTest dcon else .lock dcon))
  | .addTest dcon => s.withThread dcon fun t =>
    some (s.setMain (if (s.threads t).dconAddList = none then .addNext dcon else .addPrev dcon))
  | .addPrev dcon => s.withThread dcon fun t =>
    match (s.threads t).dconAddList with
    | none => some (s.setMain .fault)
    | some h => some ((s.setDcons (dconLinks.writePrev s.dcons h (some dcon))).setMain
        (.addNext dcon))
  | .addNext dcon => s.withThread dcon fun t =>
    some ((s.setDcons (dconLinks.writeNext s.dcons dcon (s.threads t).dconAddList)).setMain
      (.addPrevNull dcon))
  | .addPrevNull dcon =>
    some ((s.setDcons (dconLinks.writePrev s.dcons dcon none)).setMain (.addHead dcon))
  | .addHead dcon => s.withThread dcon fun t =>
    some ((s.modifyThread t fun th => { th with dconAddList := some dcon }).setMain
      (.addLoad dcon))
  | .addLoad dcon => s.withThread dcon fun t =>
    some (s.setMain (.addStore dcon t (s.threads t).dconAddCount))
  | .addStore dcon t count =>
    some ((s.modifyThread t fun th => { th with dconAddCount := uint32Inc count }).setMain
      (.wakeup dcon))
  | .wakeup dcon => s.withThread dcon fun t => some (s.wakeThread t).conCreateDone
  | .lock dcon => s.withThread dcon fun t => conCreateLocked s dcon t
  | .checkCount dcon fl => s.withThread dcon fun t =>
    some (s.setMain (if (s.threads t).dconAddCount = 1 then .wakeupLocked dcon fl
      else .moveFree fl))
  | .wakeupLocked dcon fl => s.withThread dcon fun t =>
    some ((s.wakeThread t).setMain (.moveFree fl))
  | .moveFree none => some s.conCreateDone
  | .moveFree (some x) => some (conCreateMove s x)
  | .fault => none

/-- `_con_add` and the rest of the loop of `gearmand_con_check_queue` (lines 167, 168): a failed
`gearman_server_con_add` frees the structure and wakes the main thread to shut down. -/
def conAdd (s : Daemon) (t dcon : Nat) (added : Bool) : Daemon :=
  if added then
    let th := s.threads t
    let r := dconLinks.listAdd s.dcons th.dconList th.dconCount dcon
    ((s.setDcons r.1).modifyThread t fun th => { th with
      dconList := r.2.1
      dconCount := uint32Inc th.dconCount })
      |>.setWorker t .checkList
  else
    { s with
      dcons := Function.update s.dcons dcon { s.dcons dcon with allocated := false }
      gearmand := { s.gearmand with shutdown := true } }.setWorker t .checkList

def gearmandConCheckQueue (s : Daemon) (t : Nat) (added : Bool) : Option Daemon :=
  let th := s.threads t
  match s.workers t with
  | .checkCount => some (s.setWorker t (if th.dconAddCount = 0 then .idle else .checkList))
  | .checkList => some (s.setWorker t (if th.dconAddList = none then .idle else .lock))
  | .lock =>
    if th.lock then none
    else some ((s.modifyThread t fun th => { th with lock := true }).setWorker t .take)
  | .take => some (s.setWorker t (match th.dconAddList with
    | none => .fault
    | some d => .delTest d))
  | .delTest d =>
    some (s.setWorker t (if th.dconAddList = some d then .delHead d else .delPrevTest d))
  | .delHead d =>
    some ((s.modifyThread t fun th => { th with dconAddList := (s.dcons d).next }).setWorker t
      (.delPrevTest d))
  | .delPrevTest d =>
    some (s.setWorker t (if (s.dcons d).prev = none then .delNextTest d else .delPrev d))
  | .delPrev d => some (match (s.dcons d).prev with
    | none => s.setWorker t .fault
    | some p =>
      (s.setDcons (dconLinks.writeNext s.dcons p (s.dcons d).next)).setWorker t (.delNextTest d))
  | .delNextTest d =>
    some (s.setWorker t (if (s.dcons d).next = none then .delLoad d else .delNext d))
  | .delNext d => some (match (s.dcons d).next with
    | none => s.setWorker t .fault
    | some n =>
      (s.setDcons (dconLinks.writePrev s.dcons n (s.dcons d).prev)).setWorker t (.delLoad d))
  | .delLoad d => some (s.setWorker t (.delStore d th.dconAddCount))
  | .delStore d count =>
    some ((s.modifyThread t fun th => { th with dconAddCount := uint32Dec count }).setWorker t
      (.unlock d))
  | .unlock d =>
    some ((s.modifyThread t fun th => { th with lock := false }).setWorker t (.conAdd d))
  | .conAdd d => some (conAdd s t d added)
  | _ => none

/-- Lines 122..132 of `gearmand_con_free` on connection `k` of thread `t`'s `dcon` list: its event,
server connection and descriptor are released outside the sources, and it leaves the list. -/
def conFreeStart (s : Daemon) (t k : Nat) : Option Daemon :=
  match nthNode (fun x => (s.dcons x).next) (s.threads t).dconList k with
  | none => none
  | some d =>
    match s.dconThread d with
    | none => some (s.setWorker t .fault)
    | some u =>
      let th := s.threads u
      let r := dconLinks.listDel s.dcons th.dconList th.dconCount d
      some (((s.setDcons r.1).modifyThread u fun th => { th with
        dconList := r.2.1
        dconCount := uint32Dec th.dconCount }).setWorker t (.freeCount d))

/-- One statement of the rest of `gearmand_con_free` on thread `t`: keep the structure on the
thread's free list while the main free list is short, else `free` it. -/
def gearmandConFree (s : Daemon) (t : Nat) : Option Daemon :=
  match s.workers t with
  | .freeCount d =>
    if s.gearmand.freeDconCount < gearmanMaxFreeServerCon then some (s.setWorker t (.freeAdd d))
    else some ({ s with dcons := Function.update s.dcons d { s.dcons d with allocated := false } }
      |>.setWorker t .idle)
  | .freeAdd d => s.withWorkerThread t d fun u =>
    let th := s.threads u
    if th.lock then none
    else
      let r := dconLinks.listAdd s.dcons th.freeDconList th.freeDconCount d
      some (((s.setDcons r.1).modifyThread u fun th => { th with
        freeDconList := r.2.1
        freeDconCount := uint32Inc th.freeDconCount }).setWorker t .idle)
  | _ => none

inductive Event
  /-- the main thread runs a statement; `malloc` is what `malloc` returns if it calls it -/
  | main (malloc : Option Nat)
  /-- thread `t` reads a `GEARMAND_WAKEUP_CON` byte and calls `gearmand_con_check_queue` -/
  | wakeup (t : Nat)
  /-- connection `k` of thread `t`'s `dcon` list closes: `gearmand_con_free` -/
  | close (t k : Nat)
  /-- thread `t` runs a statement; `added` is what `gearman_server_con_add` does if called -/
  | run (t : Nat) (added : Bool)
  deriving DecidableEq, Repr

def Event.step (ts : List Nat) (slots : Nat) (s : Daemon) : Event → Option Daemon
  | .main malloc => gearmandConCreate slots s malloc
  | .wakeup t =>
    if t ∈ ts ∧ s.workers t = .idle ∧ 0 < (s.threads t).wakeups then
      some ((s.modifyThread t fun th => { th with wakeups := th.wakeups - 1 }).setWorker t
        .checkCount)
    else none
  | .close t k => if t ∈ ts ∧ s.workers t = .idle then conFreeStart s t k else none
  | .run t added =>
    if t ∈ ts then
      match s.workers t with
      | .freeCount _ | .freeAdd _ => gearmandConFree s t
      | _ => gearmandConCheckQueue s t added
    else none

def Daemon.exec (ts : List Nat) (slots : Nat) : Daemon → List Event → Option Daemon
  | s, [] => some s
  | s, e :: evs => (e.step ts slots s).bind fun s' => Daemon.exec ts slots s' evs

def Daemon.init (ts : List Nat) (maxThreadFreeDconCount : Nat) : Daemon where
  gearmand := { threadList := ts.head?, maxThreadFreeDconCount := maxThreadFreeDconCount }
  threads t := { next := threadNext ts t }
  dcons _ := {}
  main := .idle
  workers _ := .idle
  handoffs := []

inductive Daemon.Reachable (ts : List Nat) (slots : Nat) : Daemon → Prop
  | init (m : Nat) : Daemon.Reachable ts slots (Daemon.init ts m)
  | step {s s' : Daemon} (e : Event) :
    Daemon.Reachable ts slots s → e.step ts slots s = some s' → Daemon.Reachable ts slots s'


/-! ## What a worker's step leaves alone -/

structure WorkerFrame (s s' : Daemon) : Prop where
  main : s'.main = s.main
  handoffs : s'.handoffs = s.handoffs
  threadAddNext : s'.gearmand.threadAddNext = s.gearmand.threadAddNext
  threadList : s'.gearmand.threadList = s.gearmand.threadList
  next : ∀ u, (s'.threads u).next = (s.threads u).next
  thread : ∀ d, (s'.dcons d).thread = (s.dcons d).thread

namespace WorkerFrame

theorem refl (s : Daemon) : WorkerFrame s s := ⟨rfl, rfl, rfl, rfl, fun _ => rfl, fun _ => rfl⟩

theorem setWorker {s s' : Daemon} (h : WorkerFrame s s') (t : Nat) (pc : WorkerPc) :
    WorkerFrame s (s'.setWorker t pc) :=
  ⟨h.main, h.handoffs, h.threadAddNext, h.threadList, h.next, h.thread⟩

theorem modifyThread {s s' : Daemon} (h : WorkerFrame s s') (t : Nat) (f : DThread → DThread)
    (hf : ∀ th, (f th).next = th.next) : WorkerFrame s (s'.modifyThread t f) :=
  ⟨h.main, h.handoffs, h.threadAddNext, h.threadList, fun u => by
    by_cases hu : u = t
    · subst hu; simp [hf, h.next]
    · simp [Function.update_noteq hu, h.next], h.thread⟩

theorem setDcons {s s' : Daemon} (h : WorkerFrame s s') (heap : Nat → Dcon)
    (hh : ∀ d, (heap d).thread = (s'.dcons d).thread) : WorkerFrame s (s'.setDcons heap) :=
  ⟨h.main, h.handoffs, h.threadAddNext, h.threadList, h.next, fun d => (hh d).trans (h.thread d)⟩

end WorkerFrame

theorem thread_writeNext (heap : Nat → Dcon) (x : Nat) (p : Option Nat) (d : Nat) :
    (dconLinks.writeNext heap x p d).thread = (heap d).thread :=
  dconLinks.field_writeNextIf Dcon.thread (fun _ _ => rfl) heap (some x) p d

theorem thread_writePrev (heap : Nat → Dcon) (x : Nat) (p : Option Nat) (d : Nat) :
    (dconLinks.writePrev heap x p d).thread = (heap d).thread :=
  dconLinks.field_writePrevIf Dcon.thread (fun _ _ => rfl) heap (some x) p d

theorem thread_listAdd (heap : Nat → Dcon) (list : Option Nat) (count obj d : Nat) :
    ((dconLinks.listAdd heap list count obj).1 d).thread = (heap d).thread :=
  dconLinks.field_listAdd Dcon.thread (fun _ _ => rfl) (fun _ _ => rfl) heap list count obj d

theorem thread_listDel (heap : Nat → Dcon) (list : Option Nat) (count obj d : Nat) :
    ((dconLinks.listDel heap list count obj).1 d).thread = (heap d).thread :=
  dconLinks.field_listDel Dcon.thread (fun _ _ => rfl) (fun _ _ => rfl) heap list count obj d

theorem thread_update_allocated (heap : Nat → Dcon) (x : Nat) (b : Bool) (d : Nat) :
    (Function.update heap x { heap x with allocated := b } d).thread = (heap d).thread := by
  by_cases h : d = x
  · subst h; simp
  · simp [Function.update_noteq h]

theorem conAdd_frame (s : Daemon) (t d : Nat) (added : Bool) :
    WorkerFrame s (conAdd s t d added) := by
  unfold conAdd
  dsimp only
  split
  · refine WorkerFrame.setWorker (WorkerFrame.modifyThread
      ((WorkerFrame.refl s).setDcons _ (thread_listAdd _ _ _ _)) t _ ?_) _ _
    exact fun _ => rfl
  · exact ⟨rfl, rfl, rfl, rfl, fun _ => rfl, thread_update_allocated _ _ _⟩

theorem gearmandConCheckQueue_frame {s s' : Daemon} {t : Nat} {added : Bool}
    (h : gearmandConCheckQueue s t added = some s') : WorkerFrame s s' := by
  unfold gearmandConCheckQueue at h
  dsimp only at h
  split at h <;> (repeat' split at h) <;>
    (try simp only [Option.some.injEq, reduceCtorEq] at h) <;> (try subst h)
  all_goals first
    | exact conAdd_frame s t _ added
    | exact (WorkerFrame.refl s).setWorker _ _
    | (refine WorkerFrame.setWorker (WorkerFrame.modifyThread (WorkerFrame.refl s) t _ ?_) _ _
       exact fun _ => rfl)
    | exact (WorkerFrame.refl s).setDcons _ (thread_writeNext _ _ _) |>.setWorker _ _
    | exact (WorkerFrame.refl s).setDcons _ (thread_writePrev _ _ _) |>.setWorker _ _

theorem conFreeStart_frame {s s' : Daemon} {t k : Nat} (h : conFreeStart s t k = some s') :
    WorkerFrame s s' := by
  unfold conFreeStart at h
  dsimp only at h
  split at h <;> (repeat' split at h) <;>
    (try simp only [Option.some.injEq, reduceCtorEq] at h) <;> (try subst h)
  · exact (WorkerFrame.refl s).setWorker _ _
  · refine WorkerFrame.setWorker (WorkerFrame.modifyThread
      ((WorkerFrame.refl s).setDcons _ (thread_listDel _ _ _ _)) _ _ ?_) _ _
    exact fun _ => rfl

theorem gearmandConFree_frame {s s' : Daemon} {t : Nat} (h : gearmandConFree s t = some s') :
    WorkerFrame s s' := by
  unfold gearmandConFree withWorkerThread at h
  dsimp only at h
  split at h <;> (repeat' split at h) <;>
    (try simp only [Option.some.injEq, reduceCtorEq] at h) <;> (try subst h)
  · exact (WorkerFrame.refl s).setWorker _ _
  · exact ⟨rfl, rfl, rfl, rfl, fun _ => rfl, thread_update_allocated _ _ _⟩
  · exact (WorkerFrame.refl s).setWorker _ _
  · refine WorkerFrame.setWorker (WorkerFrame.modifyThread
      ((WorkerFrame.refl s).setDcons _ (thread_listAdd _ _ _ _)) _ _ ?_) _ _
    exact fun _ => rfl

theorem Event.step_frame {ts : List Nat} {slots : Nat} {s s' : Daemon} {e : Event}
    (he : ∀ m, e ≠ .main m) (h : e.step ts slots s = some s') : WorkerFrame s s' := by
  cases e with
  | main m => exact absurd rfl (he m)
  | wakeup t =>
    simp only [Event.step] at h
    split at h
    · cases h
      refine WorkerFrame.setWorker (WorkerFrame.modifyThread (WorkerFrame.refl s) t _ ?_) _ _
      exact fun _ => rfl
    · cases h
  | close t k =>
    simp only [Event.step] at h
    split at h
    · exact conFreeStart_frame h
    · cases h
  | run t added =>
    simp only [Event.step] at h
    split at h
    · split at h
      · exact gearmandConFree_frame h
      · exact gearmandConFree_frame h
      · exact gearmandConCheckQueue_frame h
    · cases h

theorem Daemon.Reachable.exec {ts : List Nat} {slots : Nat} {s s' : Daemon} {evs : List Event}
    (h : s.Reachable ts slots) (he : Daemon.exec ts slots s evs = some s') :
    s'.Reachable ts slots := by
  induction evs generalizing s with
  | nil => cases he; exact h
  | cons e evs ih =>
    simp only [Daemon.exec, Option.bind_eq_some] at he
    obtain ⟨s₁, h₁, h₂⟩ := he
    exact ih (h.step e h₁) h₂

end GearmanServer
