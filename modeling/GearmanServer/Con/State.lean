import GearmanServer.Links

/-!
# The daemon's connection hand-off: state

`gearmand_con.c` moves `gearmand_con_st` structures between the main thread and the worker
threads of a threaded `gearmand`. The main thread's `gearmand_con_create` takes one from the
main free list `gearmand->free_dcon` (or from `malloc`) and puts it on the `dcon_add` list of
the next thread of the round; that thread's `gearmand_con_check_queue` takes it off and
`_con_add` puts it on the thread's `dcon` list; `gearmand_con_free` puts a closed one on the
thread's `free_dcon` list, and the next `gearmand_con_create` that locks the thread moves that
list to the main free list.

All four lists thread through the same `next`/`prev` pair of a structure (the empty prefix of
`GEARMAN_LIST_ADD`). Structures live in a heap addressed by `Nat`; `allocated` is the
allocator's view of one, from `malloc` to `free`. The counts are `uint32_t`, kept below
`2 ^ 32`, with `++` and `--` wrapping around it.

Each thread's program counter carries the locals the rest of its function reads. The main
thread runs one call of `gearmand_con_create` at a time; a worker thread runs
`gearmand_con_check_queue` for every wakeup byte it reads and `gearmand_con_free` for every
connection it closes. `fault` is a thread that has dereferenced `NULL` or a freed structure.
-/

namespace GearmanServer

abbrev gearmanMaxFreeServerCon : Nat := 1000

abbrev uint32Size : Nat := 4294967296

def uint32Inc (count : Nat) : Nat := (count + 1) % uint32Size

def uint32Dec (count : Nat) : Nat := (count + (uint32Size - 1)) % uint32Size

structure Dcon where
  next : Option Nat := none
  prev : Option Nat := none
  thread : Option Nat := none
  allocated : Bool := false
  deriving DecidableEq, Repr

/-- The fields of `gearmand_thread_st` the hand-off uses; `wakeups` counts the
`GEARMAND_WAKEUP_CON` bytes written to the thread's wakeup pipe and not read yet. -/
structure DThread where
  next : Option Nat := none
  dconList : Option Nat := none
  dconCount : Nat := 0
  dconAddList : Option Nat := none
  dconAddCount : Nat := 0
  freeDconList : Option Nat := none
  freeDconCount : Nat := 0
  lock : Bool := false
  wakeups : Nat := 0
  deriving DecidableEq, Repr

/-- The fields of `gearmand_st` the hand-off uses; `shutdown` records a
`gearmand_wakeup(gearmand, GEARMAND_WAKEUP_SHUTDOWN)`. -/
structure Gearmand where
  freeDconList : Option Nat := none
  freeDconCount : Nat := 0
  threadList : Option Nat := none
  threadAddNext : Option Nat := none
  maxThreadFreeDconCount : Nat := 0
  shutdown : Bool := false
  deriving DecidableEq, Repr

/-- Lines 74..77 of `gearmand_con_create`: the thread of the round, starting it over at
`gearmand->thread_list` when `thread_add_next` is `NULL`. -/
def Gearmand.nextThread (g : Gearmand) : Option Nat :=
  match g.threadAddNext with
  | none => g.threadList
  | some t => some t

/-- Where the main thread is in `gearmand_con_create`, by the statement it runs next. -/
inductive MainPc
  | idle
  /-- line 80: `dcon->thread->dcon_add_count == 0` -/
  | addCount (dcon : Nat)
  /-- line 81: `free_dcon_count < max_thread_free_dcon_count` -/
  | freeCount (dcon : Nat)
  /-- line 83, `GEARMAN_LIST_ADD` without the lock: `if (list != NULL)` -/
  | addTest (dcon : Nat)
  /-- `list->prev= dcon` -/
  | addPrev (dcon : Nat)
  /-- `dcon->next= list` -/
  | addNext (dcon : Nat)
  /-- `dcon->prev= NULL` -/
  | addPrevNull (dcon : Nat)
  /-- `list= dcon` -/
  | addHead (dcon : Nat)
  /-- `dcon->thread->dcon_add_count++`, its load -/
  | addLoad (dcon : Nat)
  /-- its store of `count + 1` to thread `t` -/
  | addStore (dcon t count : Nat)
  /-- line 84 -/
  | wakeup (dcon : Nat)
  /-- lines 88..98, the locked region -/
  | lock (dcon : Nat)
  /-- line 103, with the local `free_dcon_list` of line 93 -/
  | checkCount (dcon : Nat) (freeDconList : Option Nat)
  /-- line 104 -/
  | wakeupLocked (dcon : Nat) (freeDconList : Option Nat)
  /-- lines 107..112, and line 115 once the local list is empty -/
  | moveFree (freeDconList : Option Nat)
  | fault
  deriving DecidableEq, Repr

/-- Where a worker thread is in `gearmand_con_check_queue` or `gearmand_con_free`. -/
inductive WorkerPc
  | idle
  /-- line 155 -/
  | checkCount
  /-- line 160 -/
  | checkList
  /-- line 162 -/
  | lock
  /-- line 163 -/
  | take
  /-- line 164, `GEARMAN_LIST_DEL`: `if (list == dcon)` -/
  | delTest (dcon : Nat)
  /-- `list= dcon->next` -/
  | delHead (dcon : Nat)
  /-- `if (dcon->prev != NULL)` -/
  | delPrevTest (dcon : Nat)
  /-- `dcon->prev->next= dcon->next` -/
  | delPrev (dcon : Nat)
  /-- `if (dcon->next != NULL)` -/
  | delNextTest (dcon : Nat)
  /-- `dcon->next->prev= dcon->prev` -/
  | delNext (dcon : Nat)
  /-- `thread->dcon_add_count--`, its load -/
  | delLoad (dcon : Nat)
  /-- its store of `count - 1` -/
  | delStore (dcon count : Nat)
  /-- line 165 -/
  | unlock (dcon : Nat)
  /-- lines 167, 168: `_con_add` -/
  | conAdd (dcon : Nat)
  /-- line 134 of `gearmand_con_free` -/
  | freeCount (dcon : Nat)
  /-- lines 141..143 -/
  | freeAdd (dcon : Nat)
  | fault
  deriving DecidableEq, Repr

structure Daemon where
  gearmand : Gearmand
  threads : Nat → DThread
  dcons : Nat → Dcon
  main : MainPc
  workers : Nat → WorkerPc
  handoffs : List Nat

def dconLinks : Links Dcon where
  next := Dcon.next
  prev := Dcon.prev
  setNext d p := { d with next := p }
  setPrev d p := { d with prev := p }
  next_setNext _ _ := rfl
  prev_setNext _ _ := rfl
  next_setPrev _ _ := rfl
  prev_setPrev _ _ := rfl

@[simp] theorem dconLinks_next (d : Dcon) : dconLinks.next d = d.next := rfl

@[simp] theorem dconLinks_prev (d : Dcon) : dconLinks.prev d = d.prev := rfl

def nthNode (next : Nat → Option Nat) : Option Nat → Nat → Option Nat
  | none, _ => none
  | some x, 0 => some x
  | some x, k + 1 => nthNode next (next x) k

def threadNext : List Nat → Nat → Option Nat
  | a :: b :: l, t => if t = a then some b else threadNext (b :: l) t
  | _, _ => none

/-! ## Updates of the daemon -/

namespace Daemon
variable (s : Daemon)

def setMain (pc : MainPc) : Daemon := { s with main := pc }

def setWorker (t : Nat) (pc : WorkerPc) : Daemon :=
  { s with workers := Function.update s.workers t pc }

def modifyThread (t : Nat) (f : DThread → DThread) : Daemon :=
  { s with threads := Function.update s.threads t (f (s.threads t)) }

def setDcons (heap : Nat → Dcon) : Daemon := { s with dcons := heap }

def setPool (list : Option Nat) (count : Nat) : Daemon :=
  { s with gearmand := { s.gearmand with freeDconList := list, freeDconCount := count } }

def dconThread (dcon : Nat) : Option Nat :=
  if (s.dcons dcon).allocated then (s.dcons dcon).thread else none

@[simp] theorem setMain_main (pc : MainPc) : (s.setMain pc).main = pc := rfl
@[simp] theorem setMain_workers (pc : MainPc) : (s.setMain pc).workers = s.workers := rfl
@[simp] theorem setMain_threads (pc : MainPc) : (s.setMain pc).threads = s.threads := rfl
@[simp] theorem setMain_dcons (pc : MainPc) : (s.setMain pc).dcons = s.dcons := rfl
@[simp] theorem setMain_gearmand (pc : MainPc) : (s.setMain pc).gearmand = s.gearmand := rfl
@[simp] theorem setMain_handoffs (pc : MainPc) : (s.setMain pc).handoffs = s.handoffs := rfl

@[simp] theorem setWorker_main (t : Nat) (pc : WorkerPc) : (s.setWorker t pc).main = s.main := rfl
@[simp] theorem setWorker_workers (t : Nat) (pc : WorkerPc) :
    (s.setWorker t pc).workers = Function.update s.workers t pc := rfl
@[simp] theorem setWorker_threads (t : Nat) (pc : WorkerPc) :
    (s.setWorker t pc).threads = s.threads := rfl
@[simp] theorem setWorker_dcons (t : Nat) (pc : WorkerPc) : (s.setWorker t pc).dcons = s.dcons :=
  rfl
@[simp] theorem setWorker_gearmand (t : Nat) (pc : WorkerPc) :
    (s.setWorker t pc).gearmand = s.gearmand := rfl
@[simp] theorem setWorker_handoffs (t : Nat) (pc : WorkerPc) :
    (s.setWorker t pc).handoffs = s.handoffs := rfl

@[simp] theorem modifyThread_main (t : Nat) (f : DThread → DThread) :
    (s.modifyThread t f).main = s.main := rfl
@[simp] theorem modifyThread_workers (t : Nat) (f : DThread → DThread) :
    (s.modifyThread t f).workers = s.workers := rfl
@[simp] theorem modifyThread_threads (t : Nat) (f : DThread → DThread) :
    (s.modifyThread t f).threads = Function.update s.threads t (f (s.threads t)) := rfl
@[simp] theorem modifyThread_dcons (t : Nat) (f : DThread → DThread) :
    (s.modifyThread t f).dcons = s.dcons := rfl
@[simp] theorem modifyThread_gearmand (t : Nat) (f : DThread → DThread) :
    (s.modifyThread t f).gearmand = s.gearmand := rfl
@[simp] theorem modifyThread_handoffs (t : Nat) (f : DThread → DThread) :
    (s.modifyThread t f).handoffs = s.handoffs := rfl

@[simp] theorem setDcons_main (heap : Nat → Dcon) : (s.setDcons heap).main = s.main := rfl
@[simp] theorem setDcons_workers (heap : Nat → Dcon) : (s.setDcons heap).workers = s.workers :=
  rfl
@[simp] theorem setDcons_threads (heap : Nat → Dcon) : (s.setDcons heap).threads = s.threads :=
  rfl
@[simp] theorem setDcons_dcons (heap : Nat → Dcon) : (s.setDcons heap).dcons = heap := rfl
@[simp] theorem setDcons_gearmand (heap : Nat → Dcon) :
    (s.setDcons heap).gearmand = s.gearmand := rfl
@[simp] theorem setDcons_handoffs (heap : Nat → Dcon) :
    (s.setDcons heap).handoffs = s.handoffs := rfl

@[simp] theorem setPool_main (l : Option Nat) (c : Nat) : (s.setPool l c).main = s.main := rfl
@[simp] theorem setPool_workers (l : Option Nat) (c : Nat) : (s.setPool l c).workers = s.workers :=
  rfl
@[simp] theorem setPool_threads (l : Option Nat) (c : Nat) : (s.setPool l c).threads = s.threads :=
  rfl
@[simp] theorem setPool_dcons (l : Option Nat) (c : Nat) : (s.setPool l c).dcons = s.dcons := rfl
@[simp] theorem setPool_gearmand (l : Option Nat) (c : Nat) :
    (s.setPool l c).gearmand = { s.gearmand with freeDconList := l, freeDconCount := c } := rfl
@[simp] theorem setPool_handoffs (l : Option Nat) (c : Nat) :
    (s.setPool l c).handoffs = s.handoffs := rfl

end Daemon

end GearmanServer
