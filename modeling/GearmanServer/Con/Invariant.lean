import GearmanServer.Con.Step
import Mathlib.Data.List.Perm.Subperm

/-!
# The hand-off invariant

What the design of `gearmand_con.c` relies on, as a property of a daemon state: every allocated
structure is in exactly one place (one of the lists, or in the hands of one thread), each list
is well formed and its count is its length, the mutex is held exactly while the worker is in its
locked region, and every structure waiting on a `dcon_add` list has a wakeup on its way.

The count of a `dcon_add` list is exact up to the updates in flight: the main thread's
`dcon_add_count++` once it has linked its structure, the worker's `dcon_add_count--` once it has
unlinked one. The two are never between load and store at the same time; that is where the
unlocked increment of `gearmand_con_create` can lose an update.

The places are ghost: `Layout` says where each structure is and in which order each list holds
its structures; `HandoffInv` says the heap and the threads agree with it.
-/

namespace GearmanServer

inductive Place
  | released
  | pool
  | grabbed
  | main
  | addQueue (t : Nat)
  | freeList (t : Nat)
  | conList (t : Nat)
  | worker (t : Nat)
  deriving DecidableEq

def Place.owner : Place → Option Nat
  | .addQueue t | .freeList t | .conList t | .worker t => some t
  | _ => none

structure Layout where
  loc : Nat → Place
  list : Place → List Nat

namespace Layout

structure Sound (ly : Layout) : Prop where
  mem : ∀ P a, P ≠ .released → (a ∈ ly.list P ↔ ly.loc a = P)
  nodup : ∀ P, P ≠ .released → (ly.list P).Nodup

def moveTo (ly : Layout) (a : Nat) (Q : Place) : Layout where
  loc := Function.update ly.loc a Q
  list R := if R = Q then a :: ly.list R else (ly.list R).erase a

def hand (ly : Layout) (P Q : Place) : Layout where
  loc x := if ly.loc x = P then Q else ly.loc x
  list R := if R = Q then ly.list P else if R = P then [] else ly.list R

variable {ly : Layout} {a x : Nat} {P Q R : Place}

@[simp] theorem moveTo_loc : (ly.moveTo a Q).loc x = if x = a then Q else ly.loc x := by
  simp [moveTo, Function.update_apply]

@[simp] theorem moveTo_list_self : (ly.moveTo a Q).list Q = a :: ly.list Q := if_pos rfl

theorem moveTo_list_of_ne (h : R ≠ Q) : (ly.moveTo a Q).list R = (ly.list R).erase a := if_neg h

theorem Sound.moveTo_list (hs : ly.Sound) (R : Place) (hR : R ≠ .released) (h : R ≠ Q)
    (ha : ly.loc a ≠ R) : (ly.moveTo a Q).list R = ly.list R := by
  rw [moveTo_list_of_ne h, List.erase_of_not_mem fun h' => ha ((hs.mem R a hR).1 h')]

theorem Sound.moveTo (hs : ly.Sound) (hQ : Q ≠ .released → ly.loc a ≠ Q) :
    (ly.moveTo a Q).Sound := by
  constructor
  · intro R x hR
    by_cases hRQ : R = Q
    · subst hRQ
      rw [moveTo_list_self, List.mem_cons, hs.mem R x hR, moveTo_loc]
      by_cases hx : x = a <;> simp [hx]
    · rw [moveTo_list_of_ne hRQ, (hs.nodup R hR).mem_erase_iff, hs.mem R x hR, moveTo_loc]
      by_cases hx : x = a <;> simp [hx, Ne.symm hRQ]
  · intro R hR
    by_cases hRQ : R = Q
    · subst hRQ
      rw [moveTo_list_self]
      exact List.nodup_cons.2 ⟨fun h => hQ hR ((hs.mem R a hR).1 h), hs.nodup R hR⟩
    · rw [moveTo_list_of_ne hRQ]; exact (hs.nodup R hR).erase a

@[simp] theorem hand_loc : (ly.hand P Q).loc x = if ly.loc x = P then Q else ly.loc x := rfl

theorem hand_list_self : (ly.hand P Q).list Q = ly.list P := if_pos rfl

theorem hand_list_from (h : P ≠ Q) : (ly.hand P Q).list P = [] := by simp [hand, h]

theorem hand_list_of_ne (hP : R ≠ P) (hQ : R ≠ Q) : (ly.hand P Q).list R = ly.list R := by
  simp [hand, hP, hQ]

theorem Sound.hand (hs : ly.Sound) (hP : P ≠ .released) (hQ : Q ≠ .released) (hPQ : P ≠ Q)
    (he : ly.list Q = []) : (ly.hand P Q).Sound := by
  have hnq : ∀ x, ly.loc x ≠ Q := fun x h => by
    simpa [he] using (hs.mem Q x hQ).2 h
  constructor
  · intro R x hR
    rw [hand_loc]
    by_cases hRQ : R = Q
    · subst hRQ
      rw [hand_list_self, hs.mem P x hP]
      by_cases hx : ly.loc x = P <;> simp [hx, hnq x]
    · by_cases hRP : R = P
      · subst hRP
        rw [hand_list_from hPQ]
        by_cases hx : ly.loc x = R <;> simp [hx, Ne.symm hRQ]
      · rw [hand_list_of_ne hRP hRQ, hs.mem R x hR]
        by_cases hx : ly.loc x = P <;> simp [hx, Ne.symm hRQ, Ne.symm hRP]
  · intro R hR
    by_cases hRQ : R = Q
    · subst hRQ; rw [hand_list_self]; exact hs.nodup P hP
    · by_cases hRP : R = P
      · subst hRP; rw [hand_list_from hPQ]; exact List.nodup_nil
      · rw [hand_list_of_ne hRP hRQ]; exact hs.nodup R hR

end Layout

/-! ## The places the threads' program counters hold -/

namespace MainPc

def held : MainPc → Option Nat
  | .addCount d | .freeCount d | .addTest d | .addPrev d | .addNext d | .addPrevNull d
  | .addHead d | .lock d => some d
  | _ => none

def dcon : MainPc → Option Nat
  | .addCount d | .freeCount d | .addTest d | .addPrev d | .addNext d | .addPrevNull d
  | .addHead d | .addLoad d | .addStore d _ _ | .wakeup d | .lock d | .checkCount d _
  | .wakeupLocked d _ => some d
  | _ => none

def grabbed : MainPc → Option Nat
  | .checkCount _ fl | .wakeupLocked _ fl | .moveFree fl => fl
  | _ => none

def addsUnlocked : MainPc → Bool
  | .freeCount _ | .addTest _ | .addPrev _ | .addNext _ | .addPrevNull _ | .addHead _ => true
  | _ => false

def pending : MainPc → Bool
  | .addLoad _ | .addStore _ _ _ => true
  | _ => false

def storing : MainPc → Bool
  | .addStore _ _ _ => true
  | _ => false

def wakes (count : Nat) : MainPc → Bool
  | .addLoad _ | .addStore _ _ _ | .wakeup _ | .wakeupLocked _ _ => true
  | .checkCount _ _ => count = 1
  | _ => false

def quiet : MainPc → Bool
  | .idle | .addCount _ | .lock _ | .moveFree _ | .fault => true
  | _ => false

theorem wakes_of_pending {pc : MainPc} (h : pc.pending = true) (count : Nat) :
    pc.wakes count = true := by
  cases pc <;> simp_all [pending, wakes]

theorem dcon_of_held {pc : MainPc} {d : Nat} (h : pc.held = some d) : pc.dcon = some d := by
  cases pc <;> simp_all [held, dcon]

theorem unlocked_facts {pc : MainPc} (h : pc.addsUnlocked = true) :
    pc.pending = false ∧ pc.storing = false ∧ (∀ c, pc.wakes c = false) ∧
      ∀ d u c, pc ≠ .addStore d u c := by
  cases pc <;> simp_all [addsUnlocked, pending, storing, wakes]

theorem quiet_facts {pc : MainPc} (h : pc.quiet = true) :
    pc.pending = false ∧ pc.addsUnlocked = false ∧ pc.storing = false ∧
      (∀ c, pc.wakes c = false) ∧ ∀ d u c, pc ≠ .addStore d u c := by
  cases pc <;> simp_all [quiet, pending, addsUnlocked, storing, wakes]

structure Follows (m m' : MainPc) (count : Nat) : Prop where
  pending : m'.pending = m.pending
  addsUnlocked : m'.addsUnlocked = true → m.addsUnlocked = true
  storing : m'.storing = true → m.storing = true
  addStore : ∀ d u c, m' = .addStore d u c → m = .addStore d u c
  wakes : m.wakes count = true → m'.wakes count = true

theorem Follows.refl (m : MainPc) (count : Nat) : m.Follows m count :=
  ⟨rfl, id, id, fun _ _ _ => id, id⟩

theorem Follows.of_quiet {m m' : MainPc} (h : m.quiet = true) (h' : m'.quiet = true)
    (count : Nat) : m.Follows m' count := by
  obtain ⟨p, u, -, w, -⟩ := quiet_facts h
  obtain ⟨p', u', s', -, a'⟩ := quiet_facts h'
  exact ⟨p'.trans p.symm, fun h => absurd h (by simp [u']), fun h => absurd h (by simp [s']),
    fun d u c h => absurd h (a' d u c), fun h => absurd h (by simp [w])⟩

theorem Follows.of_unlocked {m m' : MainPc} (h : m.addsUnlocked = true)
    (h' : m'.addsUnlocked = true) (count : Nat) : m.Follows m' count := by
  obtain ⟨p, -, w, -⟩ := unlocked_facts h
  obtain ⟨p', s', -, a'⟩ := unlocked_facts h'
  exact ⟨p'.trans p.symm, fun _ => h, fun h => absurd h (by simp [s']),
    fun d u c h => absurd h (a' d u c), fun h => absurd h (by simp [w])⟩

end MainPc

namespace WorkerPc

def held : WorkerPc → Option Nat
  | .delPrevTest d | .delPrev d | .delNextTest d | .delNext d | .delLoad d | .delStore d _
  | .unlock d | .conAdd d | .freeCount d | .freeAdd d => some d
  | _ => none

def locked : WorkerPc → Bool
  | .take | .delTest _ | .delHead _ | .delPrevTest _ | .delPrev _ | .delNextTest _ | .delNext _
  | .delLoad _ | .delStore _ _ | .unlock _ => true
  | _ => false

def pending : WorkerPc → Bool
  | .delPrevTest _ | .delPrev _ | .delNextTest _ | .delNext _ | .delLoad _ | .delStore _ _ => true
  | _ => false

def storing : WorkerPc → Bool
  | .delStore _ _ => true
  | _ => false

def busy : WorkerPc → Bool
  | .checkCount | .checkList | .lock | .take | .delTest _ | .delHead _ | .delPrevTest _
  | .delPrev _ | .delNextTest _ | .delNext _ | .delLoad _ | .delStore _ _ | .unlock _
  | .conAdd _ => true
  | _ => false

def unlinking : WorkerPc → Option Nat
  | .delPrevTest d | .delPrev d | .delNextTest d | .delNext d => some d
  | _ => none

theorem locked_of_pending {pc : WorkerPc} (h : pc.pending = true) : pc.locked = true := by
  cases pc <;> simp_all [pending, locked]

theorem pending_of_storing {pc : WorkerPc} (h : pc.storing = true) : pc.pending = true := by
  cases pc <;> simp_all [pending, storing]

theorem unlinking_of_pending {pc : WorkerPc} (h : pc.pending = false) : pc.unlinking = none := by
  cases pc <;> simp_all [pending, unlinking]

theorem held_of_pending {pc : WorkerPc} (h : pc.pending = true) : ∃ d, pc.held = some d := by
  cases pc <;> simp_all [pending, held]

end WorkerPc

def WorkerShape (heap : Nat → Dcon) (th : DThread) (q : List Nat) : WorkerPc → Prop
  | .lock | .take => q ≠ []
  | .delTest d | .delHead d => q.head? = some d
  | .delPrevTest d | .delNextTest d => (heap d).prev = none ∧ (heap d).next = th.dconAddList
  | .delNext d => (heap d).prev = none ∧ (heap d).next = th.dconAddList ∧ q ≠ []
  | .delStore _ count => count = th.dconAddCount
  | .delPrev _ | .fault => False
  | _ => True

structure ThreadView (heap : Nat → Dcon) (th : DThread) (m : MainPc) (w : WorkerPc)
    (fl cl q : List Nat) : Prop where
  freeList : dconLinks.DList heap th.freeDconList th.freeDconCount fl
  conList : dconLinks.DList heap th.dconList th.dconCount cl
  addChain : Chain (fun x => (heap x).next) th.dconAddList q
  addBack : Backlinked (fun x => (heap x).prev) w.unlinking q
  countLt : th.dconAddCount < uint32Size
  count : (th.dconAddCount + m.pending.toNat) % uint32Size =
    (q.length + w.pending.toNat) % uint32Size
  lock : th.lock = w.locked
  shape : WorkerShape heap th q w
  unlocked : m.addsUnlocked = true → q = [] ∧ w.pending = false
  store : ∀ d u count, m = .addStore d u count → count = th.dconAddCount
  noRace : ¬(m.storing = true ∧ w.storing = true)
  wakeup : q ≠ [] → 0 < th.wakeups ∨ w.busy = true ∨ m.wakes th.dconAddCount = true

structure Apart (fl cl q : List Nat) (held : Option Nat) : Prop where
  fl_cl : ∀ a ∈ fl, a ∉ cl
  fl_q : ∀ a ∈ fl, a ∉ q
  cl_q : ∀ a ∈ cl, a ∉ q
  held_fl : ∀ d, held = some d → d ∉ fl
  held_cl : ∀ d, held = some d → d ∉ cl
  held_q : ∀ d, held = some d → d ∉ q

namespace Daemon
variable (s : Daemon)

def mainThread : Option Nat := s.main.dcon.bind fun d => (s.dcons d).thread

def mainFor (t : Nat) : MainPc := if s.mainThread = some t then s.main else .idle

@[simp] theorem mainFor_setWorker (u t : Nat) (pc : WorkerPc) :
    (s.setWorker u pc).mainFor t = s.mainFor t := rfl

@[simp] theorem mainFor_modifyThread (u t : Nat) (f : DThread → DThread) :
    (s.modifyThread u f).mainFor t = s.mainFor t := rfl

def Racing : Prop := ∃ d t c d' c', s.main = .addStore d t c ∧ s.workers t = .delStore d' c'

structure HandoffInv (ts : List Nat) (slots : Nat) (ly : Layout) extends ly.Sound : Prop where
  main : ly.list .main = s.main.held.toList
  worker : ∀ t, ly.list (.worker t) = if t ∈ ts then (s.workers t).held.toList else []
  allocated : ∀ a, (s.dcons a).allocated = true ↔ ly.loc a ≠ .released
  bound : ∀ a, (s.dcons a).allocated = true → a < slots
  placed : ∀ a t, (ly.loc a).owner = some t → t ∈ ts
  pool : dconLinks.DList s.dcons s.gearmand.freeDconList s.gearmand.freeDconCount
    (ly.list .pool)
  grabbed : dconLinks.DChain s.dcons s.main.grabbed (ly.list .grabbed)
  held : ∀ d, s.main.held = some d → (s.dcons d).next = none ∧ (s.dcons d).prev = none
  mainThread : ∀ d, s.main.dcon = some d → ∃ t ∈ ts, (s.dcons d).thread = some t ∧
    ∀ u count, s.main = .addStore d u count → u = t
  mainOk : s.main ≠ .fault ∧ ∀ d, s.main ≠ .addPrev d
  nextThread : s.main = .idle → ∃ t ∈ ts, s.gearmand.nextThread = some t
  threadAddNext : s.main ≠ .idle → ∃ t ∈ ts, s.gearmand.threadAddNext = some t
  threadList : ∃ t ∈ ts, s.gearmand.threadList = some t
  threadNext : ∀ u ∈ ts, ∀ v, (s.threads u).next = some v → v ∈ ts
  thread : ∀ a t, (ly.loc a).owner = some t → (s.dcons a).thread = some t
  threads : ∀ t ∈ ts, ThreadView s.dcons (s.threads t) (s.mainFor t) (s.workers t)
    (ly.list (.freeList t)) (ly.list (.conList t)) (ly.list (.addQueue t))

end Daemon

/-! ## Lists of structures with `uint32_t` counts -/

theorem length_le_of_lt {xs : List Nat} {n : Nat} (hnd : xs.Nodup) (h : ∀ a ∈ xs, a < n) :
    xs.length ≤ n := by
  simpa using (List.subperm_of_subset hnd fun a ha => List.mem_range.2 (h a ha)).length_le

section Macros
variable {heap : Nat → Dcon} {list : Option Nat} {count obj : Nat} {xs : List Nat}

theorem eq_of_mod_eq {a b : Nat} (ha : a < uint32Size) (hb : b < uint32Size)
    (h : a % uint32Size = b % uint32Size) : a = b := by
  rwa [Nat.mod_eq_of_lt ha, Nat.mod_eq_of_lt hb] at h

theorem uint32Inc_of_lt (h : count + 1 < uint32Size) : uint32Inc count = count + 1 :=
  Nat.mod_eq_of_lt h

theorem uint32Dec_of_pos (h₀ : 0 < count) (h : count ≤ uint32Size) :
    uint32Dec count = count - 1 := by
  unfold uint32Dec uint32Size at *; omega

theorem DList.listAdd32 (hd : dconLinks.DList heap list count xs) (hobj : obj ∉ xs)
    (hlen : xs.length + 1 < uint32Size) :
    dconLinks.DList (dconLinks.listAdd heap list count obj).1 (some obj) (uint32Inc count)
      (obj :: xs) :=
  ⟨hd.toDChain.listAdd hobj, by rw [hd.count_eq]; exact uint32Inc_of_lt hlen⟩

theorem DList.listDel32 (hd : dconLinks.DList heap list count xs) (hobj : obj ∈ xs)
    (hlen : xs.length ≤ uint32Size) :
    dconLinks.DList (dconLinks.listDel heap list count obj).1
      (dconLinks.listDel heap list count obj).2.1 (uint32Dec count) (xs.erase obj) :=
  ⟨hd.toDChain.listDel hobj, by
    rw [hd.count_eq, List.length_erase_of_mem hobj]
    exact uint32Dec_of_pos (List.length_pos_of_mem hobj) hlen⟩

end Macros

/-! ## A thread's invariant, framed -/

namespace ThreadView

variable {heap heap' : Nat → Dcon} {th : DThread} {m m' : MainPc} {w : WorkerPc}
  {fl cl q : List Nat}

theorem frame (hv : ThreadView heap th m w fl cl q) (hm : m.Follows m' th.dconAddCount)
    (hd : ∀ a, a ∈ fl ∨ a ∈ cl ∨ a ∈ q ∨ w.held = some a →
      (heap' a).next = (heap a).next ∧ (heap' a).prev = (heap a).prev) :
    ThreadView heap' th m' w fl cl q where
  freeList := hv.freeList.congr fun x hx => hd x (.inl hx)
  conList := hv.conList.congr fun x hx => hd x (.inr (.inl hx))
  addChain := seg_congr hv.addChain fun x hx => (hd x (.inr (.inr (.inl hx)))).1
  addBack := backlinked_congr hv.addBack fun x hx => (hd x (.inr (.inr (.inl hx)))).2
  countLt := hv.countLt
  count := hm.pending ▸ hv.count
  lock := hv.lock
  shape := by
    have hs := hv.shape
    revert hs
    cases hpc : w <;> simp only [WorkerShape, imp_self]
    all_goals
      have hdd := hd _ (.inr (.inr (.inr (by rw [hpc]; rfl))))
      rw [hdd.1, hdd.2]
      exact id
  unlocked h := hv.unlocked (hm.addsUnlocked h)
  store d u c h := hv.store d u c (hm.addStore d u c h)
  noRace h := hv.noRace ⟨hm.storing h.1, h.2⟩
  wakeup hne := (hv.wakeup hne).imp_right (Or.imp_right hm.wakes)

theorem count_eq (hv : ThreadView heap th m w fl cl q) (hm : m.pending = false)
    (hq : q.length + w.pending.toNat < uint32Size) :
    th.dconAddCount = q.length + w.pending.toNat := by
  have h := hv.count
  rw [hm, Bool.toNat_false, Nat.add_zero] at h
  exact eq_of_mod_eq hv.countLt hq h

end ThreadView

end GearmanServer
