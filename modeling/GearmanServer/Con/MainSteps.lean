import GearmanServer.Con.WorkerSteps

/-!
# The main thread keeps the hand-off invariant

Each statement of `gearmand_con_create` keeps the invariant of the thread it hands the
structure to (`ThreadView`), as a lemma on that thread's record, its lists and the heap; the
other threads see the main thread idle throughout. The unlocked branch relies on the count it
read being zero: the list is empty then, and the worker is not unlinking a structure from it.

Three statements read `dcon->thread` after the structure is on the thread's list: the load of
`dcon_add_count` (line 84), `gearmand_thread_wakeup` (line 84) and the test of line 103. The
worker may have taken the structure and freed it by then; `HandoffInv.conCreate` shows that
this, and the race of the two loads of the count, are the only ways the invariant fails.
-/

namespace GearmanServer

namespace WorkerShape

variable {heap heap' : Nat → Dcon} {th th' : DThread} {q : List Nat} {w : WorkerPc} {d : Nat}

theorem push (hs : WorkerShape heap th q w) (hw : w.pending = false)
    (hl : w.locked = true → q = []) : WorkerShape heap' th' (d :: q) w := by
  cases w <;> simp_all [WorkerShape, WorkerPc.pending, WorkerPc.locked]

theorem setCount (hs : WorkerShape heap th q w) (hw : w.storing = false) (c : Nat) :
    WorkerShape heap { th with dconAddCount := c } q w := by
  cases w <;> simp_all [WorkerShape, WorkerPc.storing]

end WorkerShape

namespace ThreadView

variable {heap : Nat → Dcon} {th : DThread} {w : WorkerPc} {fl cl q : List Nat} {d : Nat}

theorem addCount (hv : ThreadView heap th (.addCount d) w fl cl q)
    (hlen : q.length + w.pending.toNat < uint32Size) :
    ThreadView heap th (if th.dconAddCount = 0 then .freeCount d else .lock d) w fl cl q := by
  split
  · have h := hv.count_eq rfl hlen
    rw [‹th.dconAddCount = 0›] at h
    refine { hv with unlocked := fun _ => ?_, store := fun _ _ _ h => by cases h }
    cases hp : w.pending
    · rw [hp, Bool.toNat_false, Nat.add_zero] at h
      exact ⟨List.length_eq_zero.1 h.symm, rfl⟩
    · rw [hp] at h; simp at h
  · exact hv.frame (MainPc.Follows.of_quiet (by rfl) (by rfl) _) fun _ _ => ⟨rfl, rfl⟩

theorem freeCountTest (hv : ThreadView heap th (.freeCount d) w fl cl q) (c : Prop) [Decidable c] :
    ThreadView heap th (if c then .addTest d else .lock d) w fl cl q := by
  split
  · exact { hv with store := fun _ _ _ h => by cases h }
  · exact { hv with unlocked := fun h => (by cases h), store := fun _ _ _ h => by cases h }

theorem addTest (hv : ThreadView heap th (.addTest d) w fl cl q) :
    th.dconAddList = none ∧ ThreadView heap th (.addNext d) w fl cl q :=
  ⟨by rw [chain_head hv.addChain, (hv.unlocked rfl).1]; rfl,
    { hv with store := fun _ _ _ h => by cases h }⟩

theorem addHead (hv : ThreadView heap th (.addHead d) w fl cl q) (hn : (heap d).next = none)
    (hp : (heap d).prev = none) :
    ThreadView heap { th with dconAddList := some d } (.addLoad d) w fl cl [d] := by
  obtain ⟨rfl, hw⟩ := hv.unlocked rfl
  have hc := hv.count_eq rfl (by rw [hw]; decide)
  rw [hw] at hc
  exact {
    freeList := hv.freeList
    conList := hv.conList
    addChain := ⟨rfl, hn⟩
    addBack := ⟨by rw [WorkerPc.unlinking_of_pending hw]; exact hp, trivial⟩
    countLt := hv.countLt
    count := by rw [hw]; simp [hc, MainPc.pending]
    lock := hv.lock
    shape := hv.shape.push hw fun _ => rfl
    unlocked := fun h => by cases h
    store := fun _ _ _ h => by cases h
    noRace := fun h => by cases h.1
    wakeup := fun _ => .inr (.inr rfl) }

theorem addLoad (hv : ThreadView heap th (.addLoad d) w fl cl q) (hw : w.storing = false)
    (t : Nat) : ThreadView heap th (.addStore d t th.dconAddCount) w fl cl q :=
  { hv with
    store := fun _ _ _ h => by cases h; rfl
    noRace := fun h => absurd h.2 (by rw [hw]; decide) }

theorem addStore {t c : Nat} (hv : ThreadView heap th (.addStore d t c) w fl cl q) :
    ThreadView heap { th with dconAddCount := uint32Inc c } (.wakeup d) w fl cl q := by
  have hc := hv.store d t c rfl
  have hw : w.storing = false := Bool.eq_false_iff.2 fun h => hv.noRace ⟨rfl, h⟩
  exact { hv with
    countLt := Nat.mod_lt _ (by decide)
    count := by
      have h := hv.count
      rw [← hc] at h
      change (c + 1) % uint32Size = _ at h
      change (uint32Inc c + 0) % uint32Size = _
      rw [← h]
      unfold uint32Inc uint32Size
      omega
    shape := hv.shape.setCount hw _
    store := fun _ _ _ h => by cases h
    noRace := fun h => by cases h.1
    wakeup := fun _ => .inr (.inr rfl) }

theorem woken {m m' : MainPc} (hv : ThreadView heap th m w fl cl q) (hp : m.pending = false)
    (hq : m'.quiet = true) :
    ThreadView heap { th with wakeups := th.wakeups + 1 } m' w fl cl q := by
  obtain ⟨p', u', s', -, a'⟩ := MainPc.quiet_facts hq
  exact { hv with
    count := by rw [p', ← hp]; exact hv.count
    unlocked := fun h => absurd h (by simp [u'])
    store := fun d u c h => absurd h (a' d u c)
    noRace := fun h => absurd h.1 (by simp [s'])
    wakeup := fun _ => .inl (Nat.succ_pos _) }

theorem locked (hv : ThreadView heap th (.lock d) w fl cl q) (hl : th.lock = false)
    (hq : q.Nodup) (ha : Apart fl cl q w.held) (hd : d ∉ fl ∧ d ∉ cl ∧ d ∉ q)
    (hlen : q.length + 1 < uint32Size) :
    ThreadView (dconLinks.listAdd heap th.dconAddList th.dconAddCount d).1
        { th with
          dconAddList := some d
          dconAddCount := uint32Inc th.dconAddCount
          freeDconList := none
          freeDconCount := 0 }
        (.checkCount d th.freeDconList) w [] cl (d :: q) ∧
      dconLinks.DChain (dconLinks.listAdd heap th.dconAddList th.dconAddCount d).1
        th.freeDconList fl := by
  have hwl : w.locked = false := hv.lock ▸ hl
  have hwp : w.pending = false := by
    cases hp : w.pending
    · rfl
    · rw [WorkerPc.locked_of_pending hp] at hwl; cases hwl
  have hqc := hv.addDChain hwp hq
  have hc := hv.count_eq rfl (by rw [hwp]; exact Nat.lt_of_succ_lt hlen)
  rw [hwp, Bool.toNat_false, Nat.add_zero] at hc
  have hnew : dconLinks.DChain (dconLinks.listAdd heap th.dconAddList th.dconAddCount d).1
      (some d) (d :: q) := hqc.listAdd hd.2.2
  refine ⟨{
    freeList := ⟨⟨rfl, trivial, List.nodup_nil⟩, rfl⟩
    conList := hv.conList.congr fun a h =>
      hqc.listAdd_frame (ha.cl_q a h) fun e => hd.2.1 (e ▸ h)
    addChain := hnew.chain
    addBack := by rw [WorkerPc.unlinking_of_pending hwp]; exact hnew.back
    countLt := Nat.mod_lt _ (by decide)
    count := by
      rw [hwp]
      change (uint32Inc th.dconAddCount + 0) % uint32Size = (q.length + 1 + 0) % uint32Size
      rw [hc]
      unfold uint32Inc
      simp
    lock := hv.lock
    shape := hv.shape.push hwp fun h => absurd h (by rw [hwl]; decide)
    unlocked := fun h => by cases h
    store := fun _ _ _ h => by cases h
    noRace := fun h => by cases h.1
    wakeup := fun _ => ?_ }, hv.freeList.toDChain.congr fun a h =>
      hqc.listAdd_frame (ha.fl_q a h) fun e => hd.1 (e ▸ h)⟩
  by_cases hq0 : q = []
  · subst hq0
    refine .inr (.inr ?_)
    simp only [MainPc.wakes, hc, List.length_nil]
    decide
  · rcases hv.wakeup hq0 with h | h | h
    · exact .inl h
    · exact .inr (.inl h)
    · cases h

end ThreadView

/-! ## The rest of the daemon -/

namespace Daemon

variable {ts : List Nat} {slots : Nat} {s s' : Daemon} {ly ly' : Layout}

theorem mainFor_of_thread {t : Nat} (h : s.mainThread = some t) : s.mainFor t = s.main := if_pos h

theorem mainFor_of_ne {t u : Nat} (h : s.mainThread = some t ∨ s.mainThread = none)
    (hu : u ≠ t) : s.mainFor u = .idle := by
  refine if_neg fun h' => ?_
  rcases h with h | h <;> rw [h] at h'
  · exact hu (Option.some.inj h').symm
  · cases h'

theorem mainFor_quiet (h : s.main.quiet = true) (t : Nat) : (s.mainFor t).quiet = true := by
  unfold mainFor
  split
  · exact h
  · rfl

theorem mainThread_of_dcon {d : Nat} (hd : s.main.dcon = some d) :
    s.mainThread = (s.dcons d).thread := by
  unfold mainThread; rw [hd]; rfl

theorem mainThread_of_none (hd : s.main.dcon = none) : s.mainThread = none := by
  unfold mainThread; rw [hd]; rfl

theorem withThread_of_thread {d t : Nat} {k : Nat → Option Daemon} (h : s.dconThread d = some t) :
    s.withThread d k = k t := by
  unfold withThread; rw [h]

theorem withThread_of_none {d : Nat} {k : Nat → Option Daemon} (h : s.dconThread d = none) :
    s.withThread d k = some (s.setMain .fault) := by
  unfold withThread; rw [h]

theorem HandoffInv.loc_main (hi : s.HandoffInv ts slots ly) {d : Nat}
    (hd : s.main.held = some d) : ly.loc d = .main :=
  hi.loc_of_mem (by simp) (by rw [hi.main, hd]; exact List.mem_singleton_self d)

theorem HandoffInv.held_thread (hi : s.HandoffInv ts slots ly) {d : Nat}
    (hd : s.main.held = some d) :
    ∃ t ∈ ts, (s.dcons d).thread = some t ∧ s.dconThread d = some t := by
  obtain ⟨t, ht, hdt, -⟩ := hi.mainThread d (MainPc.dcon_of_held hd)
  have hal : (s.dcons d).allocated = true := (hi.allocated d).2 (by rw [hi.loc_main hd]; simp)
  exact ⟨t, ht, hdt, by unfold dconThread; rw [if_pos hal, hdt]⟩

theorem HandoffInv.dcon_thread (hi : s.HandoffInv ts slots ly) {d : Nat}
    (hd : s.main.dcon = some d) :
    ∃ t ∈ ts, (s.dcons d).thread = some t ∧
      (s.dconThread d = some t ∨ s.dconThread d = none ∧ (s.dcons d).allocated = false) := by
  obtain ⟨t, ht, hdt, -⟩ := hi.mainThread d hd
  refine ⟨t, ht, hdt, ?_⟩
  unfold dconThread
  cases (s.dcons d).allocated
  · exact .inr ⟨rfl, rfl⟩
  · exact .inl hdt

theorem HandoffInv.queue_len (hi : s.HandoffInv ts slots ly) {t : Nat} (ht : t ∈ ts) :
    (ly.list (.addQueue t)).length + (s.workers t).pending.toNat ≤ slots := by
  have h := hi.length_add_le (P := .addQueue t) (Q := .worker t) (by simp) (by simp) (by simp)
  rw [hi.worker_held ht] at h
  cases hp : (s.workers t).pending
  · exact (Nat.le_add_right _ _).trans h
  · obtain ⟨d, hd⟩ := WorkerPc.held_of_pending hp
    rw [hd] at h
    exact h

theorem HandoffInv.threads_main (hi : s.HandoffInv ts slots ly) {t : Nat}
    (hwk : s'.workers = s.workers)
    (hth : ∀ u, u ≠ t → s'.threads u = s.threads u)
    (hmf : ∀ u, u ≠ t → s'.mainFor u = s.mainFor u)
    (hl : ∀ u, u ≠ t → ∀ R, R.owner = some u → ly'.list R = ly.list R)
    (hlinks : ∀ a u, u ≠ t → (ly.loc a).owner = some u → ly.loc a ≠ .released →
      (s'.dcons a).next = (s.dcons a).next ∧ (s'.dcons a).prev = (s.dcons a).prev)
    (hv : t ∈ ts → ThreadView s'.dcons (s'.threads t) (s'.mainFor t) (s'.workers t)
      (ly'.list (.freeList t)) (ly'.list (.conList t)) (ly'.list (.addQueue t))) :
    ∀ u ∈ ts, ThreadView s'.dcons (s'.threads u) (s'.mainFor u) (s'.workers u)
      (ly'.list (.freeList u)) (ly'.list (.conList u)) (ly'.list (.addQueue u)) := by
  intro u hu
  by_cases hut : u = t
  · subst hut; exact hv hu
  · rw [hwk, hth u hut, hmf u hut, hl u hut (.freeList u) rfl, hl u hut (.conList u) rfl,
      hl u hut (.addQueue u) rfl]
    refine (hi.threads u hu).frame (.refl _ _) fun a ha => ?_
    obtain ⟨h₁, h₂⟩ := hi.view_owner hu a ha
    exact hlinks a u hut h₂ h₁

theorem HandoffInv.of_call (hi : s.HandoffInv ts slots ly) {d t : Nat}
    (hd : s.main.dcon = some d) (ht : (s.dcons d).thread = some t)
    (hdc : ∀ a, (a ≠ d ∨ s.main.held ≠ some d) → s'.dcons a = s.dcons a)
    (hdd : (s'.dcons d).thread = (s.dcons d).thread ∧
      (s'.dcons d).allocated = (s.dcons d).allocated)
    (hwk : s'.workers = s.workers) (hg : s'.gearmand = s.gearmand)
    (hth : ∀ u, u ≠ t → s'.threads u = s.threads u)
    (hnext : (s'.threads t).next = (s.threads t).next)
    (hpd : s'.main.dcon = some d) (hheld : s'.main.held = s.main.held)
    (hlinks : s.main.held = some d → (s'.dcons d).next = none ∧ (s'.dcons d).prev = none)
    (hgr : s'.main.grabbed = s.main.grabbed)
    (hok : s'.main ≠ .fault ∧ ∀ d, s'.main ≠ .addPrev d)
    (hu : ∀ d' u c, s'.main = .addStore d' u c → u = t)
    (hv : ThreadView s'.dcons (s'.threads t) s'.main (s.workers t) (ly.list (.freeList t))
      (ly.list (.conList t)) (ly.list (.addQueue t))) :
    s'.HandoffInv ts slots ly := by
  have hsame : ∀ a, ly.loc a ≠ .main → s'.dcons a = s.dcons a := fun a ha => hdc a (by
    by_cases had : a = d
    · subst had; exact .inr fun h => ha (hi.loc_main h)
    · exact .inl had)
  have hfield : ∀ a, (s'.dcons a).thread = (s.dcons a).thread ∧
      (s'.dcons a).allocated = (s.dcons a).allocated := fun a => by
    by_cases had : a = d
    · subst had; exact hdd
    · rw [hdc a (.inl had)]; exact ⟨rfl, rfl⟩
  have hmt : s'.mainThread = some t := by rw [mainThread_of_dcon hpd, (hfield d).1, ht]
  have hmt₀ : s.mainThread = some t := by rw [mainThread_of_dcon hd, ht]
  have hnode : ∀ R, R ≠ .main → R ≠ .released → ∀ x ∈ ly.list R,
      (s'.dcons x).next = (s.dcons x).next ∧ (s'.dcons x).prev = (s.dcons x).prev :=
    fun R hR hRr x hx => by rw [hsame x (by rw [hi.loc_of_mem hRr hx]; exact hR)]; exact ⟨rfl, rfl⟩
  refine ⟨hi.toSound, by rw [hheld]; exact hi.main, by rw [hwk]; exact hi.worker,
    fun a => by rw [(hfield a).2]; exact hi.allocated a,
    fun a h => hi.bound a (by rwa [← (hfield a).2]), hi.placed,
    by rw [hg]; exact hi.pool.congr (hnode .pool (by simp) (by simp)),
    by rw [hgr]; exact hi.grabbed.congr (hnode .grabbed (by simp) (by simp)), ?_, ?_, hok,
    fun h => absurd (h ▸ hpd) (by simp [MainPc.dcon]), ?_, by rw [hg]; exact hi.threadList, ?_,
    fun a u h => by rw [(hfield a).1]; exact hi.thread a u h, ?_⟩
  · intro d' hd'
    rw [hheld] at hd'
    have := (MainPc.dcon_of_held hd').symm.trans hd
    cases this
    exact hlinks hd'
  · intro d' hd'
    rw [hpd] at hd'
    cases hd'
    obtain ⟨t', ht', hdt, -⟩ := hi.mainThread d hd
    rw [ht] at hdt
    cases hdt
    exact ⟨t, ht', by rw [(hfield d).1, ht], hu d⟩
  · intro _
    rw [hg]
    exact hi.threadAddNext fun h => by rw [h] at hd; cases hd
  · intro u hu' v hv'
    by_cases hut : u = t
    · rw [hut, hnext] at hv'; exact hi.threadNext t (hut ▸ hu') v hv'
    · rw [hth u hut] at hv'; exact hi.threadNext u hu' v hv'
  · refine hi.threads_main hwk hth (fun u hu => ?_) (fun _ _ _ _ => rfl)
      (fun a u _ ho _ => ?_) fun _ => ?_
    · rw [mainFor_of_ne (.inl hmt) hu, mainFor_of_ne (.inl hmt₀) hu]
    · rw [hsame a fun h => by rw [h] at ho; cases ho]; exact ⟨rfl, rfl⟩
    · rw [mainFor_of_thread hmt, hwk]; exact hv

theorem HandoffInv.of_leave (hi : s.HandoffInv ts slots ly) {d t : Nat}
    (hd : s.main.dcon = some d) (ht : (s.dcons d).thread = some t)
    (hdc : s'.dcons = s.dcons) (hwk : s'.workers = s.workers) (hg : s'.gearmand = s.gearmand)
    (hth : ∀ u, u ≠ t → s'.threads u = s.threads u)
    (hnext : (s'.threads t).next = (s.threads t).next)
    (hpd : s'.main.dcon = none) (hheld : s'.main.held = none) (hsh : s.main.held = none)
    (hgr : s'.main.grabbed = s.main.grabbed)
    (hok : s'.main ≠ .fault ∧ s'.main ≠ .idle ∧ ∀ d, s'.main ≠ .addPrev d)
    (hv : ThreadView s.dcons (s'.threads t) .idle (s.workers t) (ly.list (.freeList t))
      (ly.list (.conList t)) (ly.list (.addQueue t))) :
    s'.HandoffInv ts slots ly := by
  have hmt : s'.mainThread = none := mainThread_of_none hpd
  have hmt₀ : s.mainThread = some t := by rw [mainThread_of_dcon hd, ht]
  refine ⟨hi.toSound, by rw [hheld, ← hsh]; exact hi.main, by rw [hwk]; exact hi.worker,
    by rw [hdc]; exact hi.allocated, by rw [hdc]; exact hi.bound, hi.placed,
    by rw [hg, hdc]; exact hi.pool, by rw [hgr, hdc]; exact hi.grabbed,
    fun _ h => (by rw [hheld] at h; cases h), fun _ h => (by rw [hpd] at h; cases h),
    ⟨hok.1, hok.2.2⟩, fun h => absurd h hok.2.1,
    fun _ => (by rw [hg]; exact hi.threadAddNext fun h => by rw [h] at hd; cases hd),
    by rw [hg]; exact hi.threadList, fun u hu v hv' => ?_,
    fun a u h => (by rw [hdc]; exact hi.thread a u h), ?_⟩
  · by_cases hut : u = t
    · rw [hut, hnext] at hv'; exact hi.threadNext t (hut ▸ hu) v hv'
    · rw [hth u hut] at hv'; exact hi.threadNext u hu v hv'
  · refine hi.threads_main hwk hth (fun u hu => ?_) (fun _ _ _ _ => rfl)
      (fun a _ _ _ _ => by rw [hdc]; exact ⟨rfl, rfl⟩) fun _ => ?_
    · rw [mainFor_of_ne (.inr hmt) hu, mainFor_of_ne (.inl hmt₀) hu]
    · rw [mainFor_of_ne (.inr hmt) (t := t + 1) (by omega), hdc, hwk]; exact hv

theorem conCreateDone_setMain (s : Daemon) (pc : MainPc) :
    (s.setMain pc).conCreateDone = s.conCreateDone := rfl

theorem HandoffInv.conCreateDone (hi : s.HandoffInv ts slots ly) (hm : s.main = .moveFree none) :
    s.conCreateDone.HandoffInv ts slots ly := by
  obtain ⟨u, hu, hnu⟩ := hi.threadAddNext (by rw [hm]; simp)
  have hmt : s.mainThread = none := mainThread_of_none (by rw [hm]; rfl)
  unfold Daemon.conCreateDone
  rw [hnu]
  dsimp only
  exact { hi with
    main := by rw [hi.main, hm]; rfl
    grabbed := by have := hi.grabbed; rw [hm] at this; exact this
    held := fun _ h => by cases h
    mainThread := fun _ h => by cases h
    mainOk := ⟨fun h => (by cases h), fun _ h => (by cases h)⟩
    nextThread := fun _ => by
      simp only [Gearmand.nextThread]
      cases hn : (s.threads u).next with
      | none => exact hi.threadList
      | some v => exact ⟨v, hi.threadNext u hu v hn, rfl⟩
    threadAddNext := fun h => absurd rfl h
    threads := fun t ht => by
      have hv := hi.threads t ht
      rw [mainFor_of_ne (.inr hmt) (t := t + 1) (by omega)] at hv
      exact hv }

theorem HandoffInv.addHead (hi : s.HandoffInv ts slots ly) {d t : Nat}
    (hm : s.main = .addHead d) (ht : (s.dcons d).thread = some t) :
    ((s.modifyThread t fun th => { th with dconAddList := some d }).setMain
      (.addLoad d)).HandoffInv ts slots (ly.moveTo d (.addQueue t)) := by
  have hd : s.main.dcon = some d := by rw [hm]; rfl
  have hheld : s.main.held = some d := by rw [hm]; rfl
  have hloc := hi.loc_main hheld
  obtain ⟨t', ht', hdt', -⟩ := hi.mainThread d hd
  rw [ht] at hdt'
  cases hdt'
  have hmt : s.mainThread = some t := by rw [mainThread_of_dcon hd, ht]
  have hkeep : ∀ R, R ≠ .released → R ≠ .main → R ≠ .addQueue t →
      (ly.moveTo d (.addQueue t)).list R = ly.list R := fun R hR hm hq =>
    hi.toSound.moveTo_list R hR hq (by rw [hloc]; exact Ne.symm hm)
  have hv := hi.threads t ht'
  rw [mainFor_of_thread hmt, hm] at hv
  have hq : ly.list (.addQueue t) = [] := (hv.unlocked rfl).1
  have hmt' : ((s.modifyThread t fun th => { th with dconAddList := some d }).setMain
      (.addLoad d)).mainThread = some t := ht
  refine ⟨hi.toSound.moveTo fun _ => (by rw [hloc]; simp), ?_, fun u => ?_, fun a => ?_,
    hi.bound, fun a u h => ?_, ?_, ?_, fun _ h => (by cases h), fun _ h => ?_,
    ⟨fun h => (by cases h), fun _ h => (by cases h)⟩, fun h => (by cases h),
    fun _ => hi.threadAddNext (by rw [hm]; simp), hi.threadList, fun u hu v hv' => ?_,
    fun a u h => ?_, ?_⟩
  · rw [Layout.moveTo_list_of_ne (by simp), hi.main, hheld]; simp [MainPc.held]
  · rw [hkeep _ (by simp) (by simp) (by simp), hi.worker u]; rfl
  · refine (hi.allocated a).trans ?_
    rw [Layout.moveTo_loc]
    by_cases had : a = d
    · rw [if_pos had, had, hloc]; simp
    · rw [if_neg had]
  · rw [Layout.moveTo_loc] at h
    split at h
    · cases h; exact ht'
    · exact hi.placed a u h
  · rw [hkeep _ (by simp) (by simp) (by simp)]; exact hi.pool
  · rw [hkeep _ (by simp) (by simp) (by simp)]
    have := hi.grabbed; rw [hm] at this; exact this
  · cases h; exact ⟨t, ht', ht, fun _ _ h => by cases h⟩
  · by_cases hut : u = t
    · rw [hut] at hv'; simp only [setMain_threads, modifyThread_threads,
        Function.update_same] at hv'; exact hi.threadNext t ht' v hv'
    · simp only [setMain_threads, modifyThread_threads, Function.update_noteq hut] at hv'
      exact hi.threadNext u hu v hv'
  · rw [Layout.moveTo_loc] at h
    split at h
    · rename_i had; cases h; rw [had]; exact ht
    · exact hi.thread a u h
  · refine hi.threads_main rfl (fun u hu => Function.update_noteq hu _ _) (fun u hu => ?_)
      (fun u hu R hR => hkeep R (by rintro rfl; cases hR) (by rintro rfl; cases hR)
        (by rintro rfl; exact hu (Option.some.inj hR).symm))
      (fun _ _ _ _ _ => ⟨rfl, rfl⟩) fun _ => ?_
    · rw [mainFor_of_ne (.inl hmt') hu, mainFor_of_ne (.inl hmt) hu]
    · rw [mainFor_of_thread hmt', hkeep _ (by simp) (by simp) (by simp),
        hkeep (.conList t) (by simp) (by simp) (by simp), Layout.moveTo_list_self, hq]
      simpa using hv.addHead (hi.held d hheld).1 (hi.held d hheld).2

theorem HandoffInv.conCreateLocked (hi : s.HandoffInv ts slots ly) (hslots : slots < uint32Size)
    {d t : Nat} (hm : s.main = .lock d) (ht : (s.dcons d).thread = some t)
    (hl : (s.threads t).lock = false) :
    (((s.setDcons (dconLinks.listAdd s.dcons (s.threads t).dconAddList
        (s.threads t).dconAddCount d).1).modifyThread t fun th => { th with
          dconAddList := some d
          dconAddCount := uint32Inc th.dconAddCount
          freeDconList := none
          freeDconCount := 0 }).setMain
      (.checkCount d (s.threads t).freeDconList)).HandoffInv ts slots
      ((ly.hand (.freeList t) .grabbed).moveTo d (.addQueue t)) := by
  have hd : s.main.dcon = some d := by rw [hm]; rfl
  have hheld : s.main.held = some d := by rw [hm]; rfl
  have hloc := hi.loc_main hheld
  obtain ⟨t', ht', hdt', -⟩ := hi.mainThread d hd
  rw [ht] at hdt'
  cases hdt'
  have hmt : s.mainThread = some t := by rw [mainThread_of_dcon hd, ht]
  have hv := hi.threads t ht'
  rw [mainFor_of_thread hmt, hm] at hv
  have hgr : ly.list .grabbed = [] := by
    have := hi.grabbed.chain; rw [hm] at this; exact chain_none_iff.1 this
  have hoff : ∀ R, R ≠ .released → R ≠ .main → d ∉ ly.list R := fun R hR hRm h => by
    rw [hi.loc_of_mem hR h] at hloc; exact hRm hloc
  have hs₁ := hi.toSound.hand (P := .freeList t) (Q := .grabbed) (by simp) (by simp) (by simp) hgr
  have hloc₁ : (ly.hand (.freeList t) .grabbed).loc d = .main := by simp [hloc]
  have hkeep : ∀ R, R ≠ .released → R ≠ .main → R ≠ .addQueue t → R ≠ .freeList t →
      R ≠ .grabbed → ((ly.hand (.freeList t) .grabbed).moveTo d (.addQueue t)).list R =
        ly.list R := fun R h₁ h₂ h₃ h₄ h₅ => by
    rw [hs₁.moveTo_list R h₁ h₃ (by rw [hloc₁]; exact Ne.symm h₂), Layout.hand_list_of_ne h₄ h₅]
  have hlen : (ly.list (.addQueue t)).length + 1 < uint32Size := by
    have h := hi.length_add_le (P := .addQueue t) (Q := .main) (by simp) (by simp) (by simp)
    rw [hi.main, hheld] at h
    exact lt_of_le_of_lt h hslots
  have hqc := hv.addDChain (by
    cases hp : (s.workers t).pending
    · rfl
    · have := WorkerPc.locked_of_pending hp; rw [← hv.lock, hl] at this; cases this)
    (hi.nodup _ (by simp))
  obtain ⟨hv', hgc⟩ := hv.locked hl (hi.nodup _ (by simp)) (hi.apart ht')
    ⟨hoff _ (by simp) (by simp), hoff _ (by simp) (by simp), hoff _ (by simp) (by simp)⟩ hlen
  have hlinks : ∀ a, ly.loc a ≠ .addQueue t → ly.loc a ≠ .main →
      ((dconLinks.listAdd s.dcons (s.threads t).dconAddList (s.threads t).dconAddCount d).1
        a).next = (s.dcons a).next ∧
      ((dconLinks.listAdd s.dcons (s.threads t).dconAddList (s.threads t).dconAddCount d).1
        a).prev = (s.dcons a).prev := fun a h₁ h₂ =>
    hqc.listAdd_frame (fun h => h₁ (hi.loc_of_mem (by simp) h)) fun h => h₂ (h ▸ hloc)
  have halloc : ∀ a, ((dconLinks.listAdd s.dcons (s.threads t).dconAddList
      (s.threads t).dconAddCount d).1 a).allocated = (s.dcons a).allocated :=
    dconLinks.field_listAdd Dcon.allocated (fun _ _ => rfl) (fun _ _ => rfl) _ _ _ _
  have hmt' : (((s.setDcons (dconLinks.listAdd s.dcons (s.threads t).dconAddList
        (s.threads t).dconAddCount d).1).modifyThread t fun th => { th with
          dconAddList := some d
          dconAddCount := uint32Inc th.dconAddCount
          freeDconList := none
          freeDconCount := 0 }).setMain
      (.checkCount d (s.threads t).freeDconList)).mainThread = some t := by
    unfold Daemon.mainThread
    simp only [setMain_main, MainPc.dcon, setMain_dcons, modifyThread_dcons, setDcons_dcons,
      thread_listAdd, Option.some_bind, ht]
  refine ⟨hs₁.moveTo fun _ => (by rw [hloc₁]; simp), ?_, fun u => ?_, fun a => ?_,
    fun a h => hi.bound a (by rwa [← halloc a]), fun a u h => ?_, ?_, ?_, fun _ h => (by cases h),
    fun _ h => ?_, ⟨fun h => (by cases h), fun _ h => (by cases h)⟩, fun h => (by cases h),
    fun _ => hi.threadAddNext (by rw [hm]; simp), hi.threadList, fun u hu v hv'' => ?_,
    fun a u h => ?_, ?_⟩
  · rw [Layout.moveTo_list_of_ne (by simp), Layout.hand_list_of_ne (by simp) (by simp), hi.main,
      hheld]
    simp [MainPc.held]
  · rw [hkeep _ (by simp) (by simp) (by simp) (by simp) (by simp)]; exact hi.worker u
  · simp only [setMain_dcons, modifyThread_dcons, setDcons_dcons]
    rw [halloc a, hi.allocated a, Layout.moveTo_loc, Layout.hand_loc]
    by_cases had : a = d
    · rw [if_pos had, had, hloc]; simp
    · rw [if_neg had]; split <;> simp_all
  · rw [Layout.moveTo_loc, Layout.hand_loc] at h
    split at h
    · cases h; exact ht'
    · split at h
      · cases h
      · exact hi.placed a u h
  · rw [hkeep _ (by simp) (by simp) (by simp) (by simp) (by simp)]
    refine hi.pool.congr fun x hx => hlinks x ?_ ?_ <;> rw [hi.loc_of_mem (by simp) hx] <;> simp
  · rw [Layout.moveTo_list_of_ne (by simp), Layout.hand_list_self,
      List.erase_of_not_mem (hoff _ (by simp) (by simp))]
    exact hgc
  · cases h
    exact ⟨t, ht', by simp only [setMain_dcons, modifyThread_dcons, setDcons_dcons,
      thread_listAdd, ht], fun _ _ h => by cases h⟩
  · by_cases hut : u = t
    · rw [hut] at hv''
      simp only [setMain_threads, modifyThread_threads, Function.update_same] at hv''
      exact hi.threadNext t ht' v hv''
    · simp only [setMain_threads, modifyThread_threads, Function.update_noteq hut] at hv''
      exact hi.threadNext u hu v hv''
  · simp only [setMain_dcons, modifyThread_dcons, setDcons_dcons, thread_listAdd]
    rw [Layout.moveTo_loc, Layout.hand_loc] at h
    split at h
    · rename_i had; cases h; rw [had]; exact ht
    · split at h
      · cases h
      · exact hi.thread a u h
  · refine hi.threads_main rfl (fun u hu => Function.update_noteq hu _ _) (fun u hu => ?_)
      (fun u hu R hR => hkeep R (by rintro rfl; cases hR) (by rintro rfl; cases hR)
        (by rintro rfl; exact hu (Option.some.inj hR).symm)
        (by rintro rfl; exact hu (Option.some.inj hR).symm) (by rintro rfl; cases hR))
      (fun a u hu ho _ => hlinks a (fun h => by rw [h] at ho; exact hu (Option.some.inj ho).symm)
        fun h => by rw [h] at ho; cases ho) fun _ => ?_
    · rw [mainFor_of_ne (.inl hmt') hu, mainFor_of_ne (.inl hmt) hu]
    · rw [mainFor_of_thread hmt', Layout.moveTo_list_of_ne (by simp),
        Layout.hand_list_from (by simp), hkeep (.conList t) (by simp) (by simp) (by simp)
        (by simp) (by simp), Layout.moveTo_list_self, Layout.hand_list_of_ne (by simp) (by simp)]
      simpa using hv'

theorem HandoffInv.conCreateMove (hi : s.HandoffInv ts slots ly) (hslots : slots < uint32Size)
    {x : Nat} (hm : s.main = .moveFree (some x)) :
    (conCreateMove s x).HandoffInv ts slots (ly.moveTo x .pool) := by
  have hg := hi.grabbed
  rw [hm] at hg
  have hxg : x ∈ ly.list .grabbed := mem_of_chain_eq_some hg.chain rfl
  have hloc : ly.loc x = .grabbed := hi.loc_of_mem (by simp) hxg
  have hxp : x ∉ ly.list .pool := fun h => by rw [hi.loc_of_mem (by simp) h] at hloc; cases hloc
  have hmt : s.mainThread = none := mainThread_of_none (by rw [hm]; rfl)
  have hmt' : (GearmanServer.conCreateMove s x).mainThread = none :=
    mainThread_of_none (s := GearmanServer.conCreateMove s x) rfl
  have hdel : dconLinks.DChain (dconLinks.listDel s.dcons (some x) 0 x).1
      (dconLinks.listDel s.dcons (some x) 0 x).2.1 ((ly.list .grabbed).erase x) :=
    hg.listDel hxg
  have hoff : ∀ a, ly.loc a ≠ .grabbed → a ∉ ly.list .grabbed := fun a ha h =>
    ha (hi.loc_of_mem (by simp) h)
  have hpool : dconLinks.DList (dconLinks.listDel s.dcons (some x) 0 x).1
      s.gearmand.freeDconList s.gearmand.freeDconCount (ly.list .pool) :=
    hi.pool.congr fun a ha => hg.listDel_frame hxg (hoff a (by rw [hi.loc_of_mem (by simp) ha]; simp))
  have hlen : (ly.list .pool).length + 1 < uint32Size := by
    have h := hi.length_add_le (P := .pool) (Q := .grabbed) (by simp) (by simp) (by simp)
    have := List.length_pos_of_mem hxg
    omega
  have hlinks : ∀ a, ly.loc a ≠ .pool → ly.loc a ≠ .grabbed →
      ((GearmanServer.conCreateMove s x).dcons a).next = (s.dcons a).next ∧
      ((GearmanServer.conCreateMove s x).dcons a).prev = (s.dcons a).prev := fun a hp hgr => by
    have h₁ := @Links.DChain.listAdd_frame _ _ _ _ s.gearmand.freeDconCount _ x hpool.toDChain a
      (fun h => hp (hi.loc_of_mem (by simp) h)) (fun h => hgr (h ▸ hloc))
    have h₂ := @Links.DChain.listDel_frame _ _ _ _ 0 _ _ hg hxg a (hoff a hgr)
    exact ⟨h₁.1.trans h₂.1, h₁.2.trans h₂.2⟩
  have hkeep : ∀ R, R ≠ .released → R ≠ .pool → R ≠ .grabbed →
      (ly.moveTo x .pool).list R = ly.list R := fun R hR hp hgr =>
    hi.toSound.moveTo_list R hR hp (by rw [hloc]; exact Ne.symm hgr)
  have hfield : ∀ a, ((GearmanServer.conCreateMove s x).dcons a).allocated =
      (s.dcons a).allocated ∧
      ((GearmanServer.conCreateMove s x).dcons a).thread = (s.dcons a).thread := fun a =>
    ⟨(dconLinks.field_listAdd Dcon.allocated (fun _ _ => rfl) (fun _ _ => rfl) _ _
      s.gearmand.freeDconCount _ _).trans
      (dconLinks.field_listDel Dcon.allocated (fun _ _ => rfl) (fun _ _ => rfl) _ _ _ _ _),
     (thread_listAdd _ _ s.gearmand.freeDconCount _ _).trans (thread_listDel _ _ _ _ _)⟩
  refine ⟨hi.toSound.moveTo fun _ => (by rw [hloc]; simp), ?_, fun u => ?_, fun a => ?_,
    fun a h => hi.bound a (by rwa [← (hfield a).1]), fun a u h => ?_, ?_, ?_,
    fun _ h => (by cases h), fun _ h => (by cases h), ⟨fun h => (by cases h), fun _ h => (by cases h)⟩,
    fun h => (by cases h), fun _ => hi.threadAddNext (by rw [hm]; simp), hi.threadList,
    hi.threadNext, fun a u h => ?_, fun u hu => ?_⟩
  · rw [Layout.moveTo_list_of_ne (by simp), hi.main, hm]; rfl
  · rw [hkeep _ (by simp) (by simp) (by simp)]; exact hi.worker u
  · rw [(hfield a).1, hi.allocated a, Layout.moveTo_loc]
    by_cases hax : a = x
    · rw [if_pos hax, hax, hloc]; simp
    · rw [if_neg hax]
  · rw [Layout.moveTo_loc] at h
    split at h
    · cases h
    · exact hi.placed a u h
  · rw [Layout.moveTo_list_self]
    exact DList.listAdd32 hpool hxp hlen
  · rw [Layout.moveTo_list_of_ne (by simp)]
    refine hdel.congr fun a ha => ?_
    have hag := List.mem_of_mem_erase ha
    have hax : a ≠ x := fun h => (hi.nodup _ (by simp)).not_mem_erase (h ▸ ha)
    exact @Links.DChain.listAdd_frame _ _ _ _ s.gearmand.freeDconCount _ x hpool.toDChain a
      (fun h => nomatch hi.eq_of_mem (by simp) (by simp) hag h) hax
  · rw [(hfield a).2]
    rw [Layout.moveTo_loc] at h
    split at h
    · cases h
    · exact hi.thread a u h
  · have hv := hi.threads u hu
    rw [mainFor_of_ne (.inr hmt) (t := u + 1) (by omega)] at hv
    rw [mainFor_of_ne (.inr hmt') (t := u + 1) (by omega), hkeep _ (by simp) (by simp) (by simp),
      hkeep _ (by simp) (by simp) (by simp), hkeep _ (by simp) (by simp) (by simp)]
    refine hv.frame (.refl _ _) fun a ha => ?_
    have ho := (hi.view_owner hu a ha).2
    exact hlinks a (fun h => by rw [h] at ho; cases ho) fun h => by rw [h] at ho; cases ho

theorem conCreateInit_setDcons (s : Daemon) (heap : Nat → Dcon) (l : Option Nat) (c dcon : Nat)
    (v : Dcon) :
    ((s.setDcons (Function.update heap dcon v)).setPool l c).conCreateInit dcon =
      ((s.setDcons heap).setPool l c).conCreateInit dcon := by
  unfold Daemon.conCreateInit setDcons setPool
  rw [Function.update_idem]

theorem HandoffInv.conCreateInit (hi : s.HandoffInv ts slots ly) (hm : s.main = .idle)
    {dcon : Nat} (hloc : ly.loc dcon = .released) (hlt : dcon < slots) :
    (s.conCreateInit dcon).HandoffInv ts slots (ly.moveTo dcon .main) := by
  obtain ⟨t, ht, hnt⟩ := hi.nextThread hm
  have hkeep : ∀ R, R ≠ .released → R ≠ .main → (ly.moveTo dcon .main).list R = ly.list R :=
    fun R hR hRm => hi.toSound.moveTo_list R hR hRm (by rw [hloc]; exact Ne.symm hR)
  have hoff : ∀ a, ly.loc a ≠ .released → a ≠ dcon := fun a ha h => ha (h ▸ hloc)
  have hsame : ∀ a, a ≠ dcon → (s.conCreateInit dcon).dcons a = s.dcons a := fun a h =>
    Function.update_noteq h _ _
  have hnode : ∀ R, R ≠ .released → ∀ a ∈ ly.list R,
      ((s.conCreateInit dcon).dcons a).next = (s.dcons a).next ∧
      ((s.conCreateInit dcon).dcons a).prev = (s.dcons a).prev := fun R hR a ha => by
    rw [hsame a (hoff a (by rw [hi.loc_of_mem hR ha]; exact hR))]; exact ⟨rfl, rfl⟩
  have hnew : (s.conCreateInit dcon).dcons dcon = { allocated := true, thread := some t } := by
    rw [← hnt]; exact Function.update_same _ _ _
  refine ⟨hi.toSound.moveTo fun _ => (by rw [hloc]; simp), ?_, fun u => ?_, fun a => ?_,
    fun a h => ?_, fun a u h => ?_, ?_, ?_, fun d h => ?_, fun d h => ?_,
    ⟨fun h => (by cases h), fun _ h => (by cases h)⟩, fun h => (by cases h),
    fun _ => ⟨t, ht, hnt⟩, hi.threadList, hi.threadNext, fun a u h => ?_, fun u hu => ?_⟩
  · rw [Layout.moveTo_list_self, hi.main, hm]; rfl
  · rw [hkeep _ (by simp) (by simp)]; exact hi.worker u
  · rw [Layout.moveTo_loc]
    by_cases had : a = dcon
    · rw [if_pos had, had, hnew]; simp
    · rw [if_neg had, hsame a had]; exact hi.allocated a
  · by_cases had : a = dcon
    · exact had ▸ hlt
    · rw [hsame a had] at h; exact hi.bound a h
  · rw [Layout.moveTo_loc] at h
    split at h
    · cases h
    · exact hi.placed a u h
  · rw [hkeep _ (by simp) (by simp)]; exact hi.pool.congr (hnode .pool (by simp))
  · have hg := hi.grabbed
    rw [hm] at hg
    rw [hkeep _ (by simp) (by simp)]
    exact hg.congr (hnode .grabbed (by simp))
  · cases h; rw [hnew]; exact ⟨rfl, rfl⟩
  · cases h; exact ⟨t, ht, by rw [hnew], fun _ _ h => by cases h⟩
  · rw [Layout.moveTo_loc] at h
    split at h
    · cases h
    · rename_i had; rw [hsame a had]; exact hi.thread a u h
  · rw [hkeep _ (by simp) (by simp), hkeep _ (by simp) (by simp), hkeep _ (by simp) (by simp)]
    refine (hi.threads u hu).frame (.of_quiet (mainFor_quiet (by rw [hm]; rfl) u)
      (mainFor_quiet (s := s.conCreateInit dcon) rfl u) _) fun a ha => ?_
    rw [hsame a (hoff a (hi.view_owner hu a ha).1)]
    exact ⟨rfl, rfl⟩

theorem HandoffInv.poolTake (hi : s.HandoffInv ts slots ly) (hslots : slots < uint32Size)
    (hm : s.main = .idle) {dcon : Nat} (hp : s.gearmand.freeDconList = some dcon) :
    ((s.setDcons (Function.update
        (dconLinks.listDel s.dcons s.gearmand.freeDconList s.gearmand.freeDconCount dcon).1 dcon
        { (dconLinks.listDel s.dcons s.gearmand.freeDconList s.gearmand.freeDconCount dcon).1 dcon
          with allocated := false })).setPool
      (dconLinks.listDel s.dcons s.gearmand.freeDconList s.gearmand.freeDconCount dcon).2.1
      (uint32Dec s.gearmand.freeDconCount)).HandoffInv ts slots (ly.moveTo dcon .released) := by
  have hmem : dcon ∈ ly.list .pool := mem_of_chain_eq_some hi.pool.chain hp
  have hloc : ly.loc dcon = .pool := hi.loc_of_mem (by simp) hmem
  have hdel := DList.listDel32 hi.pool hmem ((hi.length_le (by simp)).trans hslots.le)
  have hframe : ∀ a, ly.loc a ≠ .pool →
      ((dconLinks.listDel s.dcons s.gearmand.freeDconList s.gearmand.freeDconCount dcon).1
        a).next = (s.dcons a).next ∧
      ((dconLinks.listDel s.dcons s.gearmand.freeDconList s.gearmand.freeDconCount dcon).1
        a).prev = (s.dcons a).prev := fun a ha =>
    hi.pool.listDel_frame hmem fun h => ha (hi.loc_of_mem (by simp) h)
  have hfield : ∀ a, a ≠ dcon →
      ((dconLinks.listDel s.dcons s.gearmand.freeDconList s.gearmand.freeDconCount dcon).1
        a).allocated = (s.dcons a).allocated ∧
      ((dconLinks.listDel s.dcons s.gearmand.freeDconList s.gearmand.freeDconCount dcon).1
        a).thread = (s.dcons a).thread := fun a _ =>
    ⟨dconLinks.field_listDel Dcon.allocated (fun _ _ => rfl) (fun _ _ => rfl) _ _ _ _ _,
      thread_listDel _ _ _ _ _⟩
  set r := dconLinks.listDel s.dcons s.gearmand.freeDconList s.gearmand.freeDconCount dcon
  set s' := (s.setDcons (Function.update r.1 dcon { r.1 dcon with allocated := false })).setPool
    r.2.1 (uint32Dec s.gearmand.freeDconCount) with hs'
  have hlinks : ∀ a, ly.loc a ≠ .pool →
      (s'.dcons a).next = (s.dcons a).next ∧ (s'.dcons a).prev = (s.dcons a).prev := fun a ha => by
    simp only [hs', setPool_dcons, setDcons_dcons, next_update_allocated, prev_update_allocated]
    exact hframe a ha
  have hthread : ∀ a, (s'.dcons a).thread = (s.dcons a).thread := fun a => by
    simp only [hs', setPool_dcons, setDcons_dcons, thread_update_allocated]
    exact thread_listDel _ _ _ _ _
  have halloc : ∀ a, a ≠ dcon → (s'.dcons a).allocated = (s.dcons a).allocated := fun a h => by
    simp only [hs', setPool_dcons, setDcons_dcons, Function.update_noteq h]
    exact (hfield a h).1
  have hfree : (s'.dcons dcon).allocated = false := by simp [hs']
  have hkeep : ∀ R, R ≠ .released → R ≠ .pool → (ly.moveTo dcon .released).list R = ly.list R :=
    fun R hR hRp => hi.toSound.moveTo_list R hR hR (by rw [hloc]; exact Ne.symm hRp)
  have hm' : s'.main = .idle := hm
  have hmt : s.mainThread = none := mainThread_of_none (by rw [hm]; rfl)
  have hmt' : s'.mainThread = none := mainThread_of_none (by rw [hm']; rfl)
  have hg := hi.grabbed
  rw [hm] at hg
  refine ⟨hi.toSound.moveTo fun h => absurd rfl h, ?_, fun u => ?_, fun a => ?_, fun a h => ?_,
    fun a u h => ?_, ?_, ?_, fun _ h => absurd h (by rw [hm']; simp [MainPc.held]),
    fun _ h => absurd h (by rw [hm']; simp [MainPc.dcon]), hi.mainOk, hi.nextThread,
    hi.threadAddNext, hi.threadList, hi.threadNext, fun a u h => ?_, fun u hu => ?_⟩
  · rw [hkeep _ (by simp) (by simp)]; exact hi.main
  · rw [hkeep _ (by simp) (by simp)]; exact hi.worker u
  · rw [Layout.moveTo_loc]
    by_cases had : a = dcon
    · rw [if_pos had, had, hfree]; simp
    · rw [if_neg had, halloc a had]; exact hi.allocated a
  · by_cases had : a = dcon
    · rw [had, hfree] at h; cases h
    · rw [halloc a had] at h; exact hi.bound a h
  · rw [Layout.moveTo_loc] at h
    split at h
    · cases h
    · exact hi.placed a u h
  · rw [Layout.moveTo_list_of_ne (by simp)]
    exact hdel.congr fun a _ => ⟨next_update_allocated _ _ _ _, prev_update_allocated _ _ _ _⟩
  · rw [hkeep _ (by simp) (by simp), hm']
    exact hg.congr fun a ha => hlinks a (by rw [hi.loc_of_mem (by simp) ha]; simp)
  · rw [Layout.moveTo_loc] at h
    split at h
    · cases h
    · rw [hthread]; exact hi.thread a u h
  · have hv := hi.threads u hu
    rw [mainFor_of_ne (.inr hmt) (t := u + 1) (by omega)] at hv
    rw [mainFor_of_ne (.inr hmt') (t := u + 1) (by omega), hkeep _ (by simp) (by simp),
      hkeep _ (by simp) (by simp), hkeep _ (by simp) (by simp)]
    refine hv.frame (.refl _ _) fun a ha => hlinks a ?_
    have ho := (hi.view_owner hu a ha).2
    intro h; rw [h] at ho; cases ho

theorem HandoffInv.setMain_call (hi : s.HandoffInv ts slots ly) {d t : Nat} {pc : MainPc}
    (hd : s.main.dcon = some d) (ht : (s.dcons d).thread = some t) (hpd : pc.dcon = some d)
    (hheld : pc.held = s.main.held) (hgr : pc.grabbed = s.main.grabbed)
    (hok : pc ≠ .fault ∧ ∀ d, pc ≠ .addPrev d) (hu : ∀ d' u c, pc = .addStore d' u c → u = t)
    (hv : ThreadView s.dcons (s.threads t) pc (s.workers t) (ly.list (.freeList t))
      (ly.list (.conList t)) (ly.list (.addQueue t))) :
    (s.setMain pc).HandoffInv ts slots ly :=
  hi.of_call hd ht (fun _ _ => rfl) ⟨rfl, rfl⟩ rfl rfl (fun _ _ => rfl) rfl hpd hheld (hi.held d)
    hgr hok hu hv

theorem HandoffInv.writeHeld (hi : s.HandoffInv ts slots ly) {d t : Nat} {pc : MainPc}
    (hd : s.main.held = some d) (ht : (s.dcons d).thread = some t)
    (hu : s.main.addsUnlocked = true) {heap : Nat → Dcon} (hsame : ∀ a, a ≠ d → heap a = s.dcons a)
    (hdd : (heap d).thread = (s.dcons d).thread ∧ (heap d).allocated = (s.dcons d).allocated)
    (hnil : (heap d).next = none ∧ (heap d).prev = none) (hpd : pc.held = some d)
    (hpu : pc.addsUnlocked = true) (hgr : pc.grabbed = s.main.grabbed)
    (hok : pc ≠ .fault ∧ ∀ d, pc ≠ .addPrev d) :
    ((s.setDcons heap).setMain pc).HandoffInv ts slots ly := by
  have hdc := MainPc.dcon_of_held hd
  obtain ⟨t', ht', hdt, -⟩ := hi.mainThread d hdc
  rw [ht] at hdt
  cases hdt
  have hv := hi.threads t ht'
  rw [mainFor_of_thread (by rw [mainThread_of_dcon hdc, ht])] at hv
  refine hi.of_call hdc ht (fun a ha => ha.elim (hsame a) (absurd hd)) hdd rfl rfl
    (fun _ _ => rfl) rfl (MainPc.dcon_of_held hpd) (hpd.trans hd.symm) (fun _ => hnil) hgr hok
    (fun _ _ _ h => absurd h ((MainPc.unlocked_facts hpu).2.2.2 _ _ _))
    (hv.frame (.of_unlocked hu hpu _) fun a ha => ?_)
  have hne : a ≠ d := fun h => by
    have ho := (hi.view_owner ht' a ha).2
    rw [h, hi.loc_main hd] at ho
    cases ho
  simp only [setMain_dcons, setDcons_dcons, hsame a hne, and_self]

theorem HandoffInv.conCreateStart (hslots : slots < uint32Size) (hi : s.HandoffInv ts slots ly)
    (hm : s.main = .idle) {malloc : Option Nat} (h : conCreateStart slots s malloc = some s') :
    ∃ ly', s'.HandoffInv ts slots ly' := by
  unfold GearmanServer.conCreateStart at h
  split at h
  · split at h
    · rename_i hc _ hp
      have hnil : ly.list .pool = [] := chain_none_iff.1 (by rw [← hp]; exact hi.pool.chain)
      rw [hi.pool.count_eq, hnil] at hc
      cases hc
    · rename_i dcon hp
      cases h
      have hmem := mem_of_chain_eq_some hi.pool.chain hp
      have h₂ := (hi.poolTake hslots hm hp).conCreateInit hm (by simp) (hi.bound dcon
        ((hi.allocated dcon).2 (by rw [hi.loc_of_mem (by simp) hmem]; simp)))
      rw [conCreateInit_setDcons] at h₂
      exact ⟨_, h₂⟩
  · split at h
    · cases h; exact ⟨ly, hi⟩
    · split at h
      · rename_i dcon hc
        cases h
        refine ⟨_, hi.conCreateInit hm (Decidable.of_not_not fun hne => ?_) hc.1⟩
        have := (hi.allocated dcon).2 hne
        rw [hc.2] at this
        cases this
      · cases h

theorem HandoffInv.conCreateHeld (hslots : slots < uint32Size) (hi : s.HandoffInv ts slots ly)
    {malloc : Option Nat} {d : Nat} (hd : s.main.held = some d)
    (h : gearmandConCreate slots s malloc = some s') : ∃ ly', s'.HandoffInv ts slots ly' := by
  obtain ⟨t, ht, hdt, hth⟩ := hi.held_thread hd
  have hdc := MainPc.dcon_of_held hd
  have hv := hi.threads t ht
  rw [mainFor_of_thread (by rw [mainThread_of_dcon hdc, hdt])] at hv
  have hl := hi.held d hd
  cases hpc : s.main with
  | addCount d' =>
    rw [hpc] at hd hv; cases hd
    simp only [gearmandConCreate, hpc, withThread_of_thread hth] at h
    cases h
    exact ⟨ly, hi.setMain_call hdc hdt (by split <;> rfl) (by rw [hpc]; split <;> rfl)
      (by rw [hpc]; split <;> rfl) (by split <;> simp) (by split <;> simp)
      (hv.addCount (lt_of_le_of_lt (hi.queue_len ht) hslots))⟩
  | freeCount d' =>
    rw [hpc] at hd hv; cases hd
    simp only [gearmandConCreate, hpc, withThread_of_thread hth] at h
    cases h
    exact ⟨ly, hi.setMain_call hdc hdt (by split <;> rfl) (by rw [hpc]; split <;> rfl)
      (by rw [hpc]; split <;> rfl) (by split <;> simp) (by split <;> simp) (hv.freeCountTest _)⟩
  | addTest d' =>
    rw [hpc] at hd hv; cases hd
    obtain ⟨hnil, hv'⟩ := hv.addTest
    simp only [gearmandConCreate, hpc, withThread_of_thread hth, hnil, if_true] at h
    cases h
    exact ⟨ly, hi.setMain_call hdc hdt rfl (by rw [hpc]; rfl) (by rw [hpc]; rfl) (by simp)
      (by simp) hv'⟩
  | addPrev d' => exact absurd hpc (hi.mainOk.2 d')
  | addNext d' =>
    rw [hpc] at hd hv; cases hd
    have hnil : (s.threads t).dconAddList = none := by
      rw [chain_head hv.addChain, (hv.unlocked rfl).1]; rfl
    simp only [gearmandConCreate, hpc, withThread_of_thread hth, hnil] at h
    cases h
    exact ⟨ly, hi.writeHeld (by rw [hpc]; rfl) hdt (by rw [hpc]; rfl)
      (fun _ ha => Function.update_noteq ha _ _) ⟨thread_writeNext _ _ _ _,
        dconLinks.field_writeNextIf Dcon.allocated (fun _ _ => rfl) _ (some _) _ _⟩
      ⟨by simpa using dconLinks.next_writeNext s.dcons d none d,
        (dconLinks.prev_writeNext s.dcons d none d).trans hl.2⟩ rfl rfl (by rw [hpc]; rfl)
      (by simp)⟩
  | addPrevNull d' =>
    rw [hpc] at hd hv; cases hd
    simp only [gearmandConCreate, hpc] at h
    cases h
    exact ⟨ly, hi.writeHeld (by rw [hpc]; rfl) hdt (by rw [hpc]; rfl)
      (fun _ ha => Function.update_noteq ha _ _) ⟨thread_writePrev _ _ _ _,
        dconLinks.field_writePrevIf Dcon.allocated (fun _ _ => rfl) _ (some _) _ _⟩
      ⟨(dconLinks.next_writePrev s.dcons d none d).trans hl.1,
        by simpa using dconLinks.prev_writePrev s.dcons d none d⟩ rfl rfl (by rw [hpc]; rfl)
      (by simp)⟩
  | addHead d' =>
    rw [hpc] at hd; cases hd
    simp only [gearmandConCreate, hpc, withThread_of_thread hth] at h
    cases h
    exact ⟨_, hi.addHead hpc hdt⟩
  | lock d' =>
    rw [hpc] at hd; cases hd
    simp only [gearmandConCreate, hpc, withThread_of_thread hth] at h
    cases hlk : (s.threads t).lock
    · simp only [GearmanServer.conCreateLocked, hlk, dconLinks.listAdd_list] at h
      cases h
      exact ⟨_, hi.conCreateLocked hslots hpc hdt hlk⟩
    · simp [GearmanServer.conCreateLocked, hlk] at h
  | _ => rw [hpc] at hd; cases hd

theorem HandoffInv.conCreateQueued (hi : s.HandoffInv ts slots ly) {malloc : Option Nat}
    {d : Nat} (hd : s.main.dcon = some d) (hheld : s.main.held = none)
    (h : gearmandConCreate slots s malloc = some s') :
    (∃ ly', s'.HandoffInv ts slots ly') ∨ s'.Racing ∨
      (s.dcons d).allocated = false ∧ s'.main = .fault := by
  obtain ⟨t, ht, hdt, hth⟩ := hi.dcon_thread hd
  have hv := hi.threads t ht
  rw [mainFor_of_thread (by rw [mainThread_of_dcon hd, hdt])] at hv
  have hfault : ∀ k, s.dconThread d = none → s.withThread d k = some s' →
      (s.dcons d).allocated = false ∧ s'.main = .fault := fun k hn h' => by
    rw [withThread_of_none hn] at h'
    cases h'
    exact ⟨(hth.resolve_left fun h => by rw [hn] at h; cases h).2, rfl⟩
  cases hpc : s.main with
  | addLoad d' =>
    rw [hpc] at hd hv; cases hd
    simp only [gearmandConCreate, hpc] at h
    rcases hth with hth | ⟨hth, -⟩
    · rw [withThread_of_thread hth] at h
      cases h
      cases hw : (s.workers t).storing
      · exact .inl ⟨ly, hi.setMain_call (by rw [hpc]; rfl) hdt rfl (by rw [hpc]; rfl)
          (by rw [hpc]; rfl) (by simp) (fun _ _ _ h => by cases h; rfl) (hv.addLoad hw t)⟩
      · cases hwt : s.workers t with
        | delStore d₁ c₁ =>
          exact .inr (.inl ⟨d, t, (s.threads t).dconAddCount, d₁, c₁, rfl, hwt⟩)
        | _ => rw [hwt] at hw; cases hw
    · exact .inr (.inr (hfault _ hth h))
  | addStore d' u c =>
    rw [hpc] at hd hv; cases hd
    obtain ⟨t', -, ht', hu⟩ := hi.mainThread d (by rw [hpc]; rfl)
    rw [hdt] at ht'
    cases ht'
    cases hu u c hpc
    simp only [gearmandConCreate, hpc] at h
    cases h
    refine .inl ⟨ly, hi.of_call (by rw [hpc]; rfl) hdt (fun _ _ => rfl) ⟨rfl, rfl⟩ rfl rfl
      (fun _ hu => Function.update_noteq hu _ _) (by simp) rfl (by rw [hpc]; rfl)
      (fun h => by rw [hpc] at h; cases h) (by rw [hpc]; rfl) (by simp) (fun _ _ _ h => by cases h)
      ?_⟩
    simpa using hv.addStore
  | wakeup d' =>
    rw [hpc] at hd hv; cases hd
    simp only [gearmandConCreate, hpc] at h
    rcases hth with hth | ⟨hth, -⟩
    · rw [withThread_of_thread hth] at h
      cases h
      rw [← conCreateDone_setMain _ (.moveFree none)]
      refine .inl ⟨ly, HandoffInv.conCreateDone (hi.of_leave (by rw [hpc]; rfl) hdt rfl rfl rfl
        (fun _ hu => Function.update_noteq hu _ _) (by simp [wakeThread]) rfl rfl
        (by rw [hpc]; rfl) (by rw [hpc]; rfl) (by simp) ?_) rfl⟩
      simpa [wakeThread] using hv.woken rfl (show MainPc.idle.quiet = true from rfl)
    · exact .inr (.inr (hfault _ hth h))
  | checkCount d' fl =>
    rw [hpc] at hd hv; cases hd
    simp only [gearmandConCreate, hpc] at h
    rcases hth with hth | ⟨hth, -⟩
    · rw [withThread_of_thread hth] at h
      cases h
      split
      · rename_i h₁
        exact .inl ⟨ly, hi.setMain_call (by rw [hpc]; rfl) hdt rfl (by rw [hpc]; rfl)
          (by rw [hpc]; rfl) (by simp) (fun _ _ _ h => by cases h)
          (hv.frame ⟨rfl, id, id, fun _ _ _ h => (by cases h), fun _ => rfl⟩ fun _ _ => ⟨rfl, rfl⟩)⟩
      · rename_i h₁
        refine .inl ⟨ly, hi.of_leave (by rw [hpc]; rfl) hdt rfl rfl rfl (fun _ _ => rfl) rfl rfl rfl
          (by rw [hpc]; rfl) (by rw [hpc]; rfl) (by simp)
          (hv.frame ⟨rfl, id, id, fun _ _ _ h => (by cases h), fun h => ?_⟩ fun _ _ => ⟨rfl, rfl⟩)⟩
        simp [MainPc.wakes, h₁] at h
    · exact .inr (.inr (hfault _ hth h))
  | wakeupLocked d' fl =>
    rw [hpc] at hd hv; cases hd
    simp only [gearmandConCreate, hpc] at h
    rcases hth with hth | ⟨hth, -⟩
    · rw [withThread_of_thread hth] at h
      cases h
      refine .inl ⟨ly, hi.of_leave (by rw [hpc]; rfl) hdt rfl rfl rfl
        (fun _ hu => Function.update_noteq hu _ _) (by simp [wakeThread]) rfl rfl
        (by rw [hpc]; rfl) (by rw [hpc]; rfl) (by simp) ?_⟩
      simpa [wakeThread] using hv.woken rfl (show MainPc.idle.quiet = true from rfl)
    · exact .inr (.inr (hfault _ hth h))
  | _ =>
    first
    | (rw [hpc] at hheld; cases hheld; done)
    | (rw [hpc] at hd; cases hd)

theorem HandoffInv.conCreate (hslots : slots < uint32Size) (hi : s.HandoffInv ts slots ly)
    {malloc : Option Nat} (h : gearmandConCreate slots s malloc = some s') :
    (∃ ly', s'.HandoffInv ts slots ly') ∨ s'.Racing ∨
      ∃ d, s.main.dcon = some d ∧ (s.dcons d).allocated = false ∧ s'.main = .fault := by
  cases hpc : s.main with
  | idle =>
    simp only [gearmandConCreate, hpc] at h
    exact .inl (hi.conCreateStart hslots hpc h)
  | addCount d | freeCount d | addTest d | addPrev d | addNext d | addPrevNull d | addHead d
  | lock d => exact .inl (hi.conCreateHeld hslots (by rw [hpc]; rfl) h)
  | addLoad d | addStore d _ _ | wakeup d | checkCount d _ | wakeupLocked d _ =>
    exact (hi.conCreateQueued (by rw [hpc]; rfl) (by rw [hpc]; rfl) h).imp_right
      (Or.imp_right fun h' => ⟨d, rfl, h'⟩)
  | moveFree fl =>
    cases fl with
    | none =>
      simp only [gearmandConCreate, hpc] at h
      cases h
      exact .inl ⟨ly, hi.conCreateDone hpc⟩
    | some x =>
      simp only [gearmandConCreate, hpc] at h
      cases h
      exact .inl ⟨_, hi.conCreateMove hslots hpc⟩
  | fault => simp [gearmandConCreate, hpc] at h

end Daemon

end GearmanServer
