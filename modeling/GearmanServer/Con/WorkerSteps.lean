import GearmanServer.Con.Invariant

/-!
# The worker threads keep the hand-off invariant

Each statement of `gearmand_con_check_queue` and `gearmand_con_free` keeps its thread's
invariant (`ThreadView`), as a lemma on the thread's record, its lists and the heap. The
statements that move a structure take it off one of the thread's lists or put it on one;
`HandoffInv.of_worker` says once that such a step leaves the rest of the daemon alone.

The one statement with a condition on the main thread is the load of `dcon_add_count`: the
main thread must not hold a loaded value of it.
-/

namespace GearmanServer

theorem next_update_allocated (heap : Nat → Dcon) (x : Nat) (b : Bool) (d : Nat) :
    (Function.update heap x { heap x with allocated := b } d).next = (heap d).next := by
  by_cases h : d = x
  · subst h; simp
  · simp [Function.update_noteq h]

theorem prev_update_allocated (heap : Nat → Dcon) (x : Nat) (b : Bool) (d : Nat) :
    (Function.update heap x { heap x with allocated := b } d).prev = (heap d).prev := by
  by_cases h : d = x
  · subst h; simp
  · simp [Function.update_noteq h]

theorem allocated_update_allocated (heap : Nat → Dcon) (x : Nat) (b : Bool) (d : Nat) :
    (Function.update heap x { heap x with allocated := b } d).allocated =
      if d = x then b else (heap d).allocated := by
  by_cases h : d = x
  · subst h; simp
  · simp [Function.update_noteq h, h]

namespace ThreadView

variable {heap : Nat → Dcon} {th : DThread} {m : MainPc} {w : WorkerPc} {fl cl q : List Nat}
  {d : Nat}

theorem setAllocated (hv : ThreadView heap th m w fl cl q) (x : Nat) (b : Bool) :
    ThreadView (Function.update heap x { heap x with allocated := b }) th m w fl cl q :=
  hv.frame (.refl _ _) fun _ _ => ⟨next_update_allocated .., prev_update_allocated ..⟩

theorem checkCount (hv : ThreadView heap th m .checkCount fl cl q) (hq : q.length < uint32Size) :
    ThreadView heap th m (if th.dconAddCount = 0 then .idle else .checkList) fl cl q := by
  split
  · refine { hv with wakeup := fun hne => ?_ }
    cases hp : m.pending
    · have h := hv.count_eq hp hq
      rw [‹th.dconAddCount = 0›] at h
      exact absurd (List.length_eq_zero.1 h.symm) hne
    · exact .inr (.inr (MainPc.wakes_of_pending hp _))
  · exact { hv with wakeup := fun _ => .inr (.inl rfl) }

theorem checkList (hv : ThreadView heap th m .checkList fl cl q) :
    ThreadView heap th m (if th.dconAddList = none then .idle else .lock) fl cl q := by
  have hh := chain_head hv.addChain
  split
  · rename_i h
    exact { hv with wakeup := fun hne => absurd (List.head?_eq_none_iff.1 (hh ▸ h)) hne }
  · rename_i h
    exact { hv with shape := fun hq => h (by rw [hh, hq]; rfl) }

theorem mutexLock (hv : ThreadView heap th m .lock fl cl q) :
    ThreadView heap { th with lock := true } m .take fl cl q :=
  { hv with lock := rfl }

theorem take (hv : ThreadView heap th m .take fl cl q) :
    ∃ d, th.dconAddList = some d ∧ ThreadView heap th m (.delTest d) fl cl q := by
  have hh := chain_head hv.addChain
  cases h : th.dconAddList with
  | none => exact absurd (List.head?_eq_none_iff.1 (hh ▸ h)) hv.shape
  | some d => exact ⟨d, rfl, { hv with shape := (hh.symm.trans h : q.head? = some d) }⟩

theorem delTest (hv : ThreadView heap th m (.delTest d) fl cl q) :
    th.dconAddList = some d ∧ ThreadView heap th m (.delHead d) fl cl q :=
  ⟨(chain_head hv.addChain).trans hv.shape, { hv with }⟩

theorem delHead (hv : ThreadView heap th m (.delHead d) fl cl (d :: q)) :
    ThreadView heap { th with dconAddList := (heap d).next } m (.delPrevTest d) fl cl q where
  freeList := hv.freeList
  conList := hv.conList
  addChain := hv.addChain.2
  addBack := hv.addBack.2
  countLt := hv.countLt
  count := hv.count
  lock := hv.lock
  shape := ⟨hv.addBack.1, rfl⟩
  unlocked h := absurd (hv.unlocked h).1 (List.cons_ne_nil _ _)
  store := hv.store
  noRace := hv.noRace
  wakeup _ := .inr (.inl rfl)

theorem delPrevTest (hv : ThreadView heap th m (.delPrevTest d) fl cl q) :
    (heap d).prev = none ∧ ThreadView heap th m (.delNextTest d) fl cl q :=
  ⟨hv.shape.1, { hv with }⟩

theorem delNextTest (hv : ThreadView heap th m (.delNextTest d) fl cl q) :
    ThreadView heap th m (if (heap d).next = none then .delLoad d else .delNext d) fl cl q := by
  have hh : (heap d).next = q.head? := hv.shape.2.trans (chain_head hv.addChain)
  split
  · rename_i h
    have hq : q = [] := List.head?_eq_none_iff.1 (hh ▸ h)
    subst hq
    exact { hv with addBack := trivial, shape := trivial }
  · rename_i h
    exact { hv with shape := ⟨hv.shape.1, hv.shape.2, fun hq => h (by rw [hh, hq]; rfl)⟩ }

theorem delNext_next (hv : ThreadView heap th m (.delNext d) fl cl q) :
    ∃ n, (heap d).next = some n ∧ n ∈ q := by
  cases q with
  | nil => exact absurd rfl hv.shape.2.2
  | cons x r => exact ⟨x, hv.shape.2.1.trans hv.addChain.1, List.mem_cons_self _ _⟩

theorem delNext {n : Nat} (hv : ThreadView heap th m (.delNext d) fl cl q)
    (hn : (heap d).next = some n) (hq : q.Nodup) (ha : Apart fl cl q (some d)) :
    ThreadView (dconLinks.writePrev heap n (heap d).prev) th m (.delLoad d) fl cl q := by
  obtain ⟨r, rfl⟩ : ∃ r, q = n :: r := by
    cases q with
    | nil => exact absurd rfl hv.shape.2.2
    | cons x r =>
      have hx : (heap d).next = some x := hv.shape.2.1.trans hv.addChain.1
      exact ⟨r, by rw [hn] at hx; cases hx; rfl⟩
  have hr : ∀ y ∈ r, y ≠ n := fun y hy h => (List.nodup_cons.1 hq).1 (h ▸ hy)
  have hnext : ∀ y, (dconLinks.writePrev heap n (heap d).prev y).next = (heap y).next := fun y =>
    dconLinks.next_writePrev heap n _ y
  have hprev : ∀ y, y ≠ n → (dconLinks.writePrev heap n (heap d).prev y).prev = (heap y).prev :=
    fun y hy => by simpa [hy] using dconLinks.prev_writePrev heap n (heap d).prev y
  have hoff : ∀ y, y ∈ fl ∨ y ∈ cl → y ≠ n := fun y hy h => by
    subst h
    exact hy.elim (fun hf => ha.fl_q y hf (List.mem_cons_self _ _))
      fun hc => ha.cl_q y hc (List.mem_cons_self _ _)
  refine { hv with
    freeList := hv.freeList.congr fun y hy => ⟨hnext y, hprev y (hoff y (.inl hy))⟩
    conList := hv.conList.congr fun y hy => ⟨hnext y, hprev y (hoff y (.inr hy))⟩
    addChain := seg_congr hv.addChain fun y _ => hnext y
    addBack := ⟨?_, backlinked_congr hv.addBack.2 fun y hy => hprev y (hr y hy)⟩
    shape := trivial }
  simpa [hv.shape.1] using dconLinks.prev_writePrev heap n (heap d).prev n

theorem delLoad (hv : ThreadView heap th m (.delLoad d) fl cl q) (hm : m.storing = false) :
    ThreadView heap th m (.delStore d th.dconAddCount) fl cl q :=
  { hv with shape := rfl, noRace := fun h => absurd h.1 (by rw [hm]; decide) }

theorem delStore {c : Nat} (hv : ThreadView heap th m (.delStore d c) fl cl q) :
    ThreadView heap { th with dconAddCount := uint32Dec c } m (.unlock d) fl cl q where
  freeList := hv.freeList
  conList := hv.conList
  addChain := hv.addChain
  addBack := hv.addBack
  countLt := Nat.mod_lt _ (by decide)
  count := by
    have h := hv.count
    rw [← hv.shape] at h
    change (c + m.pending.toNat) % uint32Size = (q.length + 1) % uint32Size at h
    change (uint32Dec c + m.pending.toNat) % uint32Size = (q.length + 0) % uint32Size
    unfold uint32Dec uint32Size at *
    omega
  lock := hv.lock
  shape := trivial
  unlocked h := by cases (hv.unlocked h).2
  store _ _ _ h := absurd ⟨by rw [h]; rfl, rfl⟩ hv.noRace
  noRace h := by cases h.2
  wakeup _ := .inr (.inl rfl)

theorem mutexUnlock (hv : ThreadView heap th m (.unlock d) fl cl q) :
    ThreadView heap { th with lock := false } m (.conAdd d) fl cl q :=
  { hv with lock := rfl }

theorem conAdd_failed (hv : ThreadView heap th m (.conAdd d) fl cl q) :
    ThreadView (Function.update heap d { heap d with allocated := false }) th m .checkList
      fl cl q :=
  { hv.setAllocated d false with wakeup := fun _ => .inr (.inl rfl) }

theorem listAdd_other {list : Option Nat} (count : Nat) {xs : List Nat}
    (hd : dconLinks.DChain heap list xs) {ys : List Nat} (hys : ∀ y ∈ ys, y ∉ xs ∧ y ≠ d) :
    ∀ y ∈ ys, ((dconLinks.listAdd heap list count d).1 y).next = (heap y).next ∧
      ((dconLinks.listAdd heap list count d).1 y).prev = (heap y).prev :=
  fun y hy => hd.listAdd_frame (hys y hy).1 (hys y hy).2

theorem addDChain (hv : ThreadView heap th m w fl cl q) (hw : w.pending = false)
    (hq : q.Nodup) : dconLinks.DChain heap th.dconAddList q :=
  ⟨hv.addChain, WorkerPc.unlinking_of_pending hw ▸ hv.addBack, hq⟩

theorem conAdd_added (hv : ThreadView heap th m (.conAdd d) fl cl q)
    (ha : Apart fl cl q (some d)) (hlen : cl.length + 1 < uint32Size) :
    ThreadView (dconLinks.listAdd heap th.dconList th.dconCount d).1
      { th with dconList := some d, dconCount := uint32Inc th.dconCount } m .checkList
      fl (d :: cl) q := by
  have hf := listAdd_other th.dconCount hv.conList.toDChain fun a h =>
    ⟨ha.fl_cl a h, fun e => ha.held_fl d rfl (by subst e; exact h)⟩
  have hqf := listAdd_other th.dconCount hv.conList.toDChain fun a h =>
    ⟨fun hc => ha.cl_q a hc h, fun e => ha.held_q d rfl (by subst e; exact h)⟩
  exact { hv with
    freeList := hv.freeList.congr hf
    conList := DList.listAdd32 hv.conList (ha.held_cl d rfl) hlen
    addChain := seg_congr hv.addChain fun y hy => (hqf y hy).1
    addBack := backlinked_congr hv.addBack fun y hy => (hqf y hy).2
    wakeup := fun _ => .inr (.inl rfl) }

theorem freeCount (hv : ThreadView heap th m (.freeCount d) fl cl q) (b : Bool) :
    ThreadView heap th m (.freeAdd d) fl cl q ∧
      ThreadView (Function.update heap d { heap d with allocated := b }) th m .idle fl cl q :=
  ⟨{ hv with }, { hv.setAllocated d b with }⟩

theorem freeAdd (hv : ThreadView heap th m (.freeAdd d) fl cl q) (ha : Apart fl cl q (some d))
    (hlen : fl.length + 1 < uint32Size) :
    ThreadView (dconLinks.listAdd heap th.freeDconList th.freeDconCount d).1
      { th with freeDconList := some d, freeDconCount := uint32Inc th.freeDconCount } m .idle
      (d :: fl) cl q := by
  have hc := listAdd_other th.freeDconCount hv.freeList.toDChain fun a h =>
    ⟨fun hf => ha.fl_cl a hf h, fun e => ha.held_cl d rfl (by subst e; exact h)⟩
  have hqc := listAdd_other th.freeDconCount hv.freeList.toDChain fun a h =>
    ⟨fun hf => ha.fl_q a hf h, fun e => ha.held_q d rfl (by subst e; exact h)⟩
  exact { hv with
    freeList := DList.listAdd32 hv.freeList (ha.held_fl d rfl) hlen
    conList := hv.conList.congr hc
    addChain := seg_congr hv.addChain fun y hy => (hqc y hy).1
    addBack := backlinked_congr hv.addBack fun y hy => (hqc y hy).2 }

theorem close (hv : ThreadView heap th m .idle fl cl q) (hd : d ∈ cl) (ha : Apart fl cl q none)
    (hlen : cl.length ≤ uint32Size) :
    ThreadView (dconLinks.listDel heap th.dconList th.dconCount d).1
      { th with
        dconList := (dconLinks.listDel heap th.dconList th.dconCount d).2.1
        dconCount := uint32Dec th.dconCount } m (.freeCount d) fl (cl.erase d) q := by
  have hc := hv.conList.toDChain
  exact { hv with
    freeList := hv.freeList.congr fun y hy => hc.listDel_frame hd (ha.fl_cl y hy)
    conList := DList.listDel32 hv.conList hd hlen
    addChain := seg_congr hv.addChain fun y hy =>
      (hc.listDel_frame hd fun h => ha.cl_q y h hy).1
    addBack := backlinked_congr hv.addBack fun y hy =>
      (hc.listDel_frame hd fun h => ha.cl_q y h hy).2 }

theorem readWakeup (hv : ThreadView heap th m .idle fl cl q) :
    ThreadView heap { th with wakeups := th.wakeups - 1 } m .checkCount fl cl q :=
  { hv with wakeup := fun _ => .inr (.inl rfl) }

end ThreadView

/-! ## The rest of the daemon -/

theorem WorkerFrame.mainFor {s s' : Daemon} (hw : WorkerFrame s s') (t : Nat) :
    s'.mainFor t = s.mainFor t := by
  unfold Daemon.mainFor Daemon.mainThread
  rw [hw.main]
  cases s.main.dcon with
  | none => rfl
  | some d => simp only [Option.bind_some, hw.thread]

namespace Daemon

variable {ts : List Nat} {slots : Nat} {s s' : Daemon} {ly ly' : Layout} {t : Nat}

theorem HandoffInv.loc_of_mem (hi : s.HandoffInv ts slots ly) {P : Place} (hP : P ≠ .released)
    {a : Nat} (ha : a ∈ ly.list P) : ly.loc a = P :=
  (hi.mem P a hP).1 ha

theorem HandoffInv.eq_of_mem (hi : s.HandoffInv ts slots ly) {P Q : Place} (hP : P ≠ .released)
    (hQ : Q ≠ .released) {a : Nat} (ha : a ∈ ly.list P) (hb : a ∈ ly.list Q) : P = Q :=
  (hi.loc_of_mem hP ha).symm.trans (hi.loc_of_mem hQ hb)

theorem HandoffInv.worker_held (hi : s.HandoffInv ts slots ly) (ht : t ∈ ts) :
    ly.list (.worker t) = (s.workers t).held.toList := by
  rw [hi.worker t, if_pos ht]

theorem HandoffInv.loc_worker (hi : s.HandoffInv ts slots ly) (ht : t ∈ ts) {d : Nat}
    (hd : (s.workers t).held = some d) : ly.loc d = .worker t :=
  hi.loc_of_mem (by simp) (by rw [hi.worker_held ht, hd]; exact List.mem_singleton_self d)

theorem HandoffInv.length_add_le (hi : s.HandoffInv ts slots ly) {P Q : Place}
    (hP : P ≠ .released) (hQ : Q ≠ .released) (hPQ : P ≠ Q) :
    (ly.list P).length + (ly.list Q).length ≤ slots := by
  rw [← List.length_append]
  refine length_le_of_lt (List.nodup_append.2 ⟨hi.nodup P hP, hi.nodup Q hQ,
    fun a ha hb => hPQ (hi.eq_of_mem hP hQ ha hb)⟩) fun a ha => hi.bound a ?_
  rcases List.mem_append.1 ha with ha | ha
  · exact (hi.allocated a).2 (by rw [hi.loc_of_mem hP ha]; exact hP)
  · exact (hi.allocated a).2 (by rw [hi.loc_of_mem hQ ha]; exact hQ)

theorem HandoffInv.view_owner (hi : s.HandoffInv ts slots ly) {u : Nat} (hu : u ∈ ts) (a : Nat)
    (ha : a ∈ ly.list (.freeList u) ∨ a ∈ ly.list (.conList u) ∨ a ∈ ly.list (.addQueue u) ∨
      (s.workers u).held = some a) :
    ly.loc a ≠ .released ∧ (ly.loc a).owner = some u := by
  rcases ha with ha | ha | ha | ha
  · rw [hi.loc_of_mem (by simp) ha]; exact ⟨by simp, rfl⟩
  · rw [hi.loc_of_mem (by simp) ha]; exact ⟨by simp, rfl⟩
  · rw [hi.loc_of_mem (by simp) ha]; exact ⟨by simp, rfl⟩
  · rw [hi.loc_worker hu ha]; exact ⟨by simp, rfl⟩

theorem HandoffInv.apart (hi : s.HandoffInv ts slots ly) (ht : t ∈ ts) :
    Apart (ly.list (.freeList t)) (ly.list (.conList t)) (ly.list (.addQueue t))
      (s.workers t).held := by
  have hw : ∀ d, (s.workers t).held = some d → d ∈ ly.list (.worker t) := fun d hd => by
    rw [hi.worker_held ht, hd]; exact List.mem_singleton_self d
  exact ⟨fun _ h h' => (nomatch hi.eq_of_mem (by simp) (by simp) h h'),
    fun _ h h' => (nomatch hi.eq_of_mem (by simp) (by simp) h h'),
    fun _ h h' => (nomatch hi.eq_of_mem (by simp) (by simp) h h'),
    fun d hd h => (nomatch hi.eq_of_mem (by simp) (by simp) h (hw d hd)),
    fun d hd h => (nomatch hi.eq_of_mem (by simp) (by simp) h (hw d hd)),
    fun d hd h => (nomatch hi.eq_of_mem (by simp) (by simp) h (hw d hd))⟩

theorem HandoffInv.of_worker (hi : s.HandoffInv ts slots ly) (ht : t ∈ ts)
    (hw : WorkerFrame s s')
    (hpool : s'.gearmand.freeDconList = s.gearmand.freeDconList ∧
      s'.gearmand.freeDconCount = s.gearmand.freeDconCount)
    (hth : ∀ u, u ≠ t → s'.threads u = s.threads u)
    (hwk : ∀ u, u ≠ t → s'.workers u = s.workers u)
    (hlinks : ∀ a, (ly.loc a).owner ≠ some t → ly.loc a ≠ .released →
      (s'.dcons a).next = (s.dcons a).next ∧ (s'.dcons a).prev = (s.dcons a).prev)
    (hly : ∀ a, ly'.loc a ≠ ly.loc a → (ly.loc a).owner = some t ∧
      ((ly'.loc a).owner = some t ∨ ly'.loc a = .released))
    (hlist : ∀ R, R.owner ≠ some t → R ≠ .released → ly'.list R = ly.list R)
    (hs : ly'.Sound)
    (hwl : ly'.list (.worker t) = (s'.workers t).held.toList)
    (halloc : ∀ a, (s'.dcons a).allocated = true ↔ ly'.loc a ≠ .released)
    (hbound : ∀ a, (s'.dcons a).allocated = true → (s.dcons a).allocated = true)
    (hti : ThreadView s'.dcons (s'.threads t) (s'.mainFor t) (s'.workers t)
      (ly'.list (.freeList t)) (ly'.list (.conList t)) (ly'.list (.addQueue t))) :
    s'.HandoffInv ts slots ly' := by
  have hpl : ∀ R, R ≠ .released → R.owner = none → ∀ x ∈ ly.list R,
      (s'.dcons x).next = (s.dcons x).next ∧ (s'.dcons x).prev = (s.dcons x).prev := by
    intro R hR ho x hx
    have hl := hi.loc_of_mem hR hx
    exact hlinks x (by rw [hl, ho]; simp) (by rw [hl]; exact hR)
  refine ⟨hs, ?_, ?_, halloc, fun a ha => hi.bound a (hbound a ha), ?_, ?_, ?_, ?_, ?_, ?_, ?_,
    ?_, ?_, ?_, ?_, ?_⟩
  · rw [hlist .main (by simp [Place.owner]) (by simp), hi.main, hw.main]
  · intro u
    by_cases hu : u = t
    · subst hu; rw [hwl, if_pos ht]
    · rw [hlist (.worker u) (by simpa [Place.owner] using hu) (by simp), hi.worker u, hwk u hu]
  · intro a u ha
    by_cases hl : ly'.loc a = ly.loc a
    · exact hi.placed a u (hl ▸ ha)
    · rcases (hly a hl).2 with h | h
      · rw [h] at ha; cases ha; exact ht
      · rw [h] at ha; cases ha
  · rw [hpool.1, hpool.2, hlist .pool (by simp [Place.owner]) (by simp)]
    exact hi.pool.congr (hpl .pool (by simp) rfl)
  · rw [hw.main, hlist .grabbed (by simp [Place.owner]) (by simp)]
    exact hi.grabbed.congr (hpl .grabbed (by simp) rfl)
  · intro d hd
    rw [hw.main] at hd
    obtain ⟨hn, hp⟩ := hpl .main (by simp) rfl d (by rw [hi.main, hd]; exact List.mem_singleton_self d)
    rw [hn, hp]
    exact hi.held d hd
  · intro d hd
    rw [hw.main] at hd ⊢
    rw [hw.thread]
    exact hi.mainThread d hd
  · rw [hw.main]; exact hi.mainOk
  · intro h
    rw [Gearmand.nextThread, hw.threadAddNext, hw.threadList]
    exact hi.nextThread (hw.main ▸ h)
  · intro h; rw [hw.threadAddNext]; exact hi.threadAddNext (hw.main ▸ h)
  · rw [hw.threadList]; exact hi.threadList
  · intro u hu v hv; rw [hw.next] at hv; exact hi.threadNext u hu v hv
  · intro a u ha
    rw [hw.thread]
    by_cases hl : ly'.loc a = ly.loc a
    · exact hi.thread a u (hl ▸ ha)
    · obtain ⟨h₁, h₂⟩ := hly a hl
      rcases h₂ with h₂ | h₂
      · rw [h₂] at ha; cases ha; exact hi.thread a t h₁
      · rw [h₂] at ha; cases ha
  · intro u hu
    by_cases hut : u = t
    · subst hut; exact hti
    · have hne : some u ≠ some t := fun h => hut (Option.some.inj h)
      rw [hth u hut, hwk u hut, hw.mainFor, hlist _ (by simpa [Place.owner] using hut) (by simp),
        hlist (.conList u) (by simpa [Place.owner] using hut) (by simp),
        hlist (.addQueue u) (by simpa [Place.owner] using hut) (by simp)]
      refine (hi.threads u hu).frame (.refl _ _) fun a ha => ?_
      obtain ⟨h₁, h₂⟩ := hi.view_owner hu a ha
      exact hlinks a (by rw [h₂]; exact hne) h₁

theorem HandoffInv.modifySetWorker (hi : s.HandoffInv ts slots ly) (ht : t ∈ ts)
    {f : DThread → DThread} (hf : ∀ th, (f th).next = th.next) {pc : WorkerPc}
    (hheld : pc.held = (s.workers t).held)
    (hv : ThreadView s.dcons (f (s.threads t)) (s.mainFor t) pc (ly.list (.freeList t))
      (ly.list (.conList t)) (ly.list (.addQueue t))) :
    ((s.modifyThread t f).setWorker t pc).HandoffInv ts slots ly :=
  hi.of_worker ht (((WorkerFrame.refl s).modifyThread t f hf).setWorker t pc) ⟨rfl, rfl⟩
    (fun u hu => Function.update_noteq hu _ _) (fun u hu => Function.update_noteq hu _ _)
    (fun _ _ _ => ⟨rfl, rfl⟩) (fun _ h => absurd rfl h) (fun _ _ _ => rfl) hi.toSound
    (by rw [hi.worker_held ht]; simp [hheld]) hi.allocated (fun _ => id) (by simpa using hv)

theorem HandoffInv.setWorker (hi : s.HandoffInv ts slots ly) (ht : t ∈ ts) {pc : WorkerPc}
    (hheld : pc.held = (s.workers t).held)
    (hv : ThreadView s.dcons (s.threads t) (s.mainFor t) pc (ly.list (.freeList t))
      (ly.list (.conList t)) (ly.list (.addQueue t))) :
    (s.setWorker t pc).HandoffInv ts slots ly :=
  hi.of_worker ht ((WorkerFrame.refl s).setWorker t pc) ⟨rfl, rfl⟩ (fun _ _ => rfl)
    (fun u hu => Function.update_noteq hu _ _) (fun _ _ _ => ⟨rfl, rfl⟩) (fun _ h => absurd rfl h)
    (fun _ _ _ => rfl) hi.toSound (by rw [hi.worker_held ht]; simp [hheld]) hi.allocated
    (fun _ => id) (by simpa using hv)

theorem HandoffInv.of_worker_move (hi : s.HandoffInv ts slots ly) (ht : t ∈ ts)
    (hw : WorkerFrame s s')
    (hpool : s'.gearmand.freeDconList = s.gearmand.freeDconList ∧
      s'.gearmand.freeDconCount = s.gearmand.freeDconCount)
    (hth : ∀ u, u ≠ t → s'.threads u = s.threads u)
    (hwk : ∀ u, u ≠ t → s'.workers u = s.workers u)
    (hlinks : ∀ a, (ly.loc a).owner ≠ some t → ly.loc a ≠ .released →
      (s'.dcons a).next = (s.dcons a).next ∧ (s'.dcons a).prev = (s.dcons a).prev)
    {d : Nat} {P Q : Place} (hd : ly.loc d = P) (hP : P.owner = some t) (hQ : Q.owner = some t)
    (hPQ : P ≠ Q) (hwl : (ly.moveTo d Q).list (.worker t) = (s'.workers t).held.toList)
    (halloc : ∀ a, (s'.dcons a).allocated = (s.dcons a).allocated)
    (hti : ThreadView s'.dcons (s'.threads t) (s'.mainFor t) (s'.workers t)
      ((ly.moveTo d Q).list (.freeList t)) ((ly.moveTo d Q).list (.conList t))
      ((ly.moveTo d Q).list (.addQueue t))) :
    s'.HandoffInv ts slots (ly.moveTo d Q) := by
  have hPr : P ≠ .released := by rintro rfl; cases hP
  have hQr : Q ≠ .released := by rintro rfl; cases hQ
  refine hi.of_worker ht hw hpool hth hwk hlinks (fun a ha => ?_) (fun R hR hRr => ?_)
    (hi.toSound.moveTo fun _ => hd ▸ hPQ) hwl (fun a => ?_) (fun a h => halloc a ▸ h) hti
  · rw [Layout.moveTo_loc] at ha ⊢
    by_cases had : a = d
    · rw [if_pos had, had, hd]; exact ⟨hP, .inl hQ⟩
    · rw [if_neg had] at ha; exact absurd rfl ha
  · exact hi.toSound.moveTo_list R hRr (fun h => hR (h ▸ hQ)) fun h => hR (h ▸ hd ▸ hP)
  · rw [halloc, hi.allocated, Layout.moveTo_loc]
    by_cases had : a = d
    · rw [if_pos had, had, hd]; exact ⟨fun _ => hQr, fun _ => hPr⟩
    · rw [if_neg had]

theorem HandoffInv.of_worker_release (hi : s.HandoffInv ts slots ly) (ht : t ∈ ts)
    (hw : WorkerFrame s s')
    (hpool : s'.gearmand.freeDconList = s.gearmand.freeDconList ∧
      s'.gearmand.freeDconCount = s.gearmand.freeDconCount)
    (hth : ∀ u, u ≠ t → s'.threads u = s.threads u)
    (hwk : ∀ u, u ≠ t → s'.workers u = s.workers u)
    (hlinks : ∀ a, (s'.dcons a).next = (s.dcons a).next ∧ (s'.dcons a).prev = (s.dcons a).prev)
    {d : Nat} {P : Place} (hd : ly.loc d = P) (hP : P.owner = some t)
    (hwl : (ly.moveTo d .released).list (.worker t) = (s'.workers t).held.toList)
    (halloc : ∀ a, (s'.dcons a).allocated = if a = d then false else (s.dcons a).allocated)
    (hti : ThreadView s'.dcons (s'.threads t) (s'.mainFor t) (s'.workers t)
      ((ly.moveTo d .released).list (.freeList t)) ((ly.moveTo d .released).list (.conList t))
      ((ly.moveTo d .released).list (.addQueue t))) :
    s'.HandoffInv ts slots (ly.moveTo d .released) := by
  refine hi.of_worker ht hw hpool hth hwk (fun a _ _ => hlinks a) (fun a ha => ?_)
    (fun R hR hRr => ?_) (hi.toSound.moveTo fun h => absurd rfl h) hwl (fun a => ?_)
    (fun a h => ?_) hti
  · rw [Layout.moveTo_loc] at ha ⊢
    by_cases had : a = d
    · rw [if_pos had, had, hd]; exact ⟨hP, .inr rfl⟩
    · rw [if_neg had] at ha; exact absurd rfl ha
  · exact hi.toSound.moveTo_list R hRr hRr fun h => hR (h ▸ hd ▸ hP)
  · rw [halloc, Layout.moveTo_loc]
    by_cases had : a = d
    · simp [had]
    · rw [if_neg had, if_neg had, hi.allocated]
  · rw [halloc] at h
    by_cases had : a = d
    · rw [if_pos had] at h; cases h
    · rwa [if_neg had] at h

theorem HandoffInv.length_le (hi : s.HandoffInv ts slots ly) {P : Place} (hP : P ≠ .released) :
    (ly.list P).length ≤ slots :=
  length_le_of_lt (hi.nodup P hP) fun a ha =>
    hi.bound a ((hi.allocated a).2 (by rw [hi.loc_of_mem hP ha]; exact hP))

theorem HandoffInv.addStore_of_storing (hi : s.HandoffInv ts slots ly)
    (h : (s.mainFor t).storing = true) : ∃ d c, s.main = .addStore d t c := by
  unfold mainFor at h
  split at h
  · rename_i hm
    cases hpc : s.main with
    | addStore d u c =>
      obtain ⟨t', -, ht', hu⟩ := hi.mainThread d (by rw [hpc]; rfl)
      have : t' = t := by
        unfold Daemon.mainThread at hm; rw [hpc] at hm; simpa [MainPc.dcon, ht'] using hm
      exact ⟨d, c, by rw [hu u c hpc, this]⟩
    | _ => rw [hpc] at h; cases h
  · cases h

theorem nthNode_mem {next : Nat → Option Nat} {h : Option Nat} {xs : List Nat}
    (hc : Chain next h xs) {k d : Nat} (hk : nthNode next h k = some d) : d ∈ xs := by
  induction xs generalizing h k with
  | nil => rw [show h = none from hc] at hk; simp [nthNode] at hk
  | cons x xs ih =>
    obtain ⟨rfl, hc⟩ := hc
    cases k with
    | zero => cases hk; exact List.mem_cons_self _ _
    | succ k => exact List.mem_cons_of_mem _ (ih hc hk)

theorem HandoffInv.run (hslots : slots < uint32Size) (hi : s.HandoffInv ts slots ly)
    {added : Bool} (h : (Event.run t added).step ts slots s = some s') :
    (∃ ly', s'.HandoffInv ts slots ly') ∨ s'.Racing := by
  by_cases ht : t ∈ ts
  swap
  · simp [Event.step, ht] at h
  have hv := hi.threads t ht
  have hq := hi.nodup (.addQueue t) (by simp)
  have ha := hi.apart ht
  simp only [Event.step, if_pos ht] at h
  cases hpc : s.workers t with
  | idle => simp [hpc, gearmandConCheckQueue] at h
  | fault => simp [hpc, gearmandConCheckQueue] at h
  | checkCount =>
    rw [hpc] at hv
    simp only [hpc, gearmandConCheckQueue] at h
    cases h
    exact .inl ⟨ly, hi.setWorker ht (by rw [hpc]; split <;> rfl)
      (hv.checkCount ((hi.length_le (by simp)).trans_lt hslots))⟩
  | checkList =>
    rw [hpc] at hv
    simp only [hpc, gearmandConCheckQueue] at h
    cases h
    exact .inl ⟨ly, hi.setWorker ht (by rw [hpc]; split <;> rfl) hv.checkList⟩
  | lock =>
    rw [hpc] at hv
    have hl : (s.threads t).lock = false := hv.lock
    simp only [hpc, gearmandConCheckQueue, hl, Bool.false_eq_true, if_false] at h
    cases h
    exact .inl ⟨ly, hi.modifySetWorker ht (by intro; rfl) (by rw [hpc]; rfl) hv.mutexLock⟩
  | take =>
    rw [hpc] at hv
    obtain ⟨d, hl, hv'⟩ := hv.take
    simp only [hpc, gearmandConCheckQueue, hl] at h
    cases h
    exact .inl ⟨ly, hi.setWorker ht (by rw [hpc]; rfl) hv'⟩
  | delTest d =>
    rw [hpc] at hv
    obtain ⟨hl, hv'⟩ := hv.delTest
    simp only [hpc, gearmandConCheckQueue, hl, if_true] at h
    cases h
    exact .inl ⟨ly, hi.setWorker ht (by rw [hpc]; rfl) hv'⟩
  | delHead d =>
    rw [hpc] at hv
    simp only [hpc, gearmandConCheckQueue] at h
    cases h
    obtain ⟨q, hql⟩ := List.head?_eq_some_iff.1 hv.shape
    rw [hql] at hv
    have hloc : ly.loc d = .addQueue t :=
      hi.loc_of_mem (by simp) (by rw [hql]; exact List.mem_cons_self _ _)
    refine .inl ⟨ly.moveTo d (.worker t), hi.of_worker_move ht
      (((WorkerFrame.refl s).modifyThread t _ (by intro; rfl)).setWorker t _) ⟨rfl, rfl⟩
      (fun u hu => Function.update_noteq hu _ _) (fun u hu => Function.update_noteq hu _ _)
      (fun _ _ _ => ⟨rfl, rfl⟩) hloc (by rfl) (by rfl) (by simp) ?_ (fun _ => rfl) ?_⟩
    · simp [hi.worker_held ht, hpc, WorkerPc.held]
    · rw [hi.toSound.moveTo_list (.freeList t) (by simp) (by simp) (by rw [hloc]; simp),
        hi.toSound.moveTo_list (.conList t) (by simp) (by simp) (by rw [hloc]; simp),
        Layout.moveTo_list_of_ne (by simp), hql, List.erase_cons_head]
      simpa using hv.delHead
  | delPrevTest d =>
    rw [hpc] at hv
    obtain ⟨hl, hv'⟩ := hv.delPrevTest
    simp only [hpc, gearmandConCheckQueue, hl, if_true] at h
    cases h
    exact .inl ⟨ly, hi.setWorker ht (by rw [hpc]; rfl) hv'⟩
  | delPrev d => rw [hpc] at hv; exact absurd hv.shape id
  | delNextTest d =>
    rw [hpc] at hv
    simp only [hpc, gearmandConCheckQueue] at h
    cases h
    exact .inl ⟨ly, hi.setWorker ht (by rw [hpc]; split <;> rfl) hv.delNextTest⟩
  | delNext d =>
    rw [hpc] at hv
    obtain ⟨n, hn, hnq⟩ := hv.delNext_next
    simp only [hpc, gearmandConCheckQueue, hn] at h
    cases h
    have hnl : ly.loc n = .addQueue t := hi.loc_of_mem (by simp) hnq
    have hnext : ∀ a, (dconLinks.writePrev s.dcons n (s.dcons d).prev a).next =
        (s.dcons a).next := dconLinks.next_writePrev s.dcons n _
    have hprev : ∀ a, a ≠ n →
        (dconLinks.writePrev s.dcons n (s.dcons d).prev a).prev = (s.dcons a).prev :=
      fun a ha => by simpa [ha] using dconLinks.prev_writePrev s.dcons n (s.dcons d).prev a
    have hw := ((WorkerFrame.refl s).setDcons _ (thread_writePrev s.dcons n (s.dcons d).prev)).setWorker
      t (.delLoad d)
    refine .inl ⟨ly, hi.of_worker ht hw ⟨rfl, rfl⟩
      (fun _ _ => rfl) (fun u hu => Function.update_noteq hu _ _)
      (fun a ha _ => ⟨hnext a, hprev a fun h => ha (by rw [h, hnl]; rfl)⟩)
      (fun _ h => absurd rfl h) (fun _ _ _ => rfl) hi.toSound
      (by simp [hi.worker_held ht, hpc, WorkerPc.held])
      (fun a => by
        rw [← hi.allocated a]
        exact iff_of_eq (congrArg (· = true) (dconLinks.field_writePrevIf Dcon.allocated
          (fun _ _ => rfl) s.dcons (some n) _ a)))
      (fun a h => by
        rwa [← dconLinks.field_writePrevIf Dcon.allocated (fun _ _ => rfl) s.dcons (some n)
          (s.dcons d).prev a])
      ?_⟩
    rw [hw.mainFor]
    rw [hpc] at ha
    simpa using hv.delNext hn hq ha
  | delLoad d =>
    rw [hpc] at hv
    simp only [hpc, gearmandConCheckQueue] at h
    cases h
    cases hm : (s.mainFor t).storing
    · exact .inl ⟨ly, hi.setWorker ht (by rw [hpc]; rfl) (hv.delLoad hm)⟩
    · obtain ⟨d', c, hmain⟩ := hi.addStore_of_storing hm
      exact .inr ⟨d', t, c, d, (s.threads t).dconAddCount, hmain, by simp⟩
  | delStore d c =>
    rw [hpc] at hv
    simp only [hpc, gearmandConCheckQueue] at h
    cases h
    exact .inl ⟨ly, hi.modifySetWorker ht (by intro; rfl) (by rw [hpc]; rfl) hv.delStore⟩
  | unlock d =>
    rw [hpc] at hv
    simp only [hpc, gearmandConCheckQueue] at h
    cases h
    exact .inl ⟨ly, hi.modifySetWorker ht (by intro; rfl) (by rw [hpc]; rfl) hv.mutexUnlock⟩
  | conAdd d =>
    rw [hpc] at hv ha
    simp only [hpc, gearmandConCheckQueue] at h
    cases h
    have hdw : d ∈ ly.list (.worker t) := by
      rw [hi.worker_held ht, hpc]; exact List.mem_singleton_self d
    have hloc : ly.loc d = .worker t := hi.loc_of_mem (by simp) hdw
    have hwl : ∀ Q, Q ≠ .worker t → (ly.moveTo d Q).list (.worker t) = [] := fun Q hQ => by
      rw [Layout.moveTo_list_of_ne (Ne.symm hQ), hi.worker_held ht, hpc]; simp [WorkerPc.held]
    have hf := conAdd_frame s t d added
    cases added with
    | false =>
      refine .inl ⟨ly.moveTo d .released, hi.of_worker_release ht hf ⟨rfl, rfl⟩
        (fun _ _ => rfl) (fun u hu => Function.update_noteq hu _ _)
        (fun a => ⟨next_update_allocated .., prev_update_allocated ..⟩) hloc (by rfl)
        ((hwl _ (by simp)).trans (by simp [conAdd, WorkerPc.held]))
        (allocated_update_allocated _ _ _) ?_⟩
      rw [hi.toSound.moveTo_list (.freeList t) (by simp) (by simp) (by rw [hloc]; simp),
        hi.toSound.moveTo_list (.conList t) (by simp) (by simp) (by rw [hloc]; simp),
        hi.toSound.moveTo_list (.addQueue t) (by simp) (by simp) (by rw [hloc]; simp), hf.mainFor]
      simpa [conAdd] using hv.conAdd_failed
    | true =>
      have hlen : (ly.list (.conList t)).length + 1 < uint32Size := by
        have h₂ := hi.length_add_le (P := .conList t) (Q := .worker t) (by simp) (by simp) (by simp)
        rw [hi.worker_held ht, hpc] at h₂
        exact lt_of_le_of_lt h₂ hslots
      refine .inl ⟨ly.moveTo d (.conList t), hi.of_worker_move ht hf ⟨rfl, rfl⟩
        (fun u hu => Function.update_noteq hu _ _) (fun u hu => Function.update_noteq hu _ _)
        (fun a ha' _ => @Links.DChain.listAdd_frame _ _ _ _ (s.threads t).dconCount _ _
          hv.conList.toDChain a (fun h => ha' (by rw [hi.loc_of_mem (by simp) h]; rfl))
          fun h => ha' (by rw [h, hloc]; rfl))
        hloc (by rfl) (by rfl) (by simp)
        ((hwl _ (by simp)).trans (by simp [conAdd, WorkerPc.held]))
        (fun a => dconLinks.field_listAdd Dcon.allocated (fun _ _ => rfl) (fun _ _ => rfl) s.dcons
          (s.threads t).dconList (s.threads t).dconCount d a)
        ?_⟩
      rw [hi.toSound.moveTo_list (.freeList t) (by simp) (by simp) (by rw [hloc]; simp),
        Layout.moveTo_list_self,
        hi.toSound.moveTo_list (.addQueue t) (by simp) (by simp) (by rw [hloc]; simp), hf.mainFor]
      simpa [conAdd] using hv.conAdd_added ha hlen
  | freeCount d =>
    rw [hpc] at hv
    simp only [hpc] at h
    have hf := gearmandConFree_frame h
    have hloc : ly.loc d = .worker t := hi.loc_worker ht (by rw [hpc]; rfl)
    simp only [gearmandConFree, hpc] at h
    split at h
    · cases h
      exact .inl ⟨ly, hi.setWorker ht (by rw [hpc]; rfl) (hv.freeCount false).1⟩
    · cases h
      refine .inl ⟨ly.moveTo d .released, hi.of_worker_release ht hf ⟨rfl, rfl⟩
        (fun _ _ => rfl) (fun u hu => Function.update_noteq hu _ _)
        (fun a => ⟨next_update_allocated .., prev_update_allocated ..⟩) hloc (by rfl) ?_
        (allocated_update_allocated _ _ _) ?_⟩
      · rw [Layout.moveTo_list_of_ne (by simp), hi.worker_held ht, hpc]; simp [WorkerPc.held]
      · rw [hi.toSound.moveTo_list (.freeList t) (by simp) (by simp) (by rw [hloc]; simp),
          hi.toSound.moveTo_list (.conList t) (by simp) (by simp) (by rw [hloc]; simp),
          hi.toSound.moveTo_list (.addQueue t) (by simp) (by simp) (by rw [hloc]; simp), hf.mainFor]
        simpa using (hv.freeCount false).2
  | freeAdd d =>
    rw [hpc] at hv ha
    simp only [hpc] at h
    have hf := gearmandConFree_frame h
    have hloc : ly.loc d = .worker t := hi.loc_worker ht (by rw [hpc]; rfl)
    have hdt : s.dconThread d = some t := by
      unfold dconThread
      rw [if_pos ((hi.allocated d).2 (by rw [hloc]; simp))]
      exact hi.thread d t (by rw [hloc]; rfl)
    have hl : (s.threads t).lock = false := hv.lock
    simp only [gearmandConFree, hpc, withWorkerThread, hdt, hl, Bool.false_eq_true, if_false] at h
    cases h
    have hlen : (ly.list (.freeList t)).length + 1 < uint32Size := by
      have h₂ := hi.length_add_le (P := .freeList t) (Q := .worker t) (by simp) (by simp) (by simp)
      rw [hi.worker_held ht, hpc] at h₂
      exact lt_of_le_of_lt h₂ hslots
    refine .inl ⟨ly.moveTo d (.freeList t), hi.of_worker_move ht hf ⟨rfl, rfl⟩
      (fun u hu => Function.update_noteq hu _ _) (fun u hu => Function.update_noteq hu _ _)
      (fun a ha' _ => @Links.DChain.listAdd_frame _ _ _ _ (s.threads t).freeDconCount _ _
        hv.freeList.toDChain a (fun h => ha' (by rw [hi.loc_of_mem (by simp) h]; rfl))
        fun h => ha' (by rw [h, hloc]; rfl))
      hloc (by rfl) (by rfl) (by simp) ?_
      (fun a => dconLinks.field_listAdd Dcon.allocated (fun _ _ => rfl) (fun _ _ => rfl) s.dcons
        (s.threads t).freeDconList (s.threads t).freeDconCount d a)
      ?_⟩
    · rw [Layout.moveTo_list_of_ne (by simp), hi.worker_held ht, hpc]; simp [WorkerPc.held]
    · rw [Layout.moveTo_list_self,
        hi.toSound.moveTo_list (.conList t) (by simp) (by simp) (by rw [hloc]; simp),
        hi.toSound.moveTo_list (.addQueue t) (by simp) (by simp) (by rw [hloc]; simp), hf.mainFor]
      simpa using hv.freeAdd ha hlen

theorem HandoffInv.wakeup (hi : s.HandoffInv ts slots ly)
    (h : (Event.wakeup t).step ts slots s = some s') : s'.HandoffInv ts slots ly := by
  simp only [Event.step] at h
  split at h
  · rename_i hc
    obtain ⟨ht, hpc, -⟩ := hc
    cases h
    have hv := hi.threads t ht
    rw [hpc] at hv
    exact hi.modifySetWorker ht (by intro; rfl) (by rw [hpc]; rfl) hv.readWakeup
  · cases h

theorem HandoffInv.close (hslots : slots < uint32Size) (hi : s.HandoffInv ts slots ly) {k : Nat}
    (h : (Event.close t k).step ts slots s = some s') :
    ∃ ly', s'.HandoffInv ts slots ly' := by
  simp only [Event.step] at h
  split at h
  swap
  · cases h
  rename_i hc
  obtain ⟨ht, hpc⟩ := hc
  have hf := conFreeStart_frame h
  have hv := hi.threads t ht
  have ha := hi.apart ht
  rw [hpc] at hv ha
  unfold conFreeStart at h
  cases hk : nthNode (fun x => (s.dcons x).next) (s.threads t).dconList k with
  | none => rw [hk] at h; cases h
  | some d =>
    have hd : d ∈ ly.list (.conList t) := nthNode_mem hv.conList.chain hk
    have hloc : ly.loc d = .conList t := hi.loc_of_mem (by simp) hd
    have hdt : s.dconThread d = some t := by
      unfold dconThread
      rw [if_pos ((hi.allocated d).2 (by rw [hloc]; simp))]
      exact hi.thread d t (by rw [hloc]; rfl)
    simp only [hk, hdt] at h
    cases h
    refine ⟨ly.moveTo d (.worker t), hi.of_worker_move ht hf ⟨rfl, rfl⟩
      (fun u hu => Function.update_noteq hu _ _) (fun u hu => Function.update_noteq hu _ _)
      (fun a ha' _ => @Links.DChain.listDel_frame _ _ _ _ (s.threads t).dconCount _ _
        hv.conList.toDChain hd a fun h => ha' (by rw [hi.loc_of_mem (by simp) h]; rfl))
      hloc (by rfl) (by rfl) (by simp) ?_
      (fun a => dconLinks.field_listDel Dcon.allocated (fun _ _ => rfl) (fun _ _ => rfl) s.dcons
        (s.threads t).dconList (s.threads t).dconCount d a)
      ?_⟩
    · rw [Layout.moveTo_list_self, hi.worker_held ht, hpc]; simp [WorkerPc.held]
    · rw [hi.toSound.moveTo_list (.freeList t) (by simp) (by simp) (by rw [hloc]; simp),
        Layout.moveTo_list_of_ne (by simp),
        hi.toSound.moveTo_list (.addQueue t) (by simp) (by simp) (by rw [hloc]; simp), hf.mainFor]
      simpa using hv.close hd ha ((hi.length_le (by simp)).trans hslots.le)

end Daemon

end GearmanServer
