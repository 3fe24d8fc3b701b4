import GearmanServer.Con.Step

/-!
# The round of `gearmand_con_create`

"We do a simple round-robin connection queue algorithm here": every call that gets a structure
hands it to `gearmand->thread_add_next` and moves that pointer down the thread list, starting
over at `gearmand->thread_list` once it is `NULL`. Whatever the worker threads do meanwhile,
the `i`-th structure handed out goes to thread `i mod n` of the list.
-/

namespace GearmanServer

structure RoundFrame (s s' : Daemon) : Prop where
  handoffs : s'.handoffs = s.handoffs
  threadAddNext : s'.gearmand.threadAddNext = s.gearmand.threadAddNext
  threadList : s'.gearmand.threadList = s.gearmand.threadList
  next : ∀ u, (s'.threads u).next = (s.threads u).next

namespace RoundFrame
variable {s s₁ : Daemon}

theorem refl (s : Daemon) : RoundFrame s s := ⟨rfl, rfl, rfl, fun _ => rfl⟩

theorem setMain (h : RoundFrame s s₁) (pc : MainPc) : RoundFrame s (s₁.setMain pc) :=
  ⟨h.handoffs, h.threadAddNext, h.threadList, h.next⟩

theorem setDcons (h : RoundFrame s s₁) (heap : Nat → Dcon) : RoundFrame s (s₁.setDcons heap) :=
  ⟨h.handoffs, h.threadAddNext, h.threadList, h.next⟩

theorem setPool (h : RoundFrame s s₁) (l : Option Nat) (c : Nat) :
    RoundFrame s (s₁.setPool l c) :=
  ⟨h.handoffs, h.threadAddNext, h.threadList, h.next⟩

theorem modifyThread (h : RoundFrame s s₁) (t : Nat) (f : DThread → DThread)
    (hf : ∀ th, (f th).next = th.next) : RoundFrame s (s₁.modifyThread t f) :=
  ⟨h.handoffs, h.threadAddNext, h.threadList, fun u => by
    by_cases hu : u = t
    · subst hu; simp [hf, h.next]
    · simp [Function.update_noteq hu, h.next]⟩

theorem of_worker (h : WorkerFrame s s₁) : RoundFrame s s₁ :=
  ⟨h.handoffs, h.threadAddNext, h.threadList, h.next⟩

end RoundFrame

theorem gearmandConCreate_round {slots : Nat} {s s' : Daemon} {m : Option Nat}
    (h : gearmandConCreate slots s m = some s') :
    s' = s ∨ (s.main = .idle ∧ ∃ dcon y, RoundFrame s y ∧ s' = y.conCreateInit dcon) ∨
      (s'.main = .fault ∧ RoundFrame s s') ∨
      (s.main ≠ .idle ∧ s.main ≠ .fault ∧ s'.main ≠ .idle ∧ RoundFrame s s') ∨
      (s.main ≠ .idle ∧ s.main ≠ .fault ∧ ∃ y, RoundFrame s y ∧ s' = y.conCreateDone) := by
  unfold gearmandConCreate at h
  split at h
  case h_1 hm =>
    unfold conCreateStart at h
    dsimp only at h
    split at h <;> (repeat' split at h) <;>
      (try simp only [Option.some.injEq, reduceCtorEq] at h) <;> (try subst h)
    · exact .inr (.inr (.inl ⟨rfl, (RoundFrame.refl s).setMain _⟩))
    · exact .inr (.inl ⟨hm, _, _, ((RoundFrame.refl s).setDcons _).setPool _ _, rfl⟩)
    · exact .inl rfl
    · exact .inr (.inl ⟨hm, _, _, RoundFrame.refl s, rfl⟩)
  all_goals
    try simp only [Daemon.withThread, conCreateLocked, conCreateMove, Daemon.wakeThread] at h
    (repeat' split at h) <;>
      (try simp only [Option.some.injEq, reduceCtorEq] at h) <;> (try subst h)
  all_goals first
    | exact .inr (.inr (.inl ⟨rfl, (RoundFrame.refl s).setMain _⟩))
    | exact .inr (.inr (.inr (.inl ⟨by simp_all, by simp_all, by simp,
        (RoundFrame.refl s).setDcons _ |>.setMain _⟩)))
    | exact .inr (.inr (.inr (.inl ⟨by simp_all, by simp_all, by simp,
        ((RoundFrame.refl s).setDcons _).setPool _ _ |>.setMain _⟩)))
    | exact .inr (.inr (.inr (.inl ⟨by simp_all, by simp_all, by simp,
        (RoundFrame.modifyThread (RoundFrame.refl s) _ _ (by intro; rfl)).setMain _⟩)))
    | exact .inr (.inr (.inr (.inl ⟨by simp_all, by simp_all, by simp,
        (RoundFrame.modifyThread ((RoundFrame.refl s).setDcons _) _ _ (by intro; rfl)).setMain _⟩)))
    | exact .inr (.inr (.inr (.inr ⟨by simp_all, by simp_all, _, RoundFrame.refl s, rfl⟩)))
    | exact .inr (.inr (.inr (.inr ⟨by simp_all, by simp_all, _,
        RoundFrame.modifyThread (RoundFrame.refl s) _ _ (by intro; rfl), rfl⟩)))

/-! ## The thread list and the round -/

theorem threadNext_getElem {ts : List Nat} (hts : ts.Nodup) {j : Nat} (hj : j < ts.length) :
    threadNext ts ts[j] = ts[j + 1]? := by
  induction ts generalizing j with
  | nil => cases hj
  | cons a l ih =>
    cases l with
    | nil =>
      obtain rfl : j = 0 := by simpa using hj
      rfl
    | cons b l =>
      have hl : (b :: l).Nodup := (List.nodup_cons.1 hts).2
      cases j with
      | zero => simp [threadNext]
      | succ j =>
        have hj' : j < (b :: l).length := by simpa using hj
        have hne : (b :: l)[j] ≠ a := fun h =>
          (List.nodup_cons.1 hts).1 (h ▸ List.getElem_mem _)
        simpa [threadNext, hne] using ih hl (by simpa using hj)

theorem getElem?_succ_mod {ts : List Nat} {k : Nat} (hn : 0 < ts.length) :
    ts[(k + 1) % ts.length]? = (ts[k % ts.length + 1]?).or ts.head? := by
  have hk : k % ts.length < ts.length := Nat.mod_lt _ hn
  rw [← Nat.mod_add_mod]
  rcases Nat.lt_or_ge (k % ts.length + 1) ts.length with h | h
  · rw [Nat.mod_eq_of_lt h, List.getElem?_eq_getElem h]; rfl
  · have hnone : ts[k % ts.length + 1]? = none := List.getElem?_eq_none (by omega)
    rw [hnone, show k % ts.length + 1 = ts.length by omega, Nat.mod_self]
    cases ts <;> simp

theorem handoffs_eq_nil {ts hs : List Nat} (h : ∀ i < hs.length, hs[i]? = ts[i % ts.length]?)
    (hk : ts[hs.length % ts.length]? = none) : hs = [] := by
  have hts : ts = [] := by
    cases ts with
    | nil => rfl
    | cons a l => exact absurd hk (by simp [Nat.mod_lt])
  subst hts
  cases hs with
  | nil => rfl
  | cons x xs => simpa using h 0 (by simp)

structure RoundRobin (ts : List Nat) (s : Daemon) : Prop where
  threadList : s.gearmand.threadList = ts.head?
  next : ∀ t, (s.threads t).next = threadNext ts t
  handoffs : ∀ i < s.handoffs.length, s.handoffs[i]? = ts[i % ts.length]?
  idle : s.main = .idle → s.gearmand.nextThread = ts[s.handoffs.length % ts.length]?
  busy : s.main ≠ .idle → s.main ≠ .fault → s.gearmand.threadAddNext = s.handoffs.getLast?

namespace RoundRobin
variable {ts : List Nat} {s s' : Daemon}

theorem init (m : Nat) : RoundRobin ts (Daemon.init ts m) where
  threadList := rfl
  next _ := rfl
  handoffs _ h := absurd h (Nat.not_lt_zero _)
  idle _ := by cases ts <;> simp [Daemon.init, Gearmand.nextThread]
  busy h := absurd rfl h

theorem nextThread_of_frame (hr : RoundRobin ts s) (hf : RoundFrame s s') (hm : s.main = .idle) :
    s'.gearmand.nextThread = ts[s'.handoffs.length % ts.length]? := by
  rw [Gearmand.nextThread, hf.threadAddNext, hf.threadList, hf.handoffs]; exact hr.idle hm

theorem frame (hr : RoundRobin ts s) (hf : RoundFrame s s')
    (hm : s'.main = s.main ∨ s'.main = .fault ∨
      s.main ≠ .idle ∧ s.main ≠ .fault ∧ s'.main ≠ .idle) : RoundRobin ts s' where
  threadList := hf.threadList.trans hr.threadList
  next t := (hf.next t).trans (hr.next t)
  handoffs := hf.handoffs ▸ hr.handoffs
  idle h := by
    rcases hm with hm | hm | ⟨-, -, hm⟩
    · exact hr.nextThread_of_frame hf (hm ▸ h)
    · rw [hm] at h; cases h
    · exact absurd h hm
  busy h h' := by
    rw [hf.threadAddNext, hf.handoffs]
    rcases hm with hm | hm | ⟨hm, hm', -⟩
    · exact hr.busy (hm ▸ h) (hm ▸ h')
    · exact absurd hm h'
    · exact hr.busy hm hm'

theorem conCreateInit (hr : RoundRobin ts s) (hm : s.main = .idle) (hf : RoundFrame s s')
    (dcon : Nat) : RoundRobin ts (s'.conCreateInit dcon) := by
  have ht := hr.nextThread_of_frame hf hm
  refine ⟨hf.threadList.trans hr.threadList, fun t => (hf.next t).trans (hr.next t), ?_,
    fun h => (by cases h), fun _ _ => ?_⟩
  · intro i hi
    simp only [Daemon.conCreateInit] at hi ⊢
    rw [ht] at hi ⊢
    rcases Nat.lt_or_ge i s'.handoffs.length with hlt | hge
    · rw [List.getElem?_append_left hlt, hf.handoffs]
      exact hr.handoffs i (hf.handoffs ▸ hlt)
    · cases h : ts[s'.handoffs.length % ts.length]? with
      | none => simp [h] at hi; omega
      | some u =>
        simp only [h, Option.toList_some, List.length_append, List.length_singleton] at hi
        obtain rfl : i = s'.handoffs.length := by omega
        simp [h]
  · simp only [Daemon.conCreateInit]
    rw [ht]
    cases h : ts[s'.handoffs.length % ts.length]? with
    | none => simp [handoffs_eq_nil (hf.handoffs ▸ hr.handoffs) h]
    | some u => simp

theorem conCreateDone (hr : RoundRobin ts s) (hts : ts.Nodup) (hb : s.main ≠ .idle)
    (hb' : s.main ≠ .fault) (hf : RoundFrame s s') : RoundRobin ts s'.conCreateDone := by
  have hnext : s'.gearmand.threadAddNext = s.handoffs.getLast? :=
    hf.threadAddNext.trans (hr.busy hb hb')
  unfold Daemon.conCreateDone
  rw [hnext]
  cases hl : s.handoffs.getLast? with
  | none => exact hr.frame (hf.setMain _) (.inr (.inl rfl))
  | some u =>
    obtain ⟨k, hk⟩ : ∃ k, s.handoffs.length = k + 1 := by
      cases h : s.handoffs.length with
      | zero => simp [List.length_eq_zero.1 h] at hl
      | succ k => exact ⟨k, rfl⟩
    have hu : ts[k % ts.length]? = some u := by
      rw [← hr.handoffs k (by omega), ← hl, List.getLast?_eq_getElem?, hk]; rfl
    have hn : 0 < ts.length := by
      rcases Nat.eq_zero_or_pos ts.length with h | h
      · simp [List.length_eq_zero.1 h] at hu
      · exact h
    have hmod : k % ts.length < ts.length := Nat.mod_lt _ hn
    have hget : ts[k % ts.length] = u := by simpa [List.getElem?_eq_getElem hmod] using hu
    refine ⟨hf.threadList.trans hr.threadList, fun t => (hf.next t).trans (hr.next t),
      hf.handoffs ▸ hr.handoffs, fun _ => ?_, fun h => absurd rfl h⟩
    simp only [Gearmand.nextThread, hf.next, hr.next, ← hget, threadNext_getElem hts hmod,
      hf.handoffs, hk, hf.threadList, hr.threadList, getElem?_succ_mod hn]
    cases ts[k % ts.length + 1]? <;> rfl

theorem step (hr : RoundRobin ts s) (hts : ts.Nodup) {slots : Nat} {e : Event}
    (h : e.step ts slots s = some s') : RoundRobin ts s' := by
  cases e with
  | main m =>
    rcases gearmandConCreate_round h with
      rfl | ⟨hm, dcon, y, hy, rfl⟩ | ⟨hm, hy⟩ | ⟨hb, hb', hm, hy⟩ | ⟨hb, hb', y, hy, rfl⟩
    · exact hr
    · exact hr.conCreateInit hm hy dcon
    · exact hr.frame hy (.inr (.inl hm))
    · exact hr.frame hy (.inr (.inr ⟨hb, hb', hm⟩))
    · exact hr.conCreateDone hts hb hb' hy
  | wakeup t =>
    have hw := Event.step_frame (fun _ => by simp) h
    exact hr.frame (RoundFrame.of_worker hw) (.inl hw.main)
  | close t k =>
    have hw := Event.step_frame (fun _ => by simp) h
    exact hr.frame (RoundFrame.of_worker hw) (.inl hw.main)
  | run t added =>
    have hw := Event.step_frame (fun _ => by simp) h
    exact hr.frame (RoundFrame.of_worker hw) (.inl hw.main)

end RoundRobin

theorem handoffs_round_robin {ts : List Nat} {slots : Nat} {s : Daemon} (hts : ts.Nodup)
    (h : s.Reachable ts slots) : ∀ i < s.handoffs.length, s.handoffs[i]? = ts[i % ts.length]? := by
  have hr : RoundRobin ts s := by
    induction h with
    | init m => exact RoundRobin.init m
    | step e _ he ih => exact ih.step hts he
  exact hr.handoffs

def roundRobinRun : List Event :=
  [.main (some 0), .main none, .main none, .main none, .main none, .main none, .main none,
   .main (some 1), .main none, .main none, .main none, .main none, .main none, .main none,
   .main (some 2)]

theorem handoffs_round_robin_two_threads :
    ([0, 1] : List Nat).Nodup ∧
      ∀ i < ((Daemon.exec [0, 1] 3 (Daemon.init [0, 1] 0) roundRobinRun).getD
          (Daemon.init [0, 1] 0)).handoffs.length,
        ((Daemon.exec [0, 1] 3 (Daemon.init [0, 1] 0) roundRobinRun).getD
          (Daemon.init [0, 1] 0)).handoffs[i]? = [0, 1][i % [0, 1].length]? :=
  ⟨by decide, handoffs_round_robin (by decide) (Daemon.Reachable.exec (.init 0)
    (rfl : Daemon.exec [0, 1] 3 (Daemon.init [0, 1] 0) roundRobinRun = some _))⟩

example : ((Daemon.exec [0, 1] 3 (Daemon.init [0, 1] 0) roundRobinRun).map Daemon.handoffs) =
    some [0, 1, 0] := by decide

end GearmanServer
