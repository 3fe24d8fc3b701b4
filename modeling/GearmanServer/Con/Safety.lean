import GearmanServer.Con.MainSteps

/-!
# The hand-off over whole runs

`HandoffInv.step_cases`: from a state with the hand-off invariant, a statement of any thread keeps it,
unless the main thread's load of `dcon_add_count++` meets the worker's loaded
`dcon_add_count--` (`Racing`), or the main thread reads `dcon->thread` of a structure the
worker has freed. Both happen, in the runs after the theorem. Over every run that avoids the
two the invariant holds throughout (`CleanReach.handoffInv`), and with it what the threads
rely on: well-formed lists, each structure on the lists of the thread it was given to, and a
wakeup byte for every structure waiting on a `dcon_add` list.
-/

namespace GearmanServer

theorem threadNext_mem {ts : List Nat} {t v : Nat} (h : threadNext ts t = some v) : v ∈ ts := by
  induction ts with
  | nil => simp [threadNext] at h
  | cons a l ih =>
    cases l with
    | nil => simp [threadNext] at h
    | cons b l =>
      simp only [threadNext] at h
      split at h
      · cases h; exact List.mem_cons_of_mem _ (List.mem_cons_self _ _)
      · exact List.mem_cons_of_mem _ (ih h)

namespace Daemon

def racing (s : Daemon) : Bool :=
  match s.main with
  | .addStore _ t _ => (s.workers t).storing
  | _ => false

theorem racing_iff {s : Daemon} : s.Racing ↔ s.racing = true := by
  unfold Racing racing
  constructor
  · rintro ⟨d, t, c, d', c', hm, hw⟩
    simp [hm, hw, WorkerPc.storing]
  · intro h
    split at h
    · rename_i d t c hm
      cases hw : s.workers t with
      | delStore d' c' => exact ⟨d, t, c, d', c', hm, hw⟩
      | _ => rw [hw] at h; cases h
    · cases h

instance : DecidablePred Racing := fun _ => decidable_of_iff _ racing_iff.symm

variable {ts : List Nat} {slots : Nat} {s s' : Daemon} {ly : Layout}

theorem handoffInv_init (hne : ts ≠ []) (m : Nat) :
    (Daemon.init ts m).HandoffInv ts slots ⟨fun _ => .released, fun _ => []⟩ := by
  obtain ⟨t, l, rfl⟩ := List.exists_cons_of_ne_nil hne
  have hv : ∀ u, ThreadView (fun _ => {}) { next := threadNext (t :: l) u } .idle .idle [] [] [] :=
    fun _ => {
      freeList := ⟨⟨rfl, trivial, List.nodup_nil⟩, rfl⟩
      conList := ⟨⟨rfl, trivial, List.nodup_nil⟩, rfl⟩
      addChain := rfl
      addBack := trivial
      countLt := Nat.two_pow_pos 32
      count := rfl
      lock := rfl
      shape := trivial
      unlocked := fun h => by cases h
      store := fun _ _ _ h => by cases h
      noRace := fun h => by cases h.1
      wakeup := fun h => absurd rfl h }
  refine ⟨⟨fun P a hP => ?_, fun _ _ => List.nodup_nil⟩, rfl, fun u => ?_, fun a => ?_,
    fun _ h => (by cases h), fun _ _ h => (by cases h), ⟨⟨rfl, trivial, List.nodup_nil⟩, rfl⟩,
    ⟨rfl, trivial, List.nodup_nil⟩, fun _ h => (by cases h), fun _ h => (by cases h),
    ⟨fun h => (by cases h), fun _ h => (by cases h)⟩,
    fun _ => ⟨t, List.mem_cons_self _ _, rfl⟩, fun h => absurd rfl h,
    ⟨t, List.mem_cons_self _ _, rfl⟩, fun u _ v h => threadNext_mem h, fun _ _ h => (by cases h),
    fun u _ => ?_⟩
  · simpa using Ne.symm hP
  · split <;> rfl
  · simp [Daemon.init]
  · rw [mainFor_of_ne (.inr (mainThread_of_none (s := Daemon.init (t :: l) m) rfl)) (t := u + 1)
      (by omega)]
    exact hv u

theorem HandoffInv.step_cases (hslots : slots < uint32Size) (hi : s.HandoffInv ts slots ly)
    {e : Event} (h : e.step ts slots s = some s') :
    (∃ ly', s'.HandoffInv ts slots ly') ∨ s'.Racing ∨
      ∃ d, s.main.dcon = some d ∧ (s.dcons d).allocated = false ∧ s'.main = .fault := by
  cases e with
  | main malloc => exact hi.conCreate hslots h
  | wakeup t => exact .inl ⟨ly, hi.wakeup h⟩
  | close t k => exact .inl (hi.close hslots h)
  | run t added => exact (hi.run hslots h).imp_right .inl

def raceRun : List Event :=
  [.main (some 0), .main none, .main none, .main none, .main none, .main none, .main none,
   .main none, .main none, .main none, .main (some 1), .wakeup 0, .run 0 true, .run 0 true,
   .run 0 true, .run 0 true, .run 0 true, .run 0 true, .run 0 true, .run 0 true, .run 0 true,
   .run 0 true, .main none, .main none, .main none, .main none, .main none, .main none,
   .main none, .run 0 true, .run 0 true, .run 0 true, .run 0 true, .run 0 true, .run 0 true,
   .run 0 true, .run 0 true, .run 0 true, .run 0 true]

example : (Daemon.exec [0] 4 (Daemon.init [0] 5) raceRun).map racing = some true := by decide

def freedReadRun : List Event :=
  [.main (some 0), .main none, .main none, .main none, .main none, .main none, .main none,
   .main none, .main none, .main none, .main (some 1), .main none, .main none, .wakeup 0,
   .run 0 true, .run 0 true, .run 0 true, .run 0 true, .run 0 true, .run 0 true, .run 0 true,
   .run 0 true, .run 0 true, .run 0 true, .run 0 true, .run 0 true, .run 0 false, .main none]

example : (Daemon.exec [0] 4 (Daemon.init [0] 5) freedReadRun).map main = some .fault := by
  decide

/-- The states of the runs from the start where no two loads of a `dcon_add_count` race and the
main thread never faults. -/
inductive CleanReach (ts : List Nat) (slots : Nat) : Daemon → Prop
  | init (m : Nat) : CleanReach ts slots (Daemon.init ts m)
  | step {s s' : Daemon} (e : Event) : CleanReach ts slots s → e.step ts slots s = some s' →
      ¬s'.Racing → s'.main ≠ .fault → CleanReach ts slots s'

theorem CleanReach.reachable (h : CleanReach ts slots s) : s.Reachable ts slots := by
  induction h with
  | init m => exact .init m
  | step e _ he _ _ ih => exact .step e ih he

def execClean (ts : List Nat) (slots : Nat) : Daemon → List Event → Option Daemon
  | s, [] => some s
  | s, e :: evs => (e.step ts slots s).bind fun s' =>
    if s'.racing || decide (s'.main = .fault) then none else execClean ts slots s' evs

theorem CleanReach.execClean (h : CleanReach ts slots s) {evs : List Event}
    (he : execClean ts slots s evs = some s') : CleanReach ts slots s' := by
  induction evs generalizing s with
  | nil => cases he; exact h
  | cons e evs ih =>
    simp only [Daemon.execClean, Option.bind_eq_some] at he
    obtain ⟨s₁, h₁, h₂⟩ := he
    split at h₂
    · cases h₂
    · rename_i hc
      simp only [Bool.or_eq_true, decide_eq_true_eq, not_or] at hc
      exact ih (h.step e h₁ (fun hr => hc.1 (racing_iff.1 hr)) hc.2) h₂

def firstCallRun : List Event :=
  [.main (some 0), .main none, .main none, .main none, .main none, .main none, .main none,
   .main none, .main none, .main none]

theorem CleanReach.handoffInv (hslots : slots < uint32Size) (hne : ts ≠ [])
    (h : CleanReach ts slots s) : ∃ ly, s.HandoffInv ts slots ly := by
  induction h with
  | init m => exact ⟨_, handoffInv_init hne m⟩
  | step e _ he hr hf ih =>
    obtain ⟨ly, hi⟩ := ih
    rcases hi.step_cases hslots he with h | h | ⟨_, _, _, h⟩
    · exact h
    · exact absurd h hr
    · exact absurd h hf

theorem handoffInv_first_call :
    ∃ s, execClean [0] 4 (Daemon.init [0] 5) firstCallRun = some s ∧
      (4 < uint32Size ∧ [0] ≠ []) ∧ ∃ ly, s.HandoffInv [0] 4 ly :=
  ⟨_, rfl, ⟨by decide, by decide⟩, CleanReach.handoffInv (by decide) (by decide)
    (CleanReach.execClean (.init 5)
      (rfl : execClean [0] 4 (Daemon.init [0] 5) firstCallRun = some _))⟩

def busyRun : List Event :=
  firstCallRun ++ .wakeup 0 :: List.replicate 13 (.run 0 true) ++
    .close 0 0 :: List.replicate 2 (.run 0 true) ++ .main (some 1) :: List.replicate 9 (.main none) ++
    .wakeup 0 :: List.replicate 13 (.run 0 true)

theorem step_cases_first_statement_and_close :
    (∃ s', (Event.main (some 0)).step [0] 4 (Daemon.init [0] 5) = some s' ∧ 4 < uint32Size ∧
      ((∃ ly', s'.HandoffInv [0] 4 ly') ∨ s'.Racing ∨ ∃ d, (Daemon.init [0] 5).main.dcon = some d ∧
        ((Daemon.init [0] 5).dcons d).allocated = false ∧ s'.main = .fault)) ∧
    ∃ s s', execClean [0] 4 (Daemon.init [0] 5) busyRun = some s ∧
      (s.threads 0).dconList = some 1 ∧ (s.threads 0).freeDconList = some 0 ∧
      (∃ ly, s.HandoffInv [0] 4 ly) ∧ (Event.close 0 0).step [0] 4 s = some s' ∧
      ((∃ ly', s'.HandoffInv [0] 4 ly') ∨ s'.Racing ∨
        ∃ d, s.main.dcon = some d ∧ (s.dcons d).allocated = false ∧ s'.main = .fault) := by
  have hb : (execClean [0] 4 (Daemon.init [0] 5) busyRun).map (fun s =>
      ((s.threads 0).dconList, (s.threads 0).freeDconList, ((Event.close 0 0).step [0] 4 s).isSome)) =
      some (some 1, some 0, true) := by decide
  obtain ⟨s, hs, he⟩ := Option.map_eq_some'.1 hb
  simp only [Prod.mk.injEq] at he
  obtain ⟨h₁, h₂, h₃⟩ := he
  obtain ⟨s', hs'⟩ := Option.isSome_iff_exists.1 h₃
  obtain ⟨ly, hi⟩ := CleanReach.handoffInv (by decide) (by decide) (CleanReach.execClean (.init 5) hs)
  exact ⟨⟨_, rfl, by decide, HandoffInv.step_cases (by decide) (handoffInv_init (by decide) 5)
    (rfl : (Event.main (some 0)).step [0] 4 (Daemon.init [0] 5) = some _)⟩,
    s, s', hs, h₁, h₂, ⟨ly, hi⟩, hs', HandoffInv.step_cases (by decide) hi hs'⟩

theorem CleanReach.lists_well_formed (hslots : slots < uint32Size) (hne : ts ≠ [])
    (h : CleanReach ts slots s) :
    ∃ ly : Layout, ly.Sound ∧
      dconLinks.DList s.dcons s.gearmand.freeDconList s.gearmand.freeDconCount (ly.list .pool) ∧
      ∀ t ∈ ts,
        dconLinks.DList s.dcons (s.threads t).freeDconList (s.threads t).freeDconCount
          (ly.list (.freeList t)) ∧
        dconLinks.DList s.dcons (s.threads t).dconList (s.threads t).dconCount
          (ly.list (.conList t)) ∧
        ∀ d ∈ ly.list (.conList t), s.dconThread d = some t := by
  obtain ⟨ly, hi⟩ := h.handoffInv hslots hne
  refine ⟨ly, hi.toSound, hi.pool, fun t ht => ⟨(hi.threads t ht).freeList,
    (hi.threads t ht).conList, fun d hd => ?_⟩⟩
  have hloc := hi.loc_of_mem (by simp) hd
  have hal : (s.dcons d).allocated = true := (hi.allocated d).2 (by rw [hloc]; simp)
  unfold dconThread
  rw [if_pos hal, hi.thread d t (by rw [hloc]; rfl)]

theorem lists_after_close :
    ∃ s, execClean [0] 4 (Daemon.init [0] 5) busyRun = some s ∧
      (s.threads 0).dconList = some 1 ∧ (s.threads 0).freeDconList = some 0 ∧
      ∃ ly : Layout, ly.Sound ∧
      dconLinks.DList s.dcons s.gearmand.freeDconList s.gearmand.freeDconCount (ly.list .pool) ∧
      ∀ t ∈ [0],
        dconLinks.DList s.dcons (s.threads t).freeDconList (s.threads t).freeDconCount
          (ly.list (.freeList t)) ∧
        dconLinks.DList s.dcons (s.threads t).dconList (s.threads t).dconCount
          (ly.list (.conList t)) ∧
        ∀ d ∈ ly.list (.conList t), s.dconThread d = some t := by
  have hb : (execClean [0] 4 (Daemon.init [0] 5) busyRun).map (fun s =>
      ((s.threads 0).dconList, (s.threads 0).freeDconList)) = some (some 1, some 0) := by decide
  obtain ⟨s, hs, he⟩ := Option.map_eq_some'.1 hb
  obtain ⟨h₁, h₂⟩ := Prod.mk.inj_iff.1 he
  exact ⟨s, hs, h₁, h₂, CleanReach.lists_well_formed (by decide) (by decide)
    (CleanReach.execClean (.init 5) hs)⟩

theorem CleanReach.queued_wakeup (hslots : slots < uint32Size) (hne : ts ≠ [])
    (h : CleanReach ts slots s) {t : Nat} (ht : t ∈ ts) (hm : s.main = .idle)
    (hw : s.workers t = .idle) :
    (∃ xs, dconLinks.DList s.dcons (s.threads t).dconAddList (s.threads t).dconAddCount xs) ∧
      ((s.threads t).dconAddList ≠ none → 0 < (s.threads t).wakeups) := by
  obtain ⟨ly, hi⟩ := h.handoffInv hslots hne
  have hv := hi.threads t ht
  rw [mainFor_of_ne (.inr (mainThread_of_none (by rw [hm]; rfl))) (t := t + 1) (by omega),
    hw] at hv
  have hq := hi.nodup (.addQueue t) (by simp)
  have hlen := hi.queue_len ht
  rw [hw] at hlen
  refine ⟨⟨_, hv.addDChain rfl hq, hv.count_eq rfl (lt_of_le_of_lt hlen hslots)⟩, fun hne => ?_⟩
  have hq' : ly.list (.addQueue t) ≠ [] := fun h => hne (by rw [chain_head hv.addChain, h]; rfl)
  rcases hv.wakeup hq' with h | h | h
  · exact h
  · cases h
  · cases h

theorem queued_wakeup_first_call :
    ∃ s, execClean [0] 4 (Daemon.init [0] 5) firstCallRun = some s ∧ s.main = .idle ∧
      s.workers 0 = .idle ∧ (s.threads 0).dconAddList = some 0 ∧
      (∃ xs, dconLinks.DList s.dcons (s.threads 0).dconAddList (s.threads 0).dconAddCount xs) ∧
      ((s.threads 0).dconAddList ≠ none → 0 < (s.threads 0).wakeups) :=
  ⟨_, rfl, rfl, rfl, rfl, CleanReach.queued_wakeup (by decide) (by decide)
    (CleanReach.execClean (.init 5)
      (rfl : execClean [0] 4 (Daemon.init [0] 5) firstCallRun = some _)) (by decide) rfl rfl⟩

def strandRun : List Event :=
  raceRun ++ [.main none, .main none, .run 0 true, .run 0 true, .run 0 true, .run 0 true,
    .main (some 2), .main none, .main none, .main none, .main none, .wakeup 0, .run 0 true]

example : (Daemon.exec [0] 4 (Daemon.init [0] 5) strandRun).map (fun s =>
    (s.main, s.workers 0, (s.threads 0).dconAddList, (s.threads 0).dconAddCount,
      (s.threads 0).wakeups)) = some (.idle, .idle, some 2, 0, 0) := by decide

end Daemon

end GearmanServer
