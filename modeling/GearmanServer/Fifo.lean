import GearmanServer.State

/-!
# `GEARMAN_FIFO_ADD` and `GEARMAN_FIFO_DEL`

The fifo macros of `common.h` keep a singly linked queue through the `__prefix ## next` field:
`__list ## _list` is its head, `__list ## _end` its last node and `__list ## _count` its
length. `FifoQueue` says which nodes the three and the heap hold, in order. The add macro
appends and the delete macro, given the head, removes it; so over every run of adds and
deletes the nodes come out in the order they went in. The add macro does not clear
`__obj->next`: a node must come to it with `NULL` there.
-/

namespace GearmanServer

/-- `__list ## _list`, `__list ## _end` and `__list ## _count`. -/
structure Fifo where
  list : Option Nat := none
  fifoEnd : Option Nat := none
  count : Nat := 0
  deriving DecidableEq, Repr

theorem lastOr_eq_getLast?_or (p : Option Nat) (xs : List Nat) :
    lastOr p xs = xs.getLast?.or p := by
  induction xs generalizing p with
  | nil => rfl
  | cons x xs ih =>
    rw [lastOr_cons, ih]
    cases xs with
    | nil => rfl
    | cons y ys =>
      rw [List.getLast?_cons_cons]
      cases h : (y :: ys).getLast? with
      | none => simp at h
      | some a => rfl

theorem lastOr_none_eq_getLast? (xs : List Nat) : lastOr none xs = xs.getLast? := by
  rw [lastOr_eq_getLast?_or, Option.or_none]

namespace Links
variable {α : Type} (L : Links α)

/-- `GEARMAN_FIFO_ADD(__list, __obj, __prefix)`: the heap and the three fields after it. -/
def fifoAdd (heap : Nat → α) (q : Fifo) (obj : Nat) : (Nat → α) × Fifo :=
  let (heap, list) := match q.fifoEnd with
    | none => (heap, some obj)
    | some e => (L.writeNext heap e (some obj), q.list)
  (heap, { list := list, fifoEnd := some obj, count := q.count + 1 })

/-- `GEARMAN_FIFO_DEL(__list, __obj, __prefix)`: the fields after it; the heap is not written. -/
def fifoDel (heap : Nat → α) (q : Fifo) (obj : Nat) : Fifo :=
  let list := L.next (heap obj)
  { list := list, fifoEnd := if list = none then none else q.fifoEnd, count := q.count - 1 }

structure FifoQueue (heap : Nat → α) (q : Fifo) (xs : List Nat) : Prop where
  chain : Chain (fun x => L.next (heap x)) q.list xs
  fifoEnd : q.fifoEnd = xs.getLast?
  count : q.count = xs.length
  nodup : xs.Nodup

variable {L} {heap : Nat → α} {q : Fifo} {xs : List Nat} {obj : Nat}

theorem writeNext_next_of_ne {e y : Nat} (p : Option Nat) (h : y ≠ e) :
    L.next (L.writeNext heap e p y) = L.next (heap y) := by
  simp [h]

theorem fifoQueue_empty (heap : Nat → α) : L.FifoQueue heap {} [] :=
  ⟨rfl, rfl, rfl, List.nodup_nil⟩

theorem FifoQueue.add (h : L.FifoQueue heap q xs) (hobj : obj ∉ xs)
    (hnext : L.next (heap obj) = none) :
    L.FifoQueue (L.fifoAdd heap q obj).1 (L.fifoAdd heap q obj).2 (xs ++ [obj]) := by
  have hnd : (xs ++ [obj]).Nodup := List.nodup_append.2 ⟨h.nodup, List.nodup_singleton _,
    fun a ha hb => hobj (List.mem_singleton.1 hb ▸ ha)⟩
  have hend := h.fifoEnd
  unfold fifoAdd
  cases he : q.fifoEnd with
  | none =>
    rw [he, eq_comm, List.getLast?_eq_none_iff] at hend
    subst hend
    exact ⟨⟨rfl, hnext⟩, rfl, by simp [h.count], hnd⟩
  | some e =>
    rw [he, ← lastOr_none_eq_getLast?] at hend
    have hxs : xs ≠ [] := by rintro rfl; cases hend
    have heo : e ≠ obj := fun h => hobj (h ▸ List.mem_of_getLast?_eq_some
      ((lastOr_none_eq_getLast? xs).symm.trans hend.symm))
    have hc : Chain (fun x => L.next (L.writeNext heap e (some obj) x))
        (if xs = [] then some obj else q.list) (xs ++ [obj]) :=
      chain_snoc h.chain h.nodup
        (fun x _ hx => writeNext_next_of_ne _ (by rintro rfl; exact hx hend.symm))
        (fun e' he' => by cases hend.trans he'; simp)
        (by simpa [Ne.symm heo] using hnext)
    rw [if_neg hxs] at hc
    exact ⟨hc, by simp, by simp [h.count], hnd⟩

theorem FifoQueue.add_next (h : L.FifoQueue heap q xs) {y : Nat} (hy : y ∉ xs) :
    L.next ((L.fifoAdd heap q obj).1 y) = L.next (heap y) := by
  unfold fifoAdd
  cases he : q.fifoEnd with
  | none => rfl
  | some e =>
    have hex : e ∈ xs := List.mem_of_getLast?_eq_some (h.fifoEnd.symm.trans he)
    exact writeNext_next_of_ne _ fun h => hy (h ▸ hex)

theorem FifoQueue.del {x : Nat} (h : L.FifoQueue heap q (x :: xs)) :
    q.list = some x ∧ L.FifoQueue heap (L.fifoDel heap q x) xs := by
  have hx : q.list = some x := h.chain.1
  have hc : Chain (fun x => L.next (heap x)) (L.next (heap x)) xs := h.chain.2
  refine ⟨hx, hc, ?_, by simp [fifoDel, h.count], (List.nodup_cons.1 h.nodup).2⟩
  simp only [fifoDel]
  split
  · rename_i hn
    rw [hn] at hc
    rw [chain_none_iff.1 hc]; rfl
  · rename_i hn
    have hxs : xs ≠ [] := by rintro rfl; exact hn hc
    rw [h.fifoEnd, List.getLast?_cons, List.getLast?_eq_getLast xs hxs]
    rfl

end Links

inductive FifoOp
  | add (obj : Nat)
  | del
  deriving DecidableEq, Repr

namespace FifoOp

def adds : List FifoOp → List Nat
  | [] => []
  | .add obj :: ops => obj :: adds ops
  | .del :: ops => adds ops

end FifoOp

namespace Links
variable {α : Type} (L : Links α)

def fifoRun (heap : Nat → α) (q : Fifo) : List FifoOp → (Nat → α) × Fifo × List Nat
  | [] => (heap, q, [])
  | .add obj :: ops =>
    let r := L.fifoAdd heap q obj
    fifoRun r.1 r.2 ops
  | .del :: ops =>
    match q.list with
    | none => fifoRun heap q ops
    | some x =>
      let r := fifoRun heap (L.fifoDel heap q x) ops
      (r.1, r.2.1, x :: r.2.2)

variable {L}

theorem FifoQueue.first_in_first_out {heap : Nat → α} {q : Fifo} {xs : List Nat} (h : L.FifoQueue heap q xs)
    {ops : List FifoOp} (hnd : (xs ++ FifoOp.adds ops).Nodup)
    (hnext : ∀ obj ∈ FifoOp.adds ops, L.next (heap obj) = none) :
    ∃ rest, L.FifoQueue (L.fifoRun heap q ops).1 (L.fifoRun heap q ops).2.1 rest ∧
      (L.fifoRun heap q ops).2.2 ++ rest = xs ++ FifoOp.adds ops := by
  induction ops generalizing heap q xs with
  | nil => exact ⟨xs, h, by simp [fifoRun, FifoOp.adds]⟩
  | cons op ops ih =>
    cases op with
    | add obj =>
      simp only [FifoOp.adds, List.mem_cons, forall_eq_or_imp] at hnd hnext
      have hobj : obj ∉ xs := fun hx => (List.nodup_append.1 hnd).2.2 hx (List.mem_cons_self _ _)
      have h' := h.add hobj hnext.1
      obtain ⟨rest, hr, he⟩ := ih h' (by simpa using hnd) fun o ho => by
        rw [h.add_next fun hx => (List.nodup_append.1 hnd).2.2 hx (List.mem_cons_of_mem _ ho)]
        exact hnext.2 o ho
      exact ⟨rest, hr, by simpa [fifoRun, FifoOp.adds] using he⟩
    | del =>
      cases xs with
      | nil =>
        have hl : q.list = none := h.chain
        simp only [fifoRun, hl]
        exact ih h hnd hnext
      | cons x xs =>
        obtain ⟨hl, h'⟩ := h.del
        obtain ⟨rest, hr, he⟩ := ih h' (List.nodup_cons.1 hnd).2 hnext
        refine ⟨rest, ?_, ?_⟩ <;> simp only [fifoRun, hl, FifoOp.adds] at hr he ⊢
        · exact hr
        · simpa using he

theorem first_in_first_out_jobs :
    jobLinks.FifoQueue (fun _ => {}) {} [] ∧
      ([] ++ FifoOp.adds [.add 1, .add 2, .del, .add 3]).Nodup ∧
      (∀ obj ∈ FifoOp.adds [.add 1, .add 2, .del, .add 3],
        jobLinks.next ((fun _ => {} : Nat → ServerJob) obj) = none) ∧
      ∃ rest, jobLinks.FifoQueue (jobLinks.fifoRun (fun _ => {}) {} [.add 1, .add 2, .del, .add 3]).1
          (jobLinks.fifoRun (fun _ => {}) {} [.add 1, .add 2, .del, .add 3]).2.1 rest ∧
        (jobLinks.fifoRun (fun _ => {}) {} [.add 1, .add 2, .del, .add 3]).2.2 ++ rest =
          [] ++ FifoOp.adds [.add 1, .add 2, .del, .add 3] :=
  ⟨fifoQueue_empty _, by decide, by decide,
    FifoQueue.first_in_first_out (fifoQueue_empty _) (by decide) (by decide)⟩

-- The add macro does not clear `next`: a job added with a stale `next` brings the job it
-- points at into the fifo, and a later delete hands out a job that was never added.
example : (jobLinks.fifoRun (Function.update (fun _ => {}) 1 { next := some 5 }) {}
    [.add 1, .del, .del]).2.2 = [1, 5] := by decide

end Links

end GearmanServer
