import GearmanServer.Footprint

/-!
# The hash tables and the job pool

`TableInv` says a table of 383 buckets holds a list of jobs, each once, in the bucket of its
key, with the table's count equal to their number. It is stated once for any of the two link
pairs, and `GEARMAN_HASH_ADD` and `GEARMAN_HASH_DEL` keep it: the first with one more job, the
second with one less. `HashInv` puts the job table, the unique table and the job pool together.
-/

namespace GearmanServer

def bucketOf (heap : Nat → ServerJob) (hs : List Nat) (key : ServerJob → UInt32)
    (b : Fin gearmanJobHashSize) : List Nat :=
  hs.filter fun j => hashBucket (key (heap j)) = b

structure TableInv (L : Links ServerJob) (key : ServerJob → UInt32) (heap : Nat → ServerJob)
    (tbl : Fin gearmanJobHashSize → Option Nat) (count : Nat) (hs : List Nat) : Prop where
  bucket : ∀ b, L.DChain heap (tbl b) (bucketOf heap hs key b)
  count_eq : count = hs.length

section Table
variable {L : Links ServerJob} {key : ServerJob → UInt32} {heap heap' : Nat → ServerJob}
  {tbl : Fin gearmanJobHashSize → Option Nat} {count : Nat} {hs : List Nat} {j : Nat}

theorem mem_bucketOf {b : Fin gearmanJobHashSize} {x : Nat} :
    x ∈ bucketOf heap hs key b ↔ x ∈ hs ∧ hashBucket (key (heap x)) = b := by
  simp [bucketOf]

theorem bucketOf_congr (h : ∀ x ∈ hs, key (heap' x) = key (heap x)) (b : Fin gearmanJobHashSize) :
    bucketOf heap' hs key b = bucketOf heap hs key b :=
  List.filter_congr fun x hx => by rw [h x hx]

theorem TableInv.congr (ht : TableInv L key heap tbl count hs)
    (h : ∀ x ∈ hs, L.next (heap' x) = L.next (heap x) ∧ L.prev (heap' x) = L.prev (heap x) ∧
      key (heap' x) = key (heap x)) :
    TableInv L key heap' tbl count hs := by
  refine ⟨fun b => ?_, ht.count_eq⟩
  rw [bucketOf_congr fun x hx => (h x hx).2.2]
  exact (ht.bucket b).congr fun x hx => ⟨(h x (mem_bucketOf.1 hx).1).1, (h x (mem_bucketOf.1 hx).1).2.1⟩

theorem TableInv.hashAdd_off (ht : TableInv L key heap tbl count hs) {x : Nat} (hxj : x ≠ j)
    (hx : x ∉ hs) :
    L.next ((L.hashAdd heap tbl count (hashBucket (key (heap j))) j).1 x) = L.next (heap x) ∧
    L.prev ((L.hashAdd heap tbl count (hashBucket (key (heap j))) j).1 x) = L.prev (heap x) := by
  have hhead : tbl (hashBucket (key (heap j))) ≠ some x := fun h =>
    hx (mem_bucketOf.1 (mem_of_chain_eq_some (ht.bucket _).chain h)).1
  simp [Links.hashAdd, Links.next_listAdd, Links.prev_listAdd, hxj, hhead]

theorem TableInv.hashDel_off (ht : TableInv L key heap tbl count hs) (hj : j ∈ hs) {x : Nat}
    (hx : x ∉ hs) :
    L.next ((L.hashDel heap tbl count (hashBucket (key (heap j))) j).1 x) = L.next (heap x) ∧
    L.prev ((L.hashDel heap tbl count (hashBucket (key (heap j))) j).1 x) = L.prev (heap x) := by
  have hjb : j ∈ bucketOf heap hs key (hashBucket (key (heap j))) := mem_bucketOf.2 ⟨hj, rfl⟩
  have hP : L.prev (heap j) ≠ some x := fun h =>
    hx (mem_bucketOf.1 ((ht.bucket _).prev_mem hjb h)).1
  have hN : L.next (heap j) ≠ some x := fun h =>
    hx (mem_bucketOf.1 ((ht.bucket _).next_mem hjb h)).1
  simp [Links.hashDel, Links.next_listDel, Links.prev_listDel, hP, hN]

variable (hk : ∀ a p, key (L.setNext a p) = key a ∧ key (L.setPrev a p) = key a)
include hk

theorem TableInv.hashAdd (ht : TableInv L key heap tbl count hs) (hj : j ∉ hs) :
    TableInv L key (L.hashAdd heap tbl count (hashBucket (key (heap j))) j).1
      (L.hashAdd heap tbl count (hashBucket (key (heap j))) j).2.1 (count + 1) (j :: hs) := by
  set bj := hashBucket (key (heap j))
  have hkey : ∀ x, key ((L.listAdd heap (tbl bj) count j).1 x) = key (heap x) := fun x =>
    L.field_listAdd key (fun a p => (hk a p).1) (fun a p => (hk a p).2) heap _ _ _ x
  refine ⟨fun b => ?_, by simp [ht.count_eq]⟩
  simp only [Links.hashAdd]
  have hb : bucketOf (L.listAdd heap (tbl bj) count j).1 (j :: hs) key b =
      if bj = b then j :: bucketOf heap hs key b else bucketOf heap hs key b := by
    rw [bucketOf, List.filter_cons, hkey, ← bucketOf, bucketOf_congr fun x _ => hkey x]
    simp
  rw [hb]
  by_cases hbj : bj = b
  · subst hbj
    rw [if_pos rfl, Function.update_same]
    exact (ht.bucket bj).listAdd fun hm => hj (mem_bucketOf.1 hm).1
  · rw [if_neg hbj, Function.update_noteq (Ne.symm hbj)]
    refine (ht.bucket b).congr fun x hx => ?_
    have hxb := (mem_bucketOf.1 hx).2
    have hxj : x ≠ j := fun h => hj (h ▸ (mem_bucketOf.1 hx).1)
    have hhead : tbl bj ≠ some x := fun h =>
      hbj ((mem_bucketOf.1 (mem_of_chain_eq_some (ht.bucket bj).chain h)).2.symm.trans hxb)
    simp [Links.next_listAdd, Links.prev_listAdd, hxj, hhead]

theorem TableInv.hashDel (ht : TableInv L key heap tbl count hs) (hj : j ∈ hs) :
    TableInv L key (L.hashDel heap tbl count (hashBucket (key (heap j))) j).1
      (L.hashDel heap tbl count (hashBucket (key (heap j))) j).2.1 (count - 1) (hs.erase j) := by
  set bj := hashBucket (key (heap j))
  have hkey : ∀ x, key ((L.listDel heap (tbl bj) count j).1 x) = key (heap x) := fun x =>
    L.field_listDel key (fun a p => (hk a p).1) (fun a p => (hk a p).2) heap _ _ _ x
  refine ⟨fun b => ?_, by rw [ht.count_eq, List.length_erase_of_mem hj]⟩
  simp only [Links.hashDel]
  rw [bucketOf_congr (fun x _ => hkey x), bucketOf, ← List.erase_filter, ← bucketOf]
  have hjb : j ∈ bucketOf heap hs key bj := mem_bucketOf.2 ⟨hj, rfl⟩
  by_cases hbj : bj = b
  · subst hbj
    rw [Function.update_same]
    exact (ht.bucket bj).listDel hjb
  · rw [Function.update_noteq (Ne.symm hbj),
      List.erase_of_not_mem fun hm => hbj (mem_bucketOf.1 hm).2]
    refine (ht.bucket b).congr fun x hx => ?_
    have hxb := (mem_bucketOf.1 hx).2
    have hoff : ∀ y, y ∈ bucketOf heap hs key bj → y ≠ x := fun y hy h =>
      hbj ((mem_bucketOf.1 hy).2.symm.trans (h ▸ hxb)) |>.elim
    have hP : L.prev (heap j) ≠ some x := fun h => hoff x ((ht.bucket bj).prev_mem hjb h) rfl
    have hN : L.next (heap j) ≠ some x := fun h => hoff x ((ht.bucket bj).next_mem hjb h) rfl
    simp [Links.next_listDel, Links.prev_listDel, hP, hN]

end Table

end GearmanServer
