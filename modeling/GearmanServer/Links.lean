import GearmanServer.Basic
import Mathlib.Data.List.Nodup

/-!
# Intrusive lists: `GEARMAN_LIST_ADD`, `GEARMAN_LIST_DEL` and their hash forms

The macros of `common.h` thread a list through a `prev`/`next` pair of fields of the records
of a heap; `Links` names the pair. `Seg` is a run of `next` links from a head to a given
pointer, `Chain` a run ending in `NULL`, `Backlinked` the `prev` links along a run, and
`DList` a well-formed list of the macros' callers. The add and delete macros are modelled
statement by statement, each reading the heap as the previous statement left it.
-/

namespace GearmanServer

/-- The `__prefix ## prev` / `__prefix ## next` fields of one intrusive list. -/
structure Links (α : Type) where
  next : α → Option Nat
  prev : α → Option Nat
  setNext : α → Option Nat → α
  setPrev : α → Option Nat → α
  next_setNext : ∀ a p, next (setNext a p) = p
  prev_setNext : ∀ a p, prev (setNext a p) = prev a
  next_setPrev : ∀ a p, next (setPrev a p) = next a
  prev_setPrev : ∀ a p, prev (setPrev a p) = p

attribute [simp] Links.next_setNext Links.prev_setNext Links.next_setPrev Links.prev_setPrev

/-! ## Runs of links -/

def Seg (next : Nat → Option Nat) : Option Nat → List Nat → Option Nat → Prop
  | h, [], t => h = t
  | h, x :: xs, t => h = some x ∧ Seg next (next x) xs t

abbrev Chain (next : Nat → Option Nat) (h : Option Nat) (xs : List Nat) : Prop :=
  Seg next h xs none

def Backlinked (prev : Nat → Option Nat) : Option Nat → List Nat → Prop
  | _, [] => True
  | p, x :: xs => prev x = p ∧ Backlinked prev (some x) xs

def lastOr : Option Nat → List Nat → Option Nat
  | p, [] => p
  | _, x :: xs => lastOr (some x) xs

section Runs
variable {next next' prev prev' : Nat → Option Nat}

@[simp] theorem seg_nil {h t : Option Nat} : Seg next h [] t ↔ h = t := Iff.rfl

@[simp] theorem seg_cons {h t : Option Nat} {x : Nat} {xs : List Nat} :
    Seg next h (x :: xs) t ↔ h = some x ∧ Seg next (next x) xs t := Iff.rfl

@[simp] theorem backlinked_nil {p : Option Nat} : Backlinked prev p [] := trivial

@[simp] theorem backlinked_cons {p : Option Nat} {x : Nat} {xs : List Nat} :
    Backlinked prev p (x :: xs) ↔ prev x = p ∧ Backlinked prev (some x) xs := Iff.rfl

@[simp] theorem lastOr_nil (p : Option Nat) : lastOr p [] = p := rfl

@[simp] theorem lastOr_cons (p : Option Nat) (x : Nat) (xs : List Nat) :
    lastOr p (x :: xs) = lastOr (some x) xs := rfl

theorem seg_append {h t : Option Nat} {xs ys : List Nat} :
    Seg next h (xs ++ ys) t ↔ ∃ m, Seg next h xs m ∧ Seg next m ys t := by
  induction xs generalizing h with
  | nil => simp
  | cons x xs ih => simp [ih, and_assoc]

theorem backlinked_append {p : Option Nat} {xs ys : List Nat} :
    Backlinked prev p (xs ++ ys) ↔ Backlinked prev p xs ∧ Backlinked prev (lastOr p xs) ys := by
  induction xs generalizing p with
  | nil => simp
  | cons x xs ih => simp [ih, and_assoc]

theorem seg_congr {h t : Option Nat} {xs : List Nat} (hs : Seg next h xs t)
    (heq : ∀ x ∈ xs, next' x = next x) : Seg next' h xs t := by
  induction xs generalizing h with
  | nil => exact hs
  | cons x xs ih =>
    obtain ⟨rfl, hs⟩ := hs
    refine ⟨rfl, ?_⟩
    rw [heq x (List.mem_cons_self _ _)]
    exact ih hs fun y hy => heq y (List.mem_cons_of_mem _ hy)

theorem backlinked_congr {p : Option Nat} {xs : List Nat} (hb : Backlinked prev p xs)
    (heq : ∀ x ∈ xs, prev' x = prev x) : Backlinked prev' p xs := by
  induction xs generalizing p with
  | nil => trivial
  | cons x xs ih =>
    exact ⟨(heq x (List.mem_cons_self _ _)).trans hb.1,
      ih hb.2 fun y hy => heq y (List.mem_cons_of_mem _ hy)⟩

theorem chain_unique {h : Option Nat} {xs ys : List Nat} (hx : Chain next h xs)
    (hy : Chain next h ys) : xs = ys := by
  induction xs generalizing h ys with
  | nil =>
    cases ys with
    | nil => rfl
    | cons y ys => simp_all
  | cons x xs ih =>
    cases ys with
    | nil => simp_all
    | cons y ys =>
      obtain ⟨rfl, hx⟩ := hx
      obtain ⟨hxy, hy⟩ := hy
      cases hxy
      rw [ih hx hy]

theorem chain_none_iff {xs : List Nat} : Chain next none xs ↔ xs = [] := by
  cases xs <;> simp

theorem seg_head {h t : Option Nat} {x : Nat} {xs : List Nat} (hs : Seg next h (x :: xs) t) :
    h = some x := hs.1

theorem seg_ne_of_not_mem {h t : Option Nat} {xs : List Nat} {o : Nat}
    (hs : Seg next h xs t) (hne : xs ≠ []) (ho : o ∉ xs) : h ≠ some o := by
  cases xs with
  | nil => exact absurd rfl hne
  | cons x xs =>
    rw [hs.1]
    rintro ⟨⟩
    exact ho (List.mem_cons_self _ _)

theorem mem_of_chain_eq_some {h : Option Nat} {xs : List Nat} {y : Nat}
    (hs : Chain next h xs) (hy : h = some y) : y ∈ xs := by
  cases xs with
  | nil => simp_all
  | cons x xs => simp_all

theorem lastOr_concat (p : Option Nat) (xs : List Nat) (a : Nat) :
    lastOr p (xs ++ [a]) = some a := by
  induction xs generalizing p with
  | nil => rfl
  | cons x xs ih => exact ih _

theorem lastOr_of_ne_nil {xs : List Nat} (hxs : xs ≠ []) (p q : Option Nat) :
    lastOr p xs = lastOr q xs := by
  rcases List.eq_nil_or_concat xs with rfl | ⟨as, a, rfl⟩
  · exact absurd rfl hxs
  · rw [List.concat_eq_append, lastOr_concat, lastOr_concat]

theorem lastOr_cases (p : Option Nat) (xs : List Nat) :
    lastOr p xs = p ∨ ∃ x ∈ xs, lastOr p xs = some x := by
  induction xs generalizing p with
  | nil => exact .inl rfl
  | cons x xs ih =>
    rcases ih (some x) with h | ⟨y, hy, h⟩
    · exact .inr ⟨x, List.mem_cons_self _ _, h⟩
    · exact .inr ⟨y, List.mem_cons_of_mem _ hy, h⟩

theorem lastOr_ne_of_not_mem {p : Option Nat} {xs : List Nat} {y : Nat} (hp : p ≠ some y)
    (hy : y ∉ xs) : lastOr p xs ≠ some y := by
  rcases lastOr_cases p xs with h | ⟨x, hx, h⟩
  · rwa [h]
  · rw [h]; rintro ⟨⟩; exact hy hx

theorem chain_head_eq_none {h : Option Nat} {xs : List Nat} (hs : Chain next h xs) :
    h = none ↔ xs = [] := by
  cases xs with
  | nil => exact ⟨fun _ => rfl, fun _ => hs⟩
  | cons x xs => exact ⟨fun e => (by rw [hs.1] at e; cases e), fun e => by cases e⟩

theorem chain_head {h : Option Nat} {xs : List Nat} (hs : Chain next h xs) : h = xs.head? := by
  cases xs with
  | nil => exact hs
  | cons x xs => exact hs.1

theorem lastOr_none_eq_none {xs : List Nat} : lastOr none xs = none ↔ xs = [] := by
  rcases List.eq_nil_or_concat xs with rfl | ⟨as, a, rfl⟩
  · exact ⟨fun _ => rfl, fun _ => rfl⟩
  · rw [List.concat_eq_append, lastOr_concat]
    exact ⟨fun e => (by cases e), fun e => by simp at e⟩

theorem chain_last {h : Option Nat} {xs : List Nat} {e : Nat} (hs : Chain next h xs)
    (he : lastOr none xs = some e) : next e = none := by
  rcases List.eq_nil_or_concat xs with rfl | ⟨as, a, rfl⟩
  · cases he
  · rw [List.concat_eq_append] at hs he
    rw [lastOr_concat] at he
    cases he
    obtain ⟨m, -, hm⟩ := seg_append.1 hs
    exact hm.2

theorem chain_snoc {h : Option Nat} {xs : List Nat} {j : Nat} (hs : Chain next h xs)
    (hnd : xs.Nodup) (heq : ∀ x ∈ xs, lastOr none xs ≠ some x → next' x = next x)
    (hlast : ∀ e, lastOr none xs = some e → next' e = some j) (hj : next' j = none) :
    Chain next' (if xs = [] then some j else h) (xs ++ [j]) := by
  rcases List.eq_nil_or_concat xs with rfl | ⟨as, e, rfl⟩
  · exact ⟨rfl, hj⟩
  · rw [List.concat_eq_append] at *
    have he : lastOr none (as ++ [e]) = some e := lastOr_concat _ _ _
    have hea : e ∉ as := by simpa using (List.nodup_append.1 hnd).2.2
    obtain ⟨m, hsa, rfl, -⟩ := seg_append.1 hs
    rw [if_neg (by simp)]
    refine seg_append.2 ⟨some j, seg_append.2 ⟨some e, ?_, rfl, hlast e he⟩, rfl, hj⟩
    refine seg_congr hsa fun x hx => heq x (List.mem_append_left _ hx) ?_
    rw [he]
    rintro ⟨⟩
    exact hea hx

def chainFind (next : Nat → Option Nat) (p : Nat → Bool) : Nat → Option Nat → Option (Option Nat)
  | _, none => some none
  | 0, some _ => none
  | fuel + 1, some x => if p x then some (some x) else chainFind next p fuel (next x)

theorem chainFind_eq {p : Nat → Bool} {fuel : Nat} {h r : Option Nat} {xs : List Nat}
    (hs : Chain next h xs) (hr : chainFind next p fuel h = some r) : r = xs.find? p := by
  induction xs generalizing h fuel with
  | nil => cases hs; simpa [chainFind] using hr.symm
  | cons x xs ih =>
    obtain ⟨rfl, hs⟩ := hs
    cases fuel with
    | zero => simp [chainFind] at hr
    | succ fuel =>
      by_cases hp : p x
      · simp_all [chainFind]
      · simp only [chainFind, hp] at hr
        simpa [hp] using ih hs hr

theorem chainFind_of_le {p : Nat → Bool} {fuel : Nat} {h : Option Nat} {xs : List Nat}
    (hs : Chain next h xs) (hf : xs.length ≤ fuel) : chainFind next p fuel h = some (xs.find? p) := by
  induction xs generalizing h fuel with
  | nil => cases hs; cases fuel <;> rfl
  | cons x xs ih =>
    obtain ⟨rfl, hs⟩ := hs
    obtain ⟨fuel, rfl⟩ : ∃ n, fuel = n + 1 := ⟨fuel - 1, by simp at hf; omega⟩
    by_cases hp : p x
    · simp [chainFind, hp]
    · simpa [chainFind, hp] using ih hs (by simpa using hf)

theorem chainFind_det {p : Nat → Bool} {fuel fuel' : Nat} {h r r' : Option Nat}
    (hr : chainFind next p fuel h = some r) (hr' : chainFind next p fuel' h = some r') : r = r' := by
  induction fuel generalizing fuel' h with
  | zero =>
    cases h with
    | none => simp only [chainFind, Option.some.injEq] at hr hr'; rw [← hr, ← hr']
    | some x => simp [chainFind] at hr
  | succ fuel ih =>
    cases h with
    | none => simp only [chainFind, Option.some.injEq] at hr hr'; rw [← hr, ← hr']
    | some x =>
      cases fuel' with
      | zero => simp [chainFind] at hr'
      | succ fuel' =>
        by_cases hp : p x
        · simp only [chainFind, hp, if_true, Option.some.injEq] at hr hr'
          rw [← hr, ← hr']
        · simp only [chainFind, hp, Bool.false_eq_true, if_false] at hr hr'
          exact ih hr hr'

theorem find?_congr_of_mem {α : Type} {p q : α → Bool} :
    ∀ {l : List α}, (∀ x ∈ l, p x = q x) → l.find? p = l.find? q
  | [], _ => rfl
  | a :: l, h => by
    rw [List.find?_cons, List.find?_cons, h a (List.mem_cons_self _ _),
      find?_congr_of_mem fun x hx => h x (List.mem_cons_of_mem _ hx)]

theorem takeWhile_congr_of_mem {α : Type} {p q : α → Bool} :
    ∀ {l : List α}, (∀ x ∈ l, p x = q x) → l.takeWhile p = l.takeWhile q
  | [], _ => rfl
  | a :: l, h => by
    rw [List.takeWhile_cons, List.takeWhile_cons, h a (List.mem_cons_self _ _),
      takeWhile_congr_of_mem fun x hx => h x (List.mem_cons_of_mem _ hx)]

end Runs

/-! ## The macros -/

namespace Links
variable {α : Type} (L : Links α)

def writeNext (heap : Nat → α) (x : Nat) (p : Option Nat) : Nat → α :=
  Function.update heap x (L.setNext (heap x) p)

def writePrev (heap : Nat → α) (x : Nat) (p : Option Nat) : Nat → α :=
  Function.update heap x (L.setPrev (heap x) p)

def writeNextIf (heap : Nat → α) : Option Nat → Option Nat → Nat → α
  | some x, p => L.writeNext heap x p
  | none, _ => heap

def writePrevIf (heap : Nat → α) : Option Nat → Option Nat → Nat → α
  | some x, p => L.writePrev heap x p
  | none, _ => heap

/-- `GEARMAN_LIST_ADD(__list, __obj, __prefix)`, returning the heap, `__list ## _list` and
`__list ## _count`. -/
def listAdd (heap : Nat → α) (list : Option Nat) (count : Nat) (obj : Nat) :
    (Nat → α) × Option Nat × Nat :=
  let heap := L.writePrevIf heap list (some obj)
  let heap := L.writeNext heap obj list
  let heap := L.writePrev heap obj none
  (heap, some obj, count + 1)

/-- `GEARMAN_LIST_DEL(__list, __obj, __prefix)`. -/
def listDel (heap : Nat → α) (list : Option Nat) (count : Nat) (obj : Nat) :
    (Nat → α) × Option Nat × Nat :=
  let list := if list = some obj then L.next (heap obj) else list
  let heap := L.writeNextIf heap (L.prev (heap obj)) (L.next (heap obj))
  let heap := L.writePrevIf heap (L.next (heap obj)) (L.prev (heap obj))
  (heap, list, count - 1)

/-- `GEARMAN_HASH_ADD(__hash, __key, __obj, __prefix)`: `GEARMAN_LIST_ADD` on bucket `key`. -/
def hashAdd {n : Nat} (heap : Nat → α) (hash : Fin n → Option Nat) (count : Nat) (key : Fin n)
    (obj : Nat) : (Nat → α) × (Fin n → Option Nat) × Nat :=
  let r := L.listAdd heap (hash key) count obj
  (r.1, Function.update hash key r.2.1, r.2.2)

/-- `GEARMAN_HASH_DEL(__hash, __key, __obj, __prefix)`: `GEARMAN_LIST_DEL` on bucket `key`. -/
def hashDel {n : Nat} (heap : Nat → α) (hash : Fin n → Option Nat) (count : Nat) (key : Fin n)
    (obj : Nat) : (Nat → α) × (Fin n → Option Nat) × Nat :=
  let r := L.listDel heap (hash key) count obj
  (r.1, Function.update hash key r.2.1, r.2.2)

structure DChain (heap : Nat → α) (list : Option Nat) (xs : List Nat) : Prop where
  chain : Chain (fun x => L.next (heap x)) list xs
  back : Backlinked (fun x => L.prev (heap x)) none xs
  nodup : xs.Nodup

structure DList (heap : Nat → α) (list : Option Nat) (count : Nat) (xs : List Nat)
    extends L.DChain heap list xs : Prop where
  count_eq : count = xs.length

variable {L}

@[simp] theorem next_writeNext (heap : Nat → α) (x : Nat) (p : Option Nat) (y : Nat) :
    L.next (L.writeNext heap x p y) = if y = x then p else L.next (heap y) := by
  by_cases h : y = x <;> simp [writeNext, Function.update_apply, h]

@[simp] theorem prev_writeNext (heap : Nat → α) (x : Nat) (p : Option Nat) (y : Nat) :
    L.prev (L.writeNext heap x p y) = L.prev (heap y) := by
  by_cases h : y = x <;> simp [writeNext, Function.update_apply, h]

@[simp] theorem next_writePrev (heap : Nat → α) (x : Nat) (p : Option Nat) (y : Nat) :
    L.next (L.writePrev heap x p y) = L.next (heap y) := by
  by_cases h : y = x <;> simp [writePrev, Function.update_apply, h]

@[simp] theorem prev_writePrev (heap : Nat → α) (x : Nat) (p : Option Nat) (y : Nat) :
    L.prev (L.writePrev heap x p y) = if y = x then p else L.prev (heap y) := by
  by_cases h : y = x <;> simp [writePrev, Function.update_apply, h]

@[simp] theorem next_writeNextIf (heap : Nat → α) (x p : Option Nat) (y : Nat) :
    L.next (L.writeNextIf heap x p y) = if x = some y then p else L.next (heap y) := by
  cases x <;> simp [writeNextIf, eq_comm]

@[simp] theorem prev_writeNextIf (heap : Nat → α) (x p : Option Nat) (y : Nat) :
    L.prev (L.writeNextIf heap x p y) = L.prev (heap y) := by
  cases x <;> simp [writeNextIf]

@[simp] theorem next_writePrevIf (heap : Nat → α) (x p : Option Nat) (y : Nat) :
    L.next (L.writePrevIf heap x p y) = L.next (heap y) := by
  cases x <;> simp [writePrevIf]

@[simp] theorem prev_writePrevIf (heap : Nat → α) (x p : Option Nat) (y : Nat) :
    L.prev (L.writePrevIf heap x p y) = if x = some y then p else L.prev (heap y) := by
  cases x <;> simp [writePrevIf, eq_comm]

section Frame
variable {β : Type} (f : α → β)

theorem field_writeNextIf (hn : ∀ a p, f (L.setNext a p) = f a) (heap : Nat → α)
    (x p : Option Nat) (y : Nat) : f (L.writeNextIf heap x p y) = f (heap y) := by
  rcases x with _ | x
  · rfl
  · by_cases h : y = x <;> simp [writeNextIf, writeNext, Function.update_apply, h, hn]

theorem field_writePrevIf (hp : ∀ a p, f (L.setPrev a p) = f a) (heap : Nat → α)
    (x p : Option Nat) (y : Nat) : f (L.writePrevIf heap x p y) = f (heap y) := by
  rcases x with _ | x
  · rfl
  · by_cases h : y = x <;> simp [writePrevIf, writePrev, Function.update_apply, h, hp]

variable (hn : ∀ a p, f (L.setNext a p) = f a) (hp : ∀ a p, f (L.setPrev a p) = f a)
include hn hp

theorem field_listAdd (heap : Nat → α) (list : Option Nat) (count obj y : Nat) :
    f ((L.listAdd heap list count obj).1 y) = f (heap y) := by
  have h1 := field_writeNextIf f hn
  have h2 := field_writePrevIf f hp
  simpa only [writeNextIf, writePrevIf, listAdd] using
    (h2 _ (some obj) none y).trans ((h1 _ (some obj) list y).trans (h2 heap list _ y))

theorem field_listDel (heap : Nat → α) (list : Option Nat) (count obj y : Nat) :
    f ((L.listDel heap list count obj).1 y) = f (heap y) := by
  simp only [listDel, field_writePrevIf f hp, field_writeNextIf f hn]

theorem field_hashAdd {n : Nat} {heap : Nat → α} {hash : Fin n → Option Nat} {count : Nat}
    {key : Fin n} {obj : Nat} (y : Nat) :
    f ((L.hashAdd heap hash count key obj).1 y) = f (heap y) :=
  L.field_listAdd f hn hp heap (hash key) count obj y

theorem field_hashDel {n : Nat} {heap : Nat → α} {hash : Fin n → Option Nat} {count : Nat}
    {key : Fin n} {obj : Nat} (y : Nat) :
    f ((L.hashDel heap hash count key obj).1 y) = f (heap y) :=
  L.field_listDel f hn hp heap (hash key) count obj y

end Frame

section Map
variable (φ : Nat → α → α)

theorem writeNext_map (hn : ∀ x a p, φ x (L.setNext a p) = L.setNext (φ x a) p)
    (heap : Nat → α) (x : Nat) (p : Option Nat) :
    L.writeNext (fun y => φ y (heap y)) x p = fun y => φ y (L.writeNext heap x p y) := by
  funext y
  by_cases h : y = x
  · subst h; simp [writeNext, hn]
  · simp [writeNext, Function.update_noteq h]

theorem writePrev_map (hp : ∀ x a p, φ x (L.setPrev a p) = L.setPrev (φ x a) p)
    (heap : Nat → α) (x : Nat) (p : Option Nat) :
    L.writePrev (fun y => φ y (heap y)) x p = fun y => φ y (L.writePrev heap x p y) := by
  funext y
  by_cases h : y = x
  · subst h; simp [writePrev, hp]
  · simp [writePrev, Function.update_noteq h]

theorem writeNextIf_map (hn : ∀ x a p, φ x (L.setNext a p) = L.setNext (φ x a) p)
    (heap : Nat → α) (x p : Option Nat) :
    L.writeNextIf (fun y => φ y (heap y)) x p = fun y => φ y (L.writeNextIf heap x p y) := by
  cases x with
  | none => rfl
  | some x => exact writeNext_map φ hn heap x p

theorem writePrevIf_map (hp : ∀ x a p, φ x (L.setPrev a p) = L.setPrev (φ x a) p)
    (heap : Nat → α) (x p : Option Nat) :
    L.writePrevIf (fun y => φ y (heap y)) x p = fun y => φ y (L.writePrevIf heap x p y) := by
  cases x with
  | none => rfl
  | some x => exact writePrev_map φ hp heap x p

variable (hn : ∀ x a p, φ x (L.setNext a p) = L.setNext (φ x a) p)
  (hp : ∀ x a p, φ x (L.setPrev a p) = L.setPrev (φ x a) p)
include hn hp

theorem listAdd_map (heap : Nat → α) (list : Option Nat) (count obj : Nat) :
    L.listAdd (fun y => φ y (heap y)) list count obj =
      (fun y => φ y ((L.listAdd heap list count obj).1 y), some obj, count + 1) := by
  simp only [listAdd, writePrevIf_map φ hp, writeNext_map φ hn, writePrev_map φ hp]

variable (hnext : ∀ x a, L.next (φ x a) = L.next a) (hprev : ∀ x a, L.prev (φ x a) = L.prev a)
include hnext hprev

theorem listDel_map (heap : Nat → α) (list : Option Nat) (count obj : Nat) :
    L.listDel (fun y => φ y (heap y)) list count obj =
      (fun y => φ y ((L.listDel heap list count obj).1 y),
        (L.listDel heap list count obj).2) := by
  simp only [listDel, hnext, hprev, writeNextIf_map φ hn, writePrevIf_map φ hp]

theorem hashDel_map {n : Nat} (heap : Nat → α) (hash : Fin n → Option Nat) (count : Nat)
    (key : Fin n) (obj : Nat) :
    L.hashDel (fun y => φ y (heap y)) hash count key obj =
      (fun y => φ y ((L.hashDel heap hash count key obj).1 y),
        (L.hashDel heap hash count key obj).2) := by
  simp only [hashDel, listDel_map φ hn hp hnext hprev]

end Map

/-! ## What the macros do to the links -/

variable {heap : Nat → α} {list : Option Nat} {count : Nat} {xs : List Nat} {obj : Nat}

theorem next_listAdd (y : Nat) :
    L.next ((L.listAdd heap list count obj).1 y) = if y = obj then list else L.next (heap y) := by
  simp [listAdd]

theorem prev_listAdd (y : Nat) :
    L.prev ((L.listAdd heap list count obj).1 y) =
      if y = obj then none else if list = some y then some obj else L.prev (heap y) := by
  simp [listAdd]

theorem next_listDel (y : Nat) :
    L.next ((L.listDel heap list count obj).1 y) =
      if L.prev (heap obj) = some y then L.next (heap obj) else L.next (heap y) := by
  simp [listDel]

theorem prev_listDel (y : Nat) :
    L.prev ((L.listDel heap list count obj).1 y) =
      if L.next (heap obj) = some y then L.prev (heap obj) else L.prev (heap y) := by
  simp only [listDel, prev_writePrevIf, prev_writeNextIf, next_writeNextIf, ite_self]

@[simp] theorem listAdd_list : (L.listAdd heap list count obj).2.1 = some obj := rfl

@[simp] theorem listAdd_count : (L.listAdd heap list count obj).2.2 = count + 1 := rfl

theorem listDel_list :
    (L.listDel heap list count obj).2.1 = if list = some obj then L.next (heap obj) else list := rfl

@[simp] theorem listDel_count : (L.listDel heap list count obj).2.2 = count - 1 := rfl

theorem DChain.congr {heap' : Nat → α} (hd : L.DChain heap list xs)
    (h : ∀ x ∈ xs, L.next (heap' x) = L.next (heap x) ∧ L.prev (heap' x) = L.prev (heap x)) :
    L.DChain heap' list xs :=
  ⟨seg_congr hd.chain fun x hx => (h x hx).1, backlinked_congr hd.back fun x hx => (h x hx).2,
    hd.nodup⟩

theorem DChain.listAdd (hd : L.DChain heap list xs) (hobj : obj ∉ xs) :
    L.DChain (L.listAdd heap list count obj).1 (some obj) (obj :: xs) := by
  have hne : ∀ x ∈ xs, x ≠ obj := fun x hx h => hobj (h ▸ hx)
  refine ⟨⟨rfl, ?_⟩, ⟨by simp [prev_listAdd], ?_⟩, List.nodup_cons.2 ⟨hobj, hd.nodup⟩⟩
  · simp only [next_listAdd, if_pos rfl]
    exact seg_congr hd.chain fun x hx => by simp [next_listAdd, hne x hx]
  · cases xs with
    | nil => trivial
    | cons y ys =>
      have hl : list = some y := hd.chain.1
      have hy : y ∉ ys := (List.nodup_cons.1 hd.nodup).1
      refine ⟨by simp [prev_listAdd, hne y (List.mem_cons_self _ _), hl], ?_⟩
      refine backlinked_congr hd.back.2 fun x hx => ?_
      have hxy : x ≠ y := fun h => hy (h ▸ hx)
      simp [prev_listAdd, hne x (List.mem_cons_of_mem _ hx), hl, Ne.symm hxy]

theorem DChain.listDel (hd : L.DChain heap list xs) (hobj : obj ∈ xs) :
    L.DChain (L.listDel heap list count obj).1 (L.listDel heap list count obj).2.1
      (xs.erase obj) := by
  obtain ⟨as, bs, rfl⟩ := List.append_of_mem hobj
  have hnd := hd.nodup
  rw [List.nodup_append] at hnd
  obtain ⟨hna, hnb, hdisj⟩ := hnd
  have hoa : obj ∉ as := fun h => hdisj h (List.mem_cons_self _ _)
  have hob : obj ∉ bs := (List.nodup_cons.1 hnb).1
  have hab : ∀ a ∈ as, a ∉ bs := fun a ha hb => hdisj ha (List.mem_cons_of_mem _ hb)
  rw [List.erase_append_right _ hoa, List.erase_cons_head]
  obtain ⟨m, hsa, hm, hsb⟩ := seg_append.1 hd.chain
  obtain ⟨hba, hbo, hbb⟩ := backlinked_append.1 hd.back
  have hP : L.prev (heap obj) = lastOr none as := hbo
  have hN : Chain (fun x => L.next (heap x)) (L.next (heap obj)) bs := hsb
  have hnext : ∀ y, L.next ((L.listDel heap list count obj).1 y) =
      if lastOr none as = some y then L.next (heap obj) else L.next (heap y) := by
    intro y; rw [next_listDel, hP]
  have hprev : ∀ y, L.prev ((L.listDel heap list count obj).1 y) =
      if L.next (heap obj) = some y then lastOr none as else L.prev (heap y) := by
    intro y; rw [prev_listDel, hP]
  refine ⟨?_, ?_, List.nodup_append.2 ⟨hna, (List.nodup_cons.1 hnb).2,
    fun a ha hb' => hab a ha hb'⟩⟩
  · rw [listDel_list]
    rcases List.eq_nil_or_concat as with rfl | ⟨as', a, rfl⟩
    · rw [if_pos (hsa.trans hm)]
      exact seg_congr hsb fun y _ => by simp [hnext]
    · rw [List.concat_eq_append] at *
      have hl : list ≠ some obj := seg_ne_of_not_mem hsa (by simp) hoa
      rw [if_neg hl]
      obtain ⟨m', hs', hm'⟩ := seg_append.1 hsa
      obtain ⟨rfl, hma⟩ := hm'
      have hna' : a ∉ as' := by simpa using (List.nodup_append.1 hna).2.2
      refine seg_append.2 ⟨L.next (heap obj), seg_append.2 ⟨some a, ?_, ?_⟩, ?_⟩
      · refine seg_congr hs' fun y hy => ?_
        have : y ≠ a := fun h => hna' (h ▸ hy)
        simp [hnext, lastOr_concat, Ne.symm this]
      · simp [hnext, lastOr_concat]
      · refine seg_congr hsb fun y hy => ?_
        have : y ≠ a := fun h => hab a (by simp) (h ▸ hy)
        simp [hnext, lastOr_concat, Ne.symm this]
  · refine backlinked_append.2 ⟨backlinked_congr hba fun y hy => ?_, ?_⟩
    · have : L.next (heap obj) ≠ some y := fun h => hab y hy (mem_of_chain_eq_some hsb h)
      simp [hprev, this]
    · cases bs with
      | nil => trivial
      | cons b bs' =>
        have hb : L.next (heap obj) = some b := hsb.1
        refine ⟨by simp [hprev, hb], backlinked_congr hbb.2 fun y hy => ?_⟩
        have : b ≠ y := fun h => (List.nodup_cons.1 hnb).2 |> fun h' =>
          (List.nodup_cons.1 h').1 (h ▸ hy)
        simp [hprev, hb, this]

theorem DList.congr {heap' : Nat → α} (hd : L.DList heap list count xs)
    (h : ∀ x ∈ xs, L.next (heap' x) = L.next (heap x) ∧ L.prev (heap' x) = L.prev (heap x)) :
    L.DList heap' list count xs :=
  ⟨hd.toDChain.congr h, hd.count_eq⟩

theorem DList.listAdd (hd : L.DList heap list count xs) (hobj : obj ∉ xs) :
    L.DList (L.listAdd heap list count obj).1 (some obj) (count + 1) (obj :: xs) :=
  ⟨hd.toDChain.listAdd hobj, by simp [hd.count_eq]⟩

theorem DList.listDel (hd : L.DList heap list count xs) (hobj : obj ∈ xs) :
    L.DList (L.listDel heap list count obj).1 (L.listDel heap list count obj).2.1 (count - 1)
      (xs.erase obj) :=
  ⟨hd.toDChain.listDel hobj, by
    rw [hd.count_eq, List.length_erase_of_mem hobj]⟩

theorem DChain.listAdd_frame (hd : L.DChain heap list xs) {y : Nat} (hy : y ∉ xs)
    (hyo : y ≠ obj) :
    L.next ((L.listAdd heap list count obj).1 y) = L.next (heap y) ∧
      L.prev ((L.listAdd heap list count obj).1 y) = L.prev (heap y) := by
  have hl : list ≠ some y := fun h => hy (mem_of_chain_eq_some hd.chain h)
  rw [next_listAdd, prev_listAdd, if_neg hyo, if_neg hyo, if_neg hl]
  exact ⟨rfl, rfl⟩

theorem DChain.next_mem (hd : L.DChain heap list xs) {x y : Nat} (hx : x ∈ xs)
    (hy : L.next (heap x) = some y) : y ∈ xs := by
  obtain ⟨as, bs, rfl⟩ := List.append_of_mem hx
  obtain ⟨m, -, rfl, hsb⟩ := seg_append.1 hd.chain
  exact List.mem_append_right _ (List.mem_cons_of_mem _ (mem_of_chain_eq_some hsb hy))

theorem DChain.prev_mem (hd : L.DChain heap list xs) {x y : Nat} (hx : x ∈ xs)
    (hy : L.prev (heap x) = some y) : y ∈ xs := by
  obtain ⟨as, bs, rfl⟩ := List.append_of_mem hx
  have hP : L.prev (heap x) = lastOr none as := (backlinked_append.1 hd.back).2.1
  rcases lastOr_cases none as with h | ⟨z, hz, h⟩
  · rw [hP, h] at hy; cases hy
  · rw [hP, h] at hy; cases hy; exact List.mem_append_left _ hz

theorem DChain.listDel_frame (hd : L.DChain heap list xs) (hobj : obj ∈ xs) {y : Nat}
    (hy : y ∉ xs) :
    L.next ((L.listDel heap list count obj).1 y) = L.next (heap y) ∧
      L.prev ((L.listDel heap list count obj).1 y) = L.prev (heap y) := by
  have hP : L.prev (heap obj) ≠ some y := fun h => hy (hd.prev_mem hobj h)
  have hN : L.next (heap obj) ≠ some y := fun h => hy (hd.next_mem hobj h)
  rw [next_listDel, prev_listDel, if_neg hP, if_neg hN]
  exact ⟨rfl, rfl⟩

theorem DChain.listDel_listAdd (hd : L.DChain heap list xs) (count : Nat) {y : Nat}
    (hy : y ≠ obj) :
    (L.listDel (L.listAdd heap list count obj).1 (some obj) (count + 1) obj).2.1 = list ∧
    L.next ((L.listDel (L.listAdd heap list count obj).1 (some obj) (count + 1) obj).1 y) =
      L.next (heap y) ∧
    L.prev ((L.listDel (L.listAdd heap list count obj).1 (some obj) (count + 1) obj).1 y) =
      L.prev (heap y) := by
  refine ⟨by simp [listDel_list, next_listAdd], by simp [next_listDel, prev_listAdd,
    next_listAdd, hy], ?_⟩
  simp only [prev_listDel, next_listAdd, prev_listAdd, if_true, if_neg hy]
  split_ifs with hl
  · -- the old head: its `prev` was `NULL`
    cases xs with
    | nil => cases hd.chain.symm.trans hl
    | cons x xs =>
      obtain ⟨hx, -⟩ := hd.chain
      cases hx.symm.trans hl
      exact hd.back.1.symm
  · rfl

/-! ## The hash forms on one bucket -/

section Hash
variable {n : Nat} {hash : Fin n → Option Nat} {key k : Fin n} {ys : List Nat}

@[simp] theorem hashAdd_count : (L.hashAdd heap hash count key obj).2.2 = count + 1 := rfl

@[simp] theorem hashDel_count : (L.hashDel heap hash count key obj).2.2 = count - 1 := rfl

theorem hashAdd_bucket_ne (hk : k ≠ key) : (L.hashAdd heap hash count key obj).2.1 k = hash k :=
  Function.update_noteq hk _ _

theorem hashDel_bucket_ne (hk : k ≠ key) : (L.hashDel heap hash count key obj).2.1 k = hash k :=
  Function.update_noteq hk _ _

theorem DChain.hashAdd (hd : L.DChain heap (hash key) xs) (hobj : obj ∉ xs) :
    L.DChain (L.hashAdd heap hash count key obj).1 ((L.hashAdd heap hash count key obj).2.1 key)
      (obj :: xs) := by
  simp only [Links.hashAdd, Function.update_same]
  exact hd.listAdd hobj

theorem DChain.hashDel (hd : L.DChain heap (hash key) xs) (hobj : obj ∈ xs) :
    L.DChain (L.hashDel heap hash count key obj).1 ((L.hashDel heap hash count key obj).2.1 key)
      (xs.erase obj) := by
  simp only [Links.hashDel, Function.update_same]
  exact hd.listDel hobj

theorem DChain.hashAdd_other (hd : L.DChain heap (hash key) xs) (ho : L.DChain heap (hash k) ys)
    (hk : k ≠ key) (hy : ∀ y ∈ ys, y ∉ xs ∧ y ≠ obj) :
    L.DChain (L.hashAdd heap hash count key obj).1 ((L.hashAdd heap hash count key obj).2.1 k)
      ys := by
  rw [hashAdd_bucket_ne hk]
  show L.DChain (L.listAdd heap (hash key) count obj).1 (hash k) ys
  exact ho.congr fun y h => hd.listAdd_frame (hy y h).1 (hy y h).2

theorem DChain.hashDel_other (hd : L.DChain heap (hash key) xs) (hobj : obj ∈ xs)
    (ho : L.DChain heap (hash k) ys) (hk : k ≠ key) (hy : ∀ y ∈ ys, y ∉ xs) :
    L.DChain (L.hashDel heap hash count key obj).1 ((L.hashDel heap hash count key obj).2.1 k)
      ys := by
  rw [hashDel_bucket_ne hk]
  show L.DChain (L.listDel heap (hash key) count obj).1 (hash k) ys
  exact ho.congr fun y h => hd.listDel_frame hobj (hy y h)

end Hash

end Links

end GearmanServer
