import GearmanServer.Basic

/-!
# A connection's libevent registration

`gearmand_con_watch` turns the `POLLIN`/`POLLOUT` interest of libgearman into
`EV_READ`/`EV_WRITE` and registers the connection's `struct event` again when that changed;
`_con_ready` turns the events libevent reports back into `revents`. Of libevent the model keeps
what the code relies on: `event_del` leaves the event not pending and returns 0 (the event has a
base), `event_set` must not be given a pending event (undefined behaviour, `none` here), and
`event_add` makes it pending or fails, an input of the call. `assert(event_del(...) == 0)`
deletes only in a build without `NDEBUG`.

From the `memset` of `gearmand_con_create`, every run of calls that asks for `POLLIN` or
`POLLOUT` and whose `event_add`s succeed keeps libevent watching exactly what `last_events`
says, and the event calls of `gearmand_con_free` then leave the event not pending.
-/

namespace GearmanServer

/-- `POLLIN` and `POLLOUT` of `<poll.h>`, `EV_READ`, `EV_WRITE` and `EV_PERSIST` of libevent. -/
abbrev pollIn : Nat := 0x001
abbrev pollOut : Nat := 0x004
abbrev evRead : Nat := 0x02
abbrev evWrite : Nat := 0x04
abbrev evPersist : Nat := 0x10

/-- `dcon->last_events`, and libevent's record of `dcon->event`: the events `event_set` gave it
and whether it is pending. The `memset` of `gearmand_con_create` leaves all three zero. -/
structure ConEvent where
  lastEvents : Nat := 0
  events : Nat := 0
  pending : Bool := false
  deriving DecidableEq, Repr

namespace ConEvent

def eventDel (e : ConEvent) : ConEvent := { e with pending := false }

def assertDel (ndebug : Bool) (e : ConEvent) : ConEvent := if ndebug then e else e.eventDel

def eventSet (e : ConEvent) (events : Nat) : Option ConEvent :=
  if e.pending then none else some { e with events := events }

def eventAdd (e : ConEvent) : ConEvent := { e with pending := true }

end ConEvent

/-- Lines 180..183 of `gearmand_con_watch`: `set_events`. -/
def watchEvents (events : Nat) : Nat :=
  let setEvents := 0
  let setEvents := if events &&& pollIn ≠ 0 then setEvents ||| evRead else setEvents
  if events &&& pollOut ≠ 0 then setEvents ||| evWrite else setEvents

/-- `gearmand_con_watch` on a connection's event, `added` being whether `event_add` succeeds:
the return code and the event after it. -/
def gearmandConWatch (ndebug added : Bool) (e : ConEvent) (events : Nat) :
    Option (GearmanReturn × ConEvent) :=
  let setEvents := watchEvents events
  if e.lastEvents ≠ setEvents then
    let e := if e.lastEvents ≠ 0 then e.assertDel ndebug else e
    (e.eventSet (setEvents ||| evPersist)).map fun e =>
      if added then (.success, { e.eventAdd with lastEvents := setEvents }) else (.event, e)
  else some (.success, e)

/-- `_con_ready`: the `revents` it hands to `gearman_con_set_revents` for the events libevent
reports. -/
def conReady (events : Nat) : Nat :=
  let revents := 0
  let revents := if events &&& evRead ≠ 0 then revents ||| pollIn else revents
  if events &&& evWrite ≠ 0 then revents ||| pollOut else revents

/-- Lines 122..128 of `gearmand_con_free`: delete, `event_set` for `EV_READ`, add (its result
is not read) and delete again, around a libevent bug. -/
def conFreeEvent (ndebug added : Bool) (e : ConEvent) : Option ConEvent :=
  ((e.assertDel ndebug).eventSet evRead).map fun e =>
    (if added then e.eventAdd else e).assertDel ndebug

def watchRun (ndebug : Bool) (e : ConEvent) : List (Nat × Bool) →
    Option (List GearmanReturn × ConEvent)
  | [] => some ([], e)
  | (events, added) :: calls => (gearmandConWatch ndebug added e events).bind fun (r, e) =>
    (watchRun ndebug e calls).map fun (rs, e) => (r :: rs, e)

/-! ## Flags -/

theorem watchEvents_ne_zero {events : Nat} :
    watchEvents events ≠ 0 ↔ events &&& pollIn ≠ 0 ∨ events &&& pollOut ≠ 0 := by
  unfold watchEvents
  split_ifs <;> simp_all

theorem conReady_watchEvents (events : Nat) :
    conReady (watchEvents events ||| evPersist) =
      (if events &&& pollIn ≠ 0 then pollIn else 0) ||| (if events &&& pollOut ≠ 0 then pollOut else 0) := by
  unfold watchEvents
  split_ifs <;> rfl

/-! ## Runs of `gearmand_con_watch` -/

namespace ConEvent

structure Registered (e : ConEvent) : Prop where
  pending : e.pending = (e.lastEvents != 0)
  events : e.lastEvents ≠ 0 → e.events = e.lastEvents ||| evPersist

theorem registered_memset : ({} : ConEvent).Registered := ⟨rfl, fun h => absurd rfl h⟩

theorem Registered.watch {e : ConEvent} (h : e.Registered) {events : Nat}
    (hev : watchEvents events ≠ 0) :
    ∃ e', gearmandConWatch false true e events = some (.success, e') ∧ e'.Registered ∧
      e'.lastEvents = watchEvents events := by
  unfold gearmandConWatch
  dsimp only
  split
  · rename_i hne
    have hdel : (if e.lastEvents ≠ 0 then e.assertDel false else e).pending = false := by
      split
      · rfl
      · rename_i h0; rw [h.pending, not_not.1 h0]; rfl
    refine ⟨_, by rw [eventSet, if_neg (by rw [hdel]; decide)]; rfl,
      ⟨by simpa [eventAdd] using hev, fun _ => rfl⟩, rfl⟩
  · rename_i heq
    exact ⟨e, rfl, h, not_not.1 heq⟩

theorem Registered.run {e : ConEvent} (h : e.Registered) {calls : List (Nat × Bool)}
    (hc : ∀ c ∈ calls, watchEvents c.1 ≠ 0 ∧ c.2 = true) :
    ∃ e', watchRun false e calls = some (calls.map fun _ => .success, e') ∧ e'.Registered ∧
      ∀ c ∈ calls.getLast?, e'.lastEvents = watchEvents c.1 := by
  induction calls generalizing e with
  | nil => exact ⟨e, rfl, h, fun _ hc => by cases hc⟩
  | cons c calls ih =>
    obtain ⟨events, added⟩ := c
    obtain ⟨hev, rfl⟩ := hc _ (List.mem_cons_self _ _)
    obtain ⟨e₁, h₁, hr₁, hl₁⟩ := h.watch hev
    obtain ⟨e', h', hr', hl'⟩ := ih hr₁ fun c hc' => hc c (List.mem_cons_of_mem _ hc')
    refine ⟨e', by simp only [watchRun, h₁, h', Option.some_bind, Option.map_some', List.map_cons],
      hr', fun c' hc' => ?_⟩
    cases calls with
    | nil =>
      cases h'
      obtain rfl : c' = (events, true) := by simpa using hc'.symm
      exact hl₁
    | cons c₂ calls => exact hl' c' (by simpa using hc')

theorem conFreeEvent_not_pending (e : ConEvent) (added : Bool) :
    ∃ e', conFreeEvent false added e = some e' ∧ e'.pending = false :=
  ⟨_, rfl, rfl⟩

theorem watchRun_registered {calls : List (Nat × Bool)}
    (hc : ∀ c ∈ calls, watchEvents c.1 ≠ 0 ∧ c.2 = true) :
    ∃ e, watchRun false {} calls = some (calls.map fun _ => .success, e) ∧ e.Registered ∧
      (∀ c ∈ calls.getLast?, e.pending = true ∧ e.events = watchEvents c.1 ||| evPersist) ∧
      ∀ added, ∃ e', conFreeEvent false added e = some e' ∧ e'.pending = false := by
  obtain ⟨e, he, hr, hl⟩ := registered_memset.run hc
  refine ⟨e, he, hr, fun c hc' => ?_, conFreeEvent_not_pending e⟩
  have hne : e.lastEvents ≠ 0 := by
    rw [hl c hc']
    exact (hc c (List.mem_of_getLast?_eq_some hc')).1
  exact ⟨by rw [hr.pending]; simpa using hne, by rw [hr.events hne, hl c hc']⟩

theorem watchRun_registered_three_calls :
    (∀ c ∈ [(pollIn, true), (pollIn ||| pollOut, true), (pollOut, true)],
      watchEvents c.1 ≠ 0 ∧ c.2 = true) ∧
    ∃ e, watchRun false {} [(pollIn, true), (pollIn ||| pollOut, true), (pollOut, true)] =
        some ([.success, .success, .success], e) ∧ e.Registered ∧
      (∀ c ∈ [(pollIn, true), (pollIn ||| pollOut, true), (pollOut, true)].getLast?,
        e.pending = true ∧ e.events = watchEvents c.1 ||| evPersist) ∧
      ∀ added, ∃ e', conFreeEvent false added e = some e' ∧ e'.pending = false :=
  ⟨by decide, watchRun_registered (by decide)⟩

-- Asking for neither `POLLIN` nor `POLLOUT` leaves the event pending with `last_events` zero,
-- and the next call skips the `event_del` and gives `event_set` a pending event.
example : watchRun false {} [(pollIn, true), (0, true), (pollIn, true)] = none := by decide

-- With `NDEBUG` the first change of events gives `event_set` a pending event.
example : watchRun true {} [(pollIn, true), (pollOut, true)] = none := by decide

-- A failed `event_add` keeps the old `last_events` with the event deleted: a later call for
-- those events returns `GEARMAN_SUCCESS` and nothing watches the connection.
example : (watchRun false {} [(pollIn, true), (pollOut, false), (pollIn, true)]).map
    (fun r => (r.1, r.2.pending)) = some ([.success, .event, .success], false) := by decide

end ConEvent

end GearmanServer
