import Linkkit.Framework.Machine
import Linkkit.Impl.Timer
import Linkkit.Spec.Wait

/-!
# What the timers promise

Runs of the timer calls of one wrapper (`Call`, `step`), in which time passes and
timers expire. The blocks and the timers that exist are those of the handles that
the caller holds (`Owned`); a timer expires once, as long after its start as it was
started for (`delay`), if nothing has set it since (`Sets`).

An expiration is what the kernel does. It starts a thread that calls `func`
(`SIGEV_THREAD`), which is left out here: the thread may run at any time after the
expiration, even when the timer has been stopped or deleted since.
-/

namespace Linkkit.Spec.Timer

open Impl.Timer Impl.Wait Spec.Wait

/-- A call; a time that passes, in nanoseconds; or the expiration of the timer of a
handle. -/
inductive Call where
  | create (func : Bool) (sys : CreateSys)
  | start (timer : UInt64) (ms : Int32)
  | stop (timer : UInt64)
  | delete (timer : UInt64)
  | tick (ns : Nat)
  | expire (timer : UInt64)

/-- What a call returns. -/
inductive Reply where
  | handle (ret : UInt64)
  | ret (ret : Int32)
  | none
deriving DecidableEq

/-- The monotonic clock, the blocks and timers, and the handles that were returned
and not deleted yet. -/
structure World where
  now : Int
  t : Timers
  held : List UInt64

/-- No timer. -/
def noTimer (now : Int) : World := ⟨now, ⟨.none, .none⟩, []⟩

/-- A timer armed or disarmed. -/
def World.arm (w : World) (id : UInt64) (armed : Option Armed) : World :=
  { w with t := { w.t with timers := Function.update w.t.timers id (some armed) } }

/-- How the timer of a handle is armed, if it is. -/
def World.armed (w : World) (timer : UInt64) : Option Armed :=
  (w.t.timerT timer).bind fun id => (w.t.timers id).join

/-- A time that `timer_settime` takes. -/
def Valid (ts : Timespec) : Prop := 0 ≤ ts.tvSec ∧ NormalTimespec ts

instance (ts : Timespec) : Decidable (Valid ts) := inferInstanceAs (Decidable (_ ∧ _))

/-- `timer_settime` of a relative time, which disarms the timer if it is zero. -/
def World.timerSettime (w : World) (id : UInt64) (ts : Itimerspec) : Int32 × World :=
  if w.t.timers.IsOpen id ∧ Valid ts.itInterval ∧ Valid ts.itValue then
    (0, w.arm id (if nsecs ts.itValue = 0 then Option.none
      else some ⟨w.now + nsecs ts.itValue, nsecs ts.itInterval⟩))
  else (-1, w)

/-- A call that hands a time to `timer_settime` and returns what that does. -/
def World.settime (w : World) (timer : UInt64) (call : Int32 → Int32 × Option Itimerspec) :
    Option (World × Reply) :=
  match (call 0).2 with
  | .none => some (w, .ret (call 0).1)
  | some ts => do
    let id ← w.t.timerT timer
    let (ret, w) := w.timerSettime id ts
    return (w, .ret (call ret).1)

/-- `HAL_Timer_Create` of one of the wrappers. -/
def timerCreate : Port → Bool → CreateSys → Timers → Option (UInt64 × Timers)
  | .ubuntu => Ubuntu.halTimerCreate
  | .jabsco => Jabsco.halTimerCreate

/-- `HAL_Timer_Start` of one of the wrappers. -/
def timerStart : Port → Bool → Int32 → Int32 → Int32 × Option Itimerspec
  | .ubuntu => Ubuntu.halTimerStart
  | .jabsco => Jabsco.halTimerStart

/-- What happens. A call is given NULL or a handle that is held; a timer that is
armed expires when its time has come, or later. -/
def step (port : Port) (w : World) : Call → Option (World × Reply)
  | .create func sys => do
    let (ret, t) ← timerCreate port func sys w.t
    return (⟨w.now, t, if ret = 0 then w.held else ret :: w.held⟩, .handle ret)
  | .start timer ms =>
    if timer = 0 ∨ timer ∈ w.held then w.settime timer (timerStart port (timer ≠ 0) ms) else .none
  | .stop timer =>
    if timer = 0 ∨ timer ∈ w.held then w.settime timer (halTimerStop (timer ≠ 0)) else .none
  | .delete timer =>
    if timer = 0 ∨ timer ∈ w.held then do
      let (ret, t) ← halTimerDelete timer w.t
      return (⟨w.now, t, w.held.erase timer⟩, .ret ret)
    else .none
  | .tick ns => some ({ w with now := w.now + ns }, .none)
  | .expire timer => do
    let id ← w.t.timerT timer
    let armed ← (w.t.timers id).join
    if armed.deadline ≤ w.now then
      return (w.arm id (if armed.interval = 0 then Option.none
        else some ⟨armed.deadline + armed.interval, armed.interval⟩), .none)
    else .none

/-- What the system does as it should: `malloc` and `timer_create` give what is
free. A caller has the handles that it gives, and a timer that expires is armed and
due. -/
def Legal (w : World) : Call → Prop
  | .create _ sys => ¬ w.t.heap.IsOpen sys.malloc ∧ ∀ id ∈ sys.timerCreate, ¬ w.t.timers.IsOpen id
  | .start timer _ => timer = 0 ∨ timer ∈ w.held
  | .stop timer => timer = 0 ∨ timer ∈ w.held
  | .delete timer => timer = 0 ∨ timer ∈ w.held
  | .tick _ => True
  | .expire timer => ∃ armed, w.armed timer = some armed ∧ armed.deadline ≤ w.now

/-- `HAL_Timer_Create` has a block to store its `timer_t` in, or checks it. -/
def Call.Stores : Port → Call → Prop
  | .jabsco, .create func sys => func = true → sys.timerCreate.isSome = true → sys.malloc ≠ 0
  | _, _ => True

/-! ## Ownership -/

/-- The blocks that are allocated are the handles that are held, and the timers
that exist are theirs, each one's own. -/
structure Owned (w : World) : Prop where
  blocks : ∀ timer, w.t.heap.IsOpen timer ↔ timer ∈ w.held
  stored : ∀ timer ∈ w.held, ∃ id, w.t.timerT timer = some id
  timers : ∀ id, w.t.timers.IsOpen id ↔ ∃ timer ∈ w.held, w.t.timerT timer = some id
  own : ∀ timer ∈ w.held, ∀ timer' ∈ w.held, w.t.timerT timer = w.t.timerT timer' → timer = timer'

/-- What a call returned. A handle that was returned is not NULL if there was
memory and `timer_create` did not fail; the others return 0 if they are given a
handle, and a start a time that is not negative. -/
def Returns : Call × Reply → Prop
  | (.create func sys, r) => r = .handle (if func = true ∧ sys.timerCreate.isSome then sys.malloc else 0)
  | (.start timer ms, r) => r = .ret (if timer ≠ 0 ∧ 0 ≤ ms then 0 else -1)
  | (.stop timer, r) => r = .ret (if timer ≠ 0 then 0 else -1)
  | (.delete timer, r) => r = .ret (if timer ≠ 0 then 0 else -1)
  | (_, r) => r = .none

/-! ## Expiration -/

/-- The nanoseconds that a timer is started for: the milliseconds, but in
`Vendors/Jabsco` a millisecond that is left over from the seconds counts as a
microsecond. -/
def delay : Port → Int32 → Int
  | .ubuntu, ms => ms.toInt * 1000000
  | .jabsco, ms => ms.toInt / 1000 * 1000000000 + ms.toInt % 1000 * 1000

/-- An event, and the nanoseconds that pass in it. -/
abbrev Event := Call × Reply

def Event.ns : Event → Nat
  | (.tick ns, _) => ns
  | _ => 0

/-- The timer is started. -/
def Starts (timer : UInt64) (ms : Int32) (e : Event) : Prop := e = (.start timer ms, .ret 0)

/-- The timer is set: created, started, stopped or deleted, or it expires. -/
def Sets (timer : UInt64) : Event → Prop
  | (.create _ _, r) => r = .handle timer
  | (.start timer' _, r) => timer' = timer ∧ r = .ret 0
  | (.stop timer', r) => timer' = timer ∧ r = .ret 0
  | (.delete timer', _) => timer' = timer
  | (.expire timer', _) => timer' = timer
  | (.tick _, _) => False

end Linkkit.Spec.Timer
