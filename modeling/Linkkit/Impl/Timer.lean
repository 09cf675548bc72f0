import Linkkit.Framework.Descriptors
import Linkkit.Impl.Wait

/-!
# Timers

`HAL_Timer_Create`, `HAL_Timer_Stop` and `HAL_Timer_Delete` of
`Vendors/ubuntu/wrapper.c` and `Vendors/Jabsco/wrapper.c`, beside
`HAL_Timer_Start` (`Impl.Wait`). A handle is the address of a block that holds a
`timer_t`. What `malloc` and `timer_create` give is an argument; they give what is
free, as the kernel opens a descriptor (`Descriptors.opens`). Printing is left
out.
-/

namespace Linkkit.Impl.Timer

open Wait

/-- A timer that is armed: when it expires, and the time from then on between two
expirations, 0 if there is one only. Both count nanoseconds. -/
structure Armed where
  deadline : Int
  interval : Int
deriving DecidableEq

/-- The blocks that are allocated, each with the `timer_t` that is stored in it, if
one is, and the timers, each armed or not. -/
structure Timers where
  heap : Descriptors UInt64 UInt64
  timers : Descriptors UInt64 Armed

/-- What `malloc` returns, and the `timer_t` that `timer_create` gives, none if it
fails. -/
structure CreateSys where
  malloc : UInt64
  timerCreate : Option UInt64

/-- `HAL_Timer_Create`, `func` not being NULL if `func`. Where the block is not
checked, `timer_create` stores a `timer_t` through NULL. -/
def timerCreate (checked : Bool) (func : Bool) (sys : CreateSys) (t : Timers) : Option (UInt64 × Timers) :=
  if !func then some (0, t)
  else if sys.malloc = 0 then
    if checked then some (0, t)
    else match sys.timerCreate with
      | none => some (0, t)
      | some _ => none
  else do
    let heap ← t.heap.opens sys.malloc
    match sys.timerCreate with
    | none => return (0, ⟨heap.close sys.malloc, t.timers⟩)
    | some id => return (sys.malloc, ⟨heap.connect sys.malloc id, ← t.timers.opens id⟩)

/-- `HAL_Timer_Create` of `Vendors/ubuntu`. -/
def Ubuntu.halTimerCreate : Bool → CreateSys → Timers → Option (UInt64 × Timers) := timerCreate true

/-- `HAL_Timer_Create` of `Vendors/Jabsco`, which does not check the block. -/
def Jabsco.halTimerCreate : Bool → CreateSys → Timers → Option (UInt64 × Timers) := timerCreate false

/-- The `timer_t` in a block. -/
def Timers.timerT (t : Timers) (timer : UInt64) : Option UInt64 := (t.heap timer).join

/-- `HAL_Timer_Delete`; `timer_delete` knows the timers that exist. -/
def halTimerDelete (timer : UInt64) (t : Timers) : Option (Int32 × Timers) :=
  if timer = 0 then some (-1, t)
  else do
    let id ← t.timerT timer
    let ret := if t.timers.IsOpen id then 0 else -1
    return (ret, ⟨t.heap.close timer, t.timers.close id⟩)

/-- `HAL_Timer_Stop`, if `timer` is not NULL; `timer_settime` returns as given. -/
def halTimerStop (timer : Bool) (settime : Int32) : Int32 × Option Itimerspec :=
  if !timer then (-1, none) else (settime, some ⟨⟨0, 0⟩, ⟨0, 0⟩⟩)

end Linkkit.Impl.Timer
