import Linkkit.Framework.Descriptors

/-!
# Threads of the HAL wrappers

`HAL_ThreadCreate` and `HAL_ThreadDelete` of `Vendors/ubuntu/wrapper.c` and
`Vendors/Jabsco/wrapper.c`. The second is the same in both; the first detaches the
thread in `Vendors/ubuntu`. What `pthread_create` returns is an argument, and so is
the number that it stores, which the callers keep as a handle.

The system keeps a thread until it is joined, or, if it is detached, until it ends.
A function has no value where it would join a thread that is not joinable, or the
caller. `stack_used`, and what the threads do, are left out.
-/

namespace Linkkit.Impl.Thread

/-- What is known of a thread, but for one that runs and is joinable. -/
inductive Mark where
  | detached
  | ended
deriving DecidableEq

/-- The threads that the system keeps. -/
abbrev Threads := Descriptors UInt64 Mark

/-- `pthread_detach`. -/
def pthreadDetach (id : UInt64) (threads : Threads) : Threads :=
  match threads id with
  | some none => threads.connect id .detached
  | some (some .ended) => threads.close id
  | _ => threads

/-- `pthread_exit`, or the end of the routine: the thread `id` ends. -/
def pthreadExit (id : UInt64) (threads : Threads) : Threads :=
  match threads id with
  | some none => threads.connect id .ended
  | some (some .detached) => threads.close id
  | _ => threads

/-- `pthread_cancel`, and `pthread_join`, which waits for the end. -/
def pthreadJoin (id : UInt64) (threads : Threads) : Option Threads :=
  match threads id with
  | some none | some (some .ended) => some (threads.close id)
  | _ => none

/-- `HAL_ThreadCreate` of `Vendors/ubuntu`. -/
def Ubuntu.halThreadCreate (pthreadCreate : Int32) (id : UInt64) (threads : Threads) : Option (Int32 × Threads) :=
  if pthreadCreate ≠ 0 then some (-1, threads)
  else do
    let threads ← threads.opens id
    return (0, pthreadDetach id threads)

/-- `HAL_ThreadCreate` of `Vendors/Jabsco`. -/
def Jabsco.halThreadCreate (pthreadCreate : Int32) (id : UInt64) (threads : Threads) : Option (Int32 × Threads) :=
  if pthreadCreate ≠ 0 then some (pthreadCreate, threads)
  else do
    let threads ← threads.opens id
    return (pthreadCreate, threads)

/-- `HAL_ThreadDelete`, called by the thread `self`, which ends if it is given NULL. -/
def halThreadDelete (self threadHandle : UInt64) (threads : Threads) : Option Threads :=
  if threadHandle = 0 then some (pthreadExit self threads)
  else if threadHandle = self then none
  else pthreadJoin threadHandle threads

end Linkkit.Impl.Thread
