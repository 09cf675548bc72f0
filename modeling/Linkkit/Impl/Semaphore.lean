import Linkkit.Framework.Descriptors
import Linkkit.Impl.Wait

/-!
# Semaphores

`HAL_SemaphoreCreate`, `HAL_SemaphorePost` and `HAL_SemaphoreDestroy`, which
`Vendors/ubuntu/wrapper.c` and `Vendors/Jabsco/wrapper.c` share, beside
`HAL_SemaphoreWait` (`Impl.Wait`). A handle is the address of a block that holds a
semaphore. What `malloc` and `sem_init` return is an argument; `malloc` gives what
is free, as the kernel opens a descriptor (`Descriptors.opens`).
-/

namespace Linkkit.Impl.Semaphore

/-- The blocks that are allocated, each with the value of its semaphore. -/
abbrev Sems := Descriptors UInt64 Nat

/-- What `malloc` and `sem_init` return. -/
structure CreateSys where
  malloc : UInt64
  init : Int32

/-- `HAL_SemaphoreCreate`. -/
def halSemaphoreCreate (sys : CreateSys) (sems : Sems) : Option (UInt64 × Sems) :=
  if sys.malloc = 0 then some (0, sems)
  else do
    let sems ← sems.opens sys.malloc
    if sys.init ≠ 0 then return (0, sems.close sys.malloc)
    return (sys.malloc, sems.connect sys.malloc 0)

/-- `SEM_VALUE_MAX`. -/
def semValueMax : Nat := 2147483647

/-- `sem_post`, which fails if the value is the greatest. -/
def semPost (value : Nat) : Int32 × Nat := if value = semValueMax then (-1, value) else (0, value + 1)

/-- `HAL_SemaphorePost`, which does not look at what `sem_post` returns. -/
def halSemaphorePost (sem : UInt64) (sems : Sems) : Option Sems := do
  let value ← (sems sem).join
  return sems.connect sem (semPost value).2

/-- `HAL_SemaphoreDestroy`. -/
def halSemaphoreDestroy (sem : UInt64) (sems : Sems) : Option Sems := do
  let _ ← (sems sem).join
  return sems.close sem

end Linkkit.Impl.Semaphore
