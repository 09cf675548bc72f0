import Linkkit.Framework.Descriptors

/-!
# Mutexes

`HAL_MutexCreate`, `HAL_MutexDestroy`, `HAL_MutexLock` and `HAL_MutexUnlock`, which
`Vendors/ubuntu/wrapper.c` and `Vendors/Jabsco/wrapper.c` share. A handle is the
address of a block that holds a mutex; what `malloc` and the calls of pthread return
is an argument. A function has no value while it waits, and where pthread promises
nothing: if a locked mutex is destroyed, or unlocked by another thread.
-/

namespace Linkkit.Impl.Mutex

/-- The blocks that are allocated, each with the thread that has locked its mutex, if
there is one. -/
abbrev Mutexes := Descriptors UInt64 (Option UInt64)

/-- What `malloc` and `pthread_mutex_init` return. -/
structure CreateSys where
  malloc : UInt64
  init : Int32

/-- `HAL_MutexCreate`. -/
def halMutexCreate (sys : CreateSys) (mutexes : Mutexes) : Option (UInt64 × Mutexes) :=
  if sys.malloc = 0 then some (0, mutexes)
  else do
    let mutexes ← mutexes.opens sys.malloc
    if sys.init ≠ 0 then return (0, mutexes.close sys.malloc)
    return (sys.malloc, mutexes.connect sys.malloc none)

/-- `HAL_MutexDestroy`, which frees the block whatever `pthread_mutex_destroy`
returns. -/
def halMutexDestroy (mutex : UInt64) (mutexes : Mutexes) : Option Mutexes :=
  if mutex = 0 then some mutexes
  else do
    let owner ← (mutexes mutex).join
    if owner = none then some (mutexes.close mutex) else none

/-- A mutex passes from `owner` to `owner'`. That pthread fails is printed only. -/
def handOver (mutex : UInt64) (errNum : Int32) (owner owner' : Option UInt64) (mutexes : Mutexes) : Option Mutexes := do
  let now ← (mutexes mutex).join
  if errNum ≠ 0 then some mutexes
  else if now = owner then some (mutexes.connect mutex owner')
  else none

/-- `HAL_MutexLock`, called by the thread `self`. -/
def halMutexLock (self mutex : UInt64) (errNum : Int32) : Mutexes → Option Mutexes :=
  handOver mutex errNum none (some self)

/-- `HAL_MutexUnlock`, called by the thread `self`. -/
def halMutexUnlock (self mutex : UInt64) (errNum : Int32) : Mutexes → Option Mutexes :=
  handOver mutex errNum (some self) none

end Linkkit.Impl.Mutex
