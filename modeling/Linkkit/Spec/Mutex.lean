import Linkkit.Framework.Machine
import Linkkit.Impl.Mutex

/-!
# What the mutexes promise

Runs of the mutex calls of any number of threads, in the order in which they take
effect (`Call`, `step`), each thread calling as if every call had done what it is
for (`State.locked`). The mutexes are then locked by the threads that count on it,
and by one at a time (`Excluded`).
-/

namespace Linkkit.Spec.Mutex

open Impl.Mutex

/-- A call, with the thread that makes it and what pthread answers. -/
inductive Call where
  | create (sys : CreateSys)
  | destroy (mutex : UInt64)
  | lock (self mutex : UInt64) (errNum : Int32)
  | unlock (self mutex : UInt64) (errNum : Int32)

/-- The blocks, the handles that were returned and not destroyed yet, and each thread
that has called `HAL_MutexLock` and not `HAL_MutexUnlock` yet, with the mutex. -/
structure State where
  mutexes : Mutexes
  held : List UInt64
  locked : List (UInt64 × UInt64)

/-- No mutex. -/
def noMutex : State := ⟨.none, [], []⟩

/-- A call of a thread, and the handle that it returns. A thread locks no mutex twice,
unlocks what it has locked, and destroys a mutex, or NULL, that no thread has locked. -/
def step (s : State) : Call → Option (State × Option UInt64)
  | .create sys => do
    let (ret, mutexes) ← halMutexCreate sys s.mutexes
    return ({ s with mutexes, held := if ret = 0 then s.held else ret :: s.held }, some ret)
  | .destroy mutex =>
    if (mutex = 0 ∨ mutex ∈ s.held) ∧ mutex ∉ s.locked.map Prod.snd then do
      return ({ s with mutexes := ← halMutexDestroy mutex s.mutexes, held := s.held.erase mutex }, none)
    else none
  | .lock self mutex errNum =>
    if mutex ∈ s.held ∧ (self, mutex) ∉ s.locked then do
      return ({ s with mutexes := ← halMutexLock self mutex errNum s.mutexes, locked := (self, mutex) :: s.locked }, none)
    else none
  | .unlock self mutex errNum =>
    if (self, mutex) ∈ s.locked then do
      return ({ s with
        mutexes := ← halMutexUnlock self mutex errNum s.mutexes, locked := s.locked.erase (self, mutex) }, none)
    else none

/-- pthread neither fails to lock nor to unlock. -/
def Call.Succeeds : Call → Prop
  | .lock _ _ errNum => errNum = 0
  | .unlock _ _ errNum => errNum = 0
  | _ => True

/-- The blocks that are allocated are the mutexes that are held, and a thread has
locked one exactly if it counts on that, which no other thread does then. -/
structure Excluded (s : State) : Prop where
  owned : ∀ mutex, s.mutexes.IsOpen mutex ↔ mutex ∈ s.held
  locks : ∀ self mutex, (self, mutex) ∈ s.locked ↔ s.mutexes mutex = some (some (some self))
  alone : ∀ self self' mutex, (self, mutex) ∈ s.locked → (self', mutex) ∈ s.locked → self = self'

end Linkkit.Spec.Mutex
