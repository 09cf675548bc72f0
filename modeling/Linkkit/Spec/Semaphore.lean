import Linkkit.Framework.Machine
import Linkkit.Impl.Semaphore

/-!
# What the semaphores promise

Runs of the semaphore calls of any number of threads, in the order in which they
take effect (`Call`, `step`). A wait that returns 0 has taken a post: the value of
each semaphore is the posts since its creation, less the waits that returned 0
(`Conserved`).
-/

namespace Linkkit.Spec.Semaphore

open Impl.Semaphore Impl.Wait

/-- A call; of a wait also what `sem_wait` returns, if it waits for ever, and else
the answers of its loop. -/
inductive Call where
  | create (sys : CreateSys)
  | post (sem : UInt64)
  | wait (sem : UInt64) (timeoutMs : UInt32) (semWait : Int32) (turns : List SemTurn)
  | destroy (sem : UInt64)

/-- What a call returns. -/
inductive Reply where
  | handle (ret : UInt64)
  | ret (ret : Int32)
  | none
deriving DecidableEq

/-- The blocks, and the handles that were returned and not destroyed yet. -/
structure State where
  sems : Sems
  held : List UInt64

/-- No semaphore. -/
def noSems : State := ⟨.none, []⟩

section

variable (platformWaitInfinite : UInt32)

/-- A wait takes a post: `sem_wait` returns 0, or a `sem_timedwait` that the loop
calls does. -/
def takes (timeoutMs : UInt32) (semWait : Int32) (turns : List SemTurn) : Bool :=
  if platformWaitInfinite = timeoutMs then semWait = 0
  else (steps (semTurn timeoutMs) turns ⟨[], 0⟩).any fun p => p.1.now.isSome ∧ p.1.timedwait.val = 0

/-- A call of a thread. All but the first are given a handle that is held, and a
wait takes a post only if there is one. -/
def step (s : State) : Call → Option (State × Reply)
  | .create sys => do
    let (ret, sems) ← halSemaphoreCreate sys s.sems
    return (⟨sems, if ret = 0 then s.held else ret :: s.held⟩, .handle ret)
  | .post sem =>
    if sem ∈ s.held then do
      return (⟨← halSemaphorePost sem s.sems, s.held⟩, .none)
    else none
  | .wait sem timeoutMs semWait turns =>
    if sem ∈ s.held then do
      let ret ← (halSemaphoreWait platformWaitInfinite timeoutMs turns).1
      if takes platformWaitInfinite timeoutMs semWait turns then
        match ← (s.sems sem).join with
        | 0 => none
        | value + 1 => return (⟨s.sems.connect sem value, s.held⟩, .ret ret)
      else return (s, .ret ret)
    else none
  | .destroy sem =>
    if sem ∈ s.held then do
      return (⟨← halSemaphoreDestroy sem s.sems, s.held.erase sem⟩, .none)
    else none

/-- The posts of a semaphore less the waits that returned 0, after one more event. -/
def count (sem : UInt64) (n : Int) : Call × Reply → Int
  | (.create _, .handle ret) => if ret = sem then 0 else n
  | (.post sem', _) => if sem' = sem then n + 1 else n
  | (.wait sem' _ _ _, .ret ret) => if sem' = sem ∧ ret = 0 then n - 1 else n
  | _ => n

/-- The posts of a semaphore since its creation, less the waits that returned 0. -/
def tally (sem : UInt64) (hist : List (Call × Reply)) : Int := hist.foldl (count sem) 0

/-- The blocks that are allocated are the semaphores that are held, and none has
lost a post or made one up. -/
def Conserved (s : State) (hist : List (Call × Reply)) : Prop :=
  (∀ sem, s.sems.IsOpen sem ↔ sem ∈ s.held) ∧
    ∀ sem ∈ s.held, ∃ value : Nat, s.sems sem = some (some value) ∧ value = tally sem hist

/-- A post finds room for it, and a wait for ever is not interrupted. -/
def Undisturbed (s : State) : Call → Prop
  | .post sem => s.sems sem ≠ some (some semValueMax)
  | .wait _ timeoutMs semWait _ => platformWaitInfinite = timeoutMs → semWait = 0
  | _ => True

end

end Linkkit.Spec.Semaphore
