import Linkkit.Framework.Machine
import Linkkit.Impl.Thread
import Linkkit.Spec.Wait

/-!
# What the thread calls promise

Runs of the calls of any threads, with threads that end at any time (`Call`,
`step`). A thread runs from its creation to its end or deletion (`Creates`, `Ends`);
the system keeps it while it runs in `Vendors/ubuntu`, and until it is deleted in
`Vendors/Jabsco` (`Kept`).
-/

namespace Linkkit.Spec.Thread

open Impl.Thread
open Spec.Wait (Port)

/-- A call, with what `pthread_create` answers in it or the thread that makes it, or
the end of a thread. -/
inductive Call where
  | create (pthreadCreate : Int32) (id : UInt64)
  | delete (self threadHandle : UInt64)
  | exit (id : UInt64)

/-- The threads, and the handles that were given and not deleted yet. -/
structure World where
  threads : Threads
  held : List UInt64

/-- No thread was created. -/
def noThread : World := ⟨.none, []⟩

/-- `HAL_ThreadCreate` of one of the wrappers. -/
def threadCreate : Port → Int32 → UInt64 → Threads → Option (Int32 × Threads)
  | .ubuntu => Ubuntu.halThreadCreate
  | .jabsco => Jabsco.halThreadCreate

/-- An event, and what a creation returns. No thread has the number 0, and a handle
that is deleted is NULL or held. -/
def step (port : Port) (w : World) : Call → Option (World × Option Int32)
  | .create pthreadCreate id =>
    if id = 0 then none
    else (threadCreate port pthreadCreate id w.threads).map fun r =>
      (⟨r.2, if r.1 = 0 then id :: w.held else w.held⟩, some r.1)
  | .delete self threadHandle =>
    if threadHandle = 0 ∨ threadHandle ∈ w.held then
      (halThreadDelete self threadHandle w.threads).map fun threads => (⟨threads, w.held.erase threadHandle⟩, none)
    else none
  | .exit id => some (⟨pthreadExit id w.threads, w.held⟩, none)

/-- `pthread_create` gives a number that is free and not NULL, and a caller deletes a
handle that it holds, and not its own. -/
def Legal (w : World) : Call → Prop
  | .create _ id => id ≠ 0 ∧ ¬ w.threads.IsOpen id
  | .delete self threadHandle => threadHandle = 0 ∨ threadHandle ∈ w.held ∧ threadHandle ≠ self
  | .exit _ => True

/-- No thread is joined that the wrapper has detached. -/
def Call.Joins : Port → Call → Prop
  | .ubuntu, .delete _ threadHandle => threadHandle = 0
  | _, _ => True

/-- The thread `id` is created. -/
def Creates (id : UInt64) (e : Call × Option Int32) : Prop := e = (.create 0 id, some 0)

/-- The thread `id` ends, or is deleted. -/
def Ends (id : UInt64) : Call × Option Int32 → Prop
  | (.create _ _, _) => False
  | (.delete self threadHandle, _) => if threadHandle = 0 then self = id else threadHandle = id
  | (.exit id', _) => id' = id

/-- The thread `id` was created, and did not end since. -/
def Runs (hist : List (Call × Option Int32)) (id : UInt64) : Prop := Since (Creates id) (fun e => ¬ Ends id e) hist

/-- The threads that the system keeps. -/
def Kept (port : Port) (w : World) (hist : List (Call × Option Int32)) : Prop :=
  ∀ id, w.threads.IsOpen id ↔ match port with
    | .ubuntu => Runs hist id
    | .jabsco => id ∈ w.held

end Linkkit.Spec.Thread
