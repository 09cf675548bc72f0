import Linkkit.Framework.Machine
import Linkkit.Impl.Awss

/-!
# What monitor mode promises

Runs of `HAL_Awss_Open_Monitor` and `HAL_Awss_Close_Monitor`, interleaved with
the steps of the sniffer threads in any order (`Event`, `step`); commands and
thread creation succeed. After an Open and until the next Close the sniffers
run, and after a Close they stop (`Monitors`). A sniffer on its own (`receive`)
calls its callback with the frame of each packet (`frameOf`).
-/

namespace Linkkit.Spec.Awss

open Impl.Awss

/-- A call, or a step of thread `i`: the test of its loop, or a `recvfrom` that
returns. -/
inductive Event where
  | openMonitor (cb : Callback) (revBuffer : Buf maxRevBuffer)
  | closeMonitor
  | test (i : Nat)
  | recv (i : Nat) (packet : Option (List Byte))

namespace Event

/-- A call of `HAL_Awss_Open_Monitor`. -/
def IsOpen : Event → Prop
  | openMonitor _ _ => True
  | _ => False

/-- A call of `HAL_Awss_Close_Monitor`. -/
def IsClose (e : Event) : Prop := e = closeMonitor

end Event

/-- An event; a thread makes only the step it stands at. -/
def step (port : Port) (s : State) : Event → Option (State × Unit)
  | .openMonitor cb revBuffer => (halAwssOpenMonitor port (fun _ => 0) cb revBuffer s).map (·, ())
  | .closeMonitor => some (halAwssCloseMonitor port s, ())
  | .test i => do
    let t ← s.sniffers[i]?
    if t.pc = .test then
      some ({ s with sniffers := s.sniffers.set i (snifferTest s.sEnableSniffer t) }, ())
    else none
  | .recv i packet => do
    let t ← s.sniffers[i]?
    if t.pc = .recv then
      some ({ s with
        sniffers := s.sniffers.set i (snifferBody port packet t).1
        frames := s.frames ++ (snifferBody port packet t).2.toList }, ())
    else none

/-- The condition of the loop of `func_Sniffer`. -/
def LoopCondition (s : State) : Prop := 1 = s.sEnableSniffer

/-- A frame that fits the buffer, behind a radiotap header shorter than the
packet. -/
structure IsFrame (packet : List Byte) : Prop where
  header : 4 ≤ packet.length
  fits : packet.length ≤ maxRevBuffer
  body : itLen packet < packet.length

/-- The thread is in its loop, and calls its callback with every frame that it
receives. -/
def Listens (port : Port) (t : Sniffer) : Prop :=
  t.pc ≠ .done ∧ ∀ packet, IsFrame packet → (snifferBody port (some packet) t).2 =
    some ⟨t.cb, packet.drop (itLen packet), port.linkType, port.withFcs, 0⟩

/-- The call for a packet, or for a failure of `recvfrom`: that of the callback
with what follows the header, if there is a header that is shorter than the
packet. -/
def frameOf (port : Port) (cb : Callback) : Option (List Byte) → Option Frame
  | some p =>
    if 4 ≤ p.length ∧ itLen p < p.length then
      some ⟨cb, p.drop (itLen p), port.linkType, port.withFcs, 0⟩
    else none
  | none => none

/-- The loop of a sniffer: what `recvfrom` gives, in `rev_buffer`, and the call
of the callback for it. -/
def receive (port : Port) (t : Sniffer) (packet : Option (List Byte)) : Option (Sniffer × Option Frame) :=
  if ∀ p ∈ packet, p.length ≤ maxRevBuffer then some (snifferBody port packet t) else none

/-- The packet ends in the header, and the bytes behind it in `rev_buffer` make
it one that is shorter than the packet: byte 3 is 0, and byte 2, which the
packet may hold, is less than its length. -/
def EndsInHeader (t : Sniffer) (packet : Option (List Byte)) : Prop :=
  ∃ p ∈ packet, p.length < 4 ∧ t.revBuffer.bytes.getD 3 0 = 0 ∧
    ((p ++ t.revBuffer.bytes.drop p.length).getD 2 0).toNat < p.length

/-- After an Open and until the next Close the condition of the loop is true
and the threads listen; after a Close and until the next Open it is false. -/
def Monitors (port : Port) (s : State) (h : List (Event × Unit)) : Prop :=
  (Since (fun e => e.1.IsOpen) (fun e => ¬ e.1.IsClose) h →
    LoopCondition s ∧ ∀ t ∈ s.sniffers, Listens port t) ∧
  (Since (fun e => e.1.IsClose) (fun e => ¬ e.1.IsOpen) h → ¬ LoopCondition s)

end Linkkit.Spec.Awss
