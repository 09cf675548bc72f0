import Linkkit.Impl.Wait
import Linkkit.Spec.Net

/-!
# What the waits promise

`HAL_SemaphoreWait` waits until one deadline, the time of the call and its
timeout (`OneDeadline`), however often it is interrupted. No wait of
`HAL_TCP_Read` and `HAL_TCP_Write` is longer than their timeout (`Within`). The
other calls that are given milliseconds ask the system for just as much time
(`Exact`).
-/

namespace Linkkit.Spec.Wait

open Impl.Net Impl.Wait Spec.Net

/-! ## Times -/

/-- The nanoseconds are those below a second. -/
def NormalTimespec (ts : Timespec) : Prop := 0 ≤ ts.tvNsec ∧ ts.tvNsec < 1000000000

/-- A time in nanoseconds. -/
def nsecs (ts : Timespec) : Int := ts.tvSec * 1000000000 + ts.tvNsec

/-- The microseconds are those below a second. -/
def NormalTimeval (tv : Timeval) : Prop := 0 ≤ tv.tvUsec ∧ tv.tvUsec < 1000000

/-- A time in microseconds. -/
def usecs (tv : Timeval) : Int := tv.tvSec * 1000000 + tv.tvUsec

instance (ts : Timespec) : Decidable (NormalTimespec ts) := inferInstanceAs (Decidable (_ ∧ _))

instance (tv : Timeval) : Decidable (NormalTimeval tv) := inferInstanceAs (Decidable (_ ∧ _))

/-! ## Semaphores -/

/-- What `clock_gettime` gives in a call of `HAL_SemaphoreWait`. -/
def readings (timeoutMs : UInt32) (turns : List SemTurn) : List Timespec :=
  (steps (semTurn timeoutMs) turns ⟨[], 0⟩).flatMap fun p => p.1.now.toList

/-- Every wait is until the first of the readings and the timeout. -/
def OneDeadline (timeoutMs : UInt32) (readings waits : List Timespec) : Prop :=
  ∀ first ∈ readings.head?, ∀ ts ∈ waits, NormalTimespec ts ∧ nsecs ts = nsecs first + timeoutMs.toNat * 1000000

/-! ## Reading and writing -/

/-- A time that `gettimeofday` gives, whose milliseconds are a `long`. -/
def Reading (t : UInt64) : Prop :=
  ∃ tv : Timeval, 0 ≤ tv.tvSec ∧ tv.tvSec * 1000 + 999 < 0x8000000000000000 ∧ NormalTimeval tv ∧
    t = linuxGetTimeMs tv

/-- What `HAL_TCP_Read` gives to `select`, in order. -/
def readTimeouts (fd : UInt64) (buf : List Byte) (len timeoutMs : UInt32) (now : UInt64) (turns : List ReadTurn) :
    List Timeval :=
  (readSteps fd buf len timeoutMs now turns).filterMap fun p => selectTimeout (now + timeoutMs.toUInt64) p.1.now

/-- What `HAL_TCP_Write` gives to `select`, in order. -/
def writeTimeouts (fd : UInt64) (buf : List Byte) (len timeoutMs : UInt32) (now : UInt64) (turns : List WriteTurn) :
    List Timeval :=
  (writeSteps fd buf len timeoutMs now turns).filterMap fun p => selectTimeout (now + timeoutMs.toUInt64) p.1.now

/-- At most the milliseconds of the timeout. -/
def Within (timeoutMs : UInt32) (tv : Timeval) : Prop := NormalTimeval tv ∧ usecs tv ≤ timeoutMs.toNat * 1000

instance (timeoutMs : UInt32) (tv : Timeval) : Decidable (Within timeoutMs tv) := inferInstanceAs (Decidable (_ ∧ _))

/-! ## Milliseconds -/

/-- What a call asks the system for: an argument of `usleep`, a time to which a
timer is set, or a timeout of `select`, which may be NULL. -/
inductive Asked where
  | usleep (usec : UInt32)
  | timer (value : Timespec)
  | select (timeout : Option Timeval)

/-- The system is asked for so many milliseconds. -/
def Asked.For (ms : Int) : Asked → Prop
  | usleep usec => usec.toNat = ms * 1000
  | timer value => NormalTimespec value ∧ nsecs value = ms * 1000000
  | select none => False
  | select (some timeout) => NormalTimeval timeout ∧ usecs timeout = ms * 1000

/-- The two wrappers. -/
inductive Port where
  | ubuntu
  | jabsco
deriving DecidableEq

/-- A call that is given milliseconds, with what the system answers in it. -/
inductive Call where
  | sleepMs (ms : UInt32)
  | timerStart (port : Port) (timer : Bool) (ms settime : Int32)
  | udpReadTimeout (pSocket : Int64) (pData : Bool) (timeout : UInt32) (select : Ret) (read : Int32)
  | udpRecv (timeoutMs : UInt32) (select : Ret) (read : Int32)
  | udpRecvfrom (timeoutMs : UInt32) (select : Ret) (recvfrom : Int32)
  | udpSend (timeoutMs : UInt32) (select : Ret) (send : Int32)
  | udpSendto (found : Bool) (timeoutMs : UInt32) (select : Ret) (sendto : Int32)

namespace Call

/-- The milliseconds. -/
def ms : Call → Int
  | sleepMs ms => ms.toNat
  | timerStart _ _ ms _ => ms.toInt
  | udpReadTimeout _ _ timeout _ _ => timeout.toNat
  | udpRecv timeoutMs _ _ => timeoutMs.toNat
  | udpRecvfrom timeoutMs _ _ => timeoutMs.toNat
  | udpSend timeoutMs _ _ => timeoutMs.toNat
  | udpSendto _ timeoutMs _ _ => timeoutMs.toNat

/-- What the system is asked for. -/
def asks : Call → List Asked
  | sleepMs ms => [.usleep (halSleepMs ms)]
  | timerStart .ubuntu timer ms settime =>
    (Ubuntu.halTimerStart timer ms settime).2.toList.map fun ts => .timer ts.itValue
  | timerStart .jabsco timer ms settime =>
    (Jabsco.halTimerStart timer ms settime).2.toList.map fun ts => .timer ts.itValue
  | udpReadTimeout pSocket pData timeout select read =>
    (halUdpReadTimeout pSocket pData timeout select read).2.map .select
  | udpRecv timeoutMs select read => (halUdpRecv timeoutMs select read).2.map .select
  | udpRecvfrom timeoutMs select recvfrom => (halUdpRecvfrom timeoutMs select recvfrom).2.map .select
  | udpSend timeoutMs select send => (halUdpSend timeoutMs select send).2.map .select
  | udpSendto found timeoutMs select sendto => (halUdpSendto found timeoutMs select sendto).2.map .select

/-- The system is asked for the milliseconds that the call is given. -/
def Exact (c : Call) : Prop := ∀ a ∈ c.asks, a.For c.ms

/-- `usleep` counts in 32 bits, a timer of `Vendors/Jabsco` has whole seconds
(it takes milliseconds for microseconds), and `HAL_UDP_readTimeout` does not wait
for 0 milliseconds; unless the call is refused. -/
def Fits : Call → Prop
  | sleepMs ms => ms.toNat ≤ 4294967
  | timerStart .jabsco timer ms _ => timer → ms % 1000 = 0
  | udpReadTimeout pSocket pData timeout _ _ => 0 < pSocket → pData → timeout ≠ 0
  | _ => True

end Call

end Linkkit.Spec.Wait
