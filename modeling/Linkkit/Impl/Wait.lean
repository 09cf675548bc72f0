import Linkkit.Impl.Net

/-!
# Waiting

`HAL_SemaphoreWait`, `HAL_SleepMs` and `HAL_Timer_Start` of
`Vendors/ubuntu/wrapper.c` and `Vendors/Jabsco/wrapper.c`, and the calls of
both that wait for a UDP socket: `HAL_UDP_recvfrom` and `HAL_UDP_sendto`, and
of the second also `HAL_UDP_readTimeout`, `HAL_UDP_recv` and `HAL_UDP_send`.

What the calls of the system return is an argument. Besides its value a call
gives what it asks the system to wait for. `time_t` and `long` are `Int`;
printing is left out, and so are the bytes and the addresses of datagrams, and
that a descriptor fits in the `fd_set`: `Linkkit.Impl.Udp` has the UDP calls with
these, and they return the same there.
-/

namespace Linkkit.Impl.Wait

open Net

/-- `struct timespec`. -/
structure Timespec where
  tvSec : Int
  tvNsec : Int
deriving DecidableEq

/-! ## Semaphores -/

/-- The answers of a turn of the loop of `HAL_SemaphoreWait`: `clock_gettime`,
which may fail, and `sem_timedwait`. -/
structure SemTurn where
  now : Option Timespec
  timedwait : Ret

/-- What the call has given to `sem_timedwait`, in order, and what it
returns. -/
structure SemState where
  waits : List Timespec
  ret : Int32

/-- `ts` after a turn has added `timeout_ms` to it. -/
def addTimeout (timeoutMs : UInt32) (ts : Timespec) : Timespec :=
  let tvNsec := ts.tvNsec + (timeoutMs % 1000 * 1000000).toNat
  if tvNsec ≥ 1000000000 then ⟨ts.tvSec + (timeoutMs / 1000 + 1).toNat, tvNsec - 1000000000⟩
  else ⟨ts.tvSec + (timeoutMs / 1000 + 0).toNat, tvNsec⟩

/-- A turn of the loop of `HAL_SemaphoreWait`, and the loop's test. -/
def semTurn (timeoutMs : UInt32) (turn : SemTurn) (st : SemState) : Bool × SemState :=
  match turn.now with
  | none => (false, { st with ret := -1 })
  | some ts =>
    let s := turn.timedwait.val
    (s ≠ 0 ∧ turn.timedwait.errno = eintr,
      { waits := st.waits ++ [addTimeout timeoutMs ts], ret := if s = 0 then 0 else -1 })

/-- `HAL_SemaphoreWait`: what it returns, if its loop ends with the answers of
`turns`, and what it gave to `sem_timedwait`. -/
def halSemaphoreWait (platformWaitInfinite timeoutMs : UInt32) (turns : List SemTurn) :
    Option Int32 × List Timespec :=
  if platformWaitInfinite = timeoutMs then (some 0, [])
  else match loop (semTurn timeoutMs) turns ⟨[], 0⟩ with
    | (false, st) => (none, st.waits)
    | (true, st) => (some st.ret, st.waits)

/-! ## Sleeping and timers -/

/-- The argument that `HAL_SleepMs` gives to `usleep`. -/
def halSleepMs (ms : UInt32) : UInt32 := 1000 * ms

/-- `struct itimerspec`. -/
structure Itimerspec where
  itInterval : Timespec
  itValue : Timespec

/-- `HAL_Timer_Start`, if `timer` is not NULL, where `nsecs` is what a
millisecond counts in `tv_nsec` and `timer_settime` returns as given. -/
def timerStart (nsecs : Int32) (timer : Bool) (ms settime : Int32) : Int32 × Option Itimerspec :=
  if !timer then (-1, none)
  else (settime, some ⟨⟨0, 0⟩, ⟨(ms / 1000).toInt, (ms % 1000 * nsecs).toInt⟩⟩)

/-- `HAL_Timer_Start` of `Vendors/ubuntu`. -/
def Ubuntu.halTimerStart : Bool → Int32 → Int32 → Int32 × Option Itimerspec := timerStart 1000000

/-- `HAL_Timer_Start` of `Vendors/Jabsco`. -/
def Jabsco.halTimerStart : Bool → Int32 → Int32 → Int32 × Option Itimerspec := timerStart 1000

/-! ## UDP -/

/-- The `struct timeval` of a timeout. -/
def timevalOf (timeoutMs : UInt32) : Timeval := ⟨(timeoutMs / 1000).toNat, (timeoutMs % 1000 * 1000).toNat⟩

/-- What a call returns after `select`: `late` if the time is over, and `ret`
if the socket is ready. -/
def afterSelect (select : Ret) (late ret : Int32) : Int32 :=
  if select.val = 0 then late
  else if select.val < 0 then (if select.errno = eintr then -3 else -4)
  else ret

/-- `HAL_UDP_read`, `p_data` not being NULL if `pData`. -/
def halUdpRead (pSocket : Int64) (pData : Bool) (read : Int32) : Int32 :=
  if !pData ∨ 0 = pSocket then -1 else read

/-- `HAL_UDP_readTimeout`; without a `timeout` it waits for ever. -/
def halUdpReadTimeout (pSocket : Int64) (pData : Bool) (timeout : UInt32) (select : Ret) (read : Int32) :
    Int32 × List (Option Timeval) :=
  if 0 = pSocket ∨ !pData then (-1, [])
  else if pSocket < 0 then (-1, [])
  else (afterSelect select (-2) (halUdpRead pSocket pData read),
    [if timeout = 0 then none else some (timevalOf timeout)])

/-- `HAL_UDP_recv`. -/
def halUdpRecv (timeoutMs : UInt32) (select : Ret) (read : Int32) : Int32 × List (Option Timeval) :=
  (afterSelect select 0 read, [some (timevalOf timeoutMs)])

/-- `HAL_UDP_recvfrom`. -/
def halUdpRecvfrom (timeoutMs : UInt32) (select : Ret) (recvfrom : Int32) : Int32 × List (Option Timeval) :=
  (afterSelect select 0 (if recvfrom > 0 then recvfrom else -1), [some (timevalOf timeoutMs)])

/-- `HAL_UDP_send`. -/
def halUdpSend (timeoutMs : UInt32) (select : Ret) (send : Int32) : Int32 × List (Option Timeval) :=
  (afterSelect select 0 send, [some (timevalOf timeoutMs)])

/-- `HAL_UDP_sendto`, the address of `p_remote` being found if `found`. -/
def halUdpSendto (found : Bool) (timeoutMs : UInt32) (select : Ret) (sendto : Int32) :
    Int32 × List (Option Timeval) :=
  if !found then (-1, [])
  else (afterSelect select 0 (if sendto > 0 then sendto else -1), [some (timevalOf timeoutMs)])

end Linkkit.Impl.Wait
