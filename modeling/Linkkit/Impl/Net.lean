import Linkkit.Framework.Buf
import Linkkit.Framework.Descriptors
import Linkkit.Framework.Loop

/-!
# TCP and UDP of the HAL wrappers

`HAL_TCP_Establish`, `HAL_TCP_Destroy`, `HAL_TCP_Read` and `HAL_TCP_Write` of
`Vendors/ubuntu/wrapper.c` and `Vendors/Jabsco/wrapper.c`, which have the same
code for them, and `HAL_UDP_create` of the second.

What the kernel answers is an argument: the addresses `getaddrinfo` lists, each
with what `socket` and `connect` return for it, and for a loop the list of what
its calls return turn by turn. `int` is `Int32`, `uintptr_t` `UInt64`. Printing
is left out, and so are host and port where they only reach `getaddrinfo`.
-/

namespace Linkkit.Impl.Net

/-- `AF_INET`. -/
abbrev afInet : Int32 := 2
/-- `EINTR`. -/
abbrev eintr : Int32 := 4
/-- `FD_SETSIZE`. -/
abbrev fdSetsize : UInt64 := 1024

/-- `(uintptr_t)` of an `int`. -/
def toUintptr (x : Int32) : UInt64 := x.toInt64.toUInt64

/-- `(int)` of a `uintptr_t`. -/
def toInt (x : UInt64) : Int32 := x.toUInt32.toInt32

/-! ## Descriptors -/

section

variable {α : Type*}

/-- The descriptors of the process. -/
abbrev Fds (α : Type*) := Descriptors Int32 α

/-- A `struct addrinfo`, and what `socket` and `connect` return for it. -/
structure AddrInfo (α : Type*) where
  aiFamily : Int32
  aiAddr : α
  socket : Int32
  connect : Int32

/-- The list that `getaddrinfo` gives when it succeeds; it is not empty. -/
structure AddrList (α : Type*) where
  first : AddrInfo α
  aiNext : List (AddrInfo α)

/-- The addresses in order. -/
def AddrList.toList (l : AddrList α) : List (AddrInfo α) := l.first :: l.aiNext

/-- The loop of `HAL_TCP_Establish`: `rc` and the descriptors after it. -/
def establishLoop : List (AddrInfo α) → Fds α → Int32 → Option (Int32 × Fds α)
  | [], fds, rc => some (rc, fds)
  | cur :: next, fds, _ =>
    if cur.aiFamily ≠ afInet then establishLoop next fds (-1)
    else if cur.socket < 0 then establishLoop next fds (-1)
    else do
      let fds ← fds.opens cur.socket
      if cur.connect = 0 then return (cur.socket, fds.connect cur.socket cur.aiAddr)
      else establishLoop next (fds.close cur.socket) (-1)

/-- `HAL_TCP_Establish`, `getaddrinfo` giving `addrs` or failing. -/
def halTcpEstablish (addrs : Option (AddrList α)) (fds : Fds α) : Option (UInt64 × Fds α) :=
  match addrs with
  | none => some (toUintptr (-1), fds)
  | some addrs => do
    let (rc, fds) ← establishLoop addrs.toList fds 0
    return (toUintptr rc, fds)

/-- `HAL_TCP_Destroy`, `shutdown` returning as given; `close` succeeds on an
open descriptor. -/
def halTcpDestroy (shutdown : Int32) (fds : Fds α) (fd : UInt64) : Int32 × Fds α :=
  if shutdown ≠ 0 then (-1, fds)
  else if fds.IsOpen (toInt fd) then (0, fds.close (toInt fd))
  else (-1, fds)

/-- The loop of `HAL_UDP_create`: `socket_id` and the descriptors after it. -/
def udpCreateLoop : List (AddrInfo α) → Fds α → Int32 → Option (Int32 × Fds α)
  | [], fds, socketId => some (socketId, fds)
  | ainfo :: next, fds, socketId =>
    if ainfo.aiFamily = afInet then
      if ainfo.socket < 0 then udpCreateLoop next fds ainfo.socket
      else do
        let fds ← fds.opens ainfo.socket
        if ainfo.connect = 0 then return (ainfo.socket, fds.connect ainfo.socket ainfo.aiAddr)
        else udpCreateLoop next (fds.close ainfo.socket) ainfo.socket
    else udpCreateLoop next fds socketId

/-- `HAL_UDP_create`, `getaddrinfo` giving `res` or failing. -/
def halUdpCreate (host : Option CString) (res : Option (AddrList α)) (fds : Fds α) :
    Option (Int64 × Fds α) :=
  match host, res with
  | some _, some res => do
    let (socketId, fds) ← udpCreateLoop res.toList fds (-1)
    return (socketId.toInt64, fds)
  | _, _ => some (-1, fds)

end

/-! ## Reading and writing -/

/-- `_linux_time_left`. -/
def linuxTimeLeft (tEnd tNow : UInt64) : UInt64 := if tEnd > tNow then tEnd - tNow else 0

/-- `struct timeval`. -/
structure Timeval where
  tvSec : Int
  tvUsec : Int
deriving DecidableEq

/-- `_linux_get_time_ms`, `gettimeofday` giving `tv`. -/
def linuxGetTimeMs (tv : Timeval) : UInt64 := UInt64.ofInt (tv.tvSec * 1000 + tv.tvUsec.tdiv 1000)

/-- The `timeout` given to `select` by a turn of `HAL_TCP_Read` or
`HAL_TCP_Write`, if time is left. -/
def selectTimeout (tEnd tNow : UInt64) : Option Timeval :=
  let tLeft := linuxTimeLeft tEnd tNow
  if 0 = tLeft then none else some ⟨(tLeft / 1000).toNat, ((tLeft % 1000) * 1000).toNat⟩

/-- What a system call returns, and `errno` after it. -/
structure Ret where
  val : Int32
  errno : Int32
deriving DecidableEq

/-- Where the code goes next: on to the code that follows, to the test of the
loop (`continue`), or out of the loop (`break`). -/
inductive Flow where
  | on
  | test
  | out
deriving DecidableEq

/-- The answers of a turn of the loop of `HAL_TCP_Write`: the clock, `select`
and `FD_ISSET`, `send`, and the clock in the test of the loop. -/
structure WriteTurn where
  now : UInt64
  select : Ret
  isSet : Bool
  send : Ret
  nowAfter : UInt64

/-- The variables of `HAL_TCP_Write`; with the bytes that the socket accepted,
and what `select` and `send` returned, in order. -/
structure WriteState where
  lenSent : UInt32
  ret : Int32
  netErr : Int32
  accepted : List Byte
  returned : List Ret

/-- `ret = send (tcp_fd, buf + len_sent, len - len_sent, 0)`: the socket accepts
at most the bytes it is given. -/
def WriteState.send (s : WriteState) (buf : List Byte) (len : UInt32) (r : Ret) : WriteState :=
  let n := min r.val.toInt.toNat (len - s.lenSent).toNat
  let val := if r.val > 0 then Int32.ofNat n else r.val
  { s with
    ret := val
    accepted := s.accepted ++ slice buf s.lenSent.toNat n
    returned := s.returned ++ [⟨val, r.errno⟩] }

/-- The code of a turn of `HAL_TCP_Write` that waits for the socket. -/
def writeSelect (turn : WriteTurn) (s : WriteState) : Flow × WriteState :=
  let s := { s with ret := turn.select.val, returned := s.returned ++ [turn.select] }
  if s.ret > 0 then
    if !turn.isSet then (.test, { s with ret := 0 }) else (.on, s)
  else if s.ret = 0 then (.out, s)
  else if turn.select.errno = eintr then (.test, s)
  else (.out, { s with netErr := 1 })

/-- The code of a turn of `HAL_TCP_Write` that sends, if `ret` says so. -/
def writeSend (buf : List Byte) (len : UInt32) (turn : WriteTurn) (s : WriteState) : Flow × WriteState :=
  if s.ret > 0 then
    let s := s.send buf len turn.send
    if s.ret > 0 then (.on, { s with lenSent := s.lenSent + s.ret.toUInt32 })
    else if s.ret = 0 then (.on, s)
    else if turn.send.errno = eintr then (.test, s)
    else (.out, { s with netErr := 1 })
  else (.on, s)

/-- A turn of the loop of `HAL_TCP_Write`, and the loop's test. -/
def writeTurn (buf : List Byte) (len : UInt32) (tEnd : UInt64) (turn : WriteTurn) (s : WriteState) :
    Bool × WriteState :=
  let r := if linuxTimeLeft tEnd turn.now ≠ 0 then writeSelect turn s else (.on, s)
  let r := if r.1 = .on then writeSend buf len turn r.2 else r
  if r.1 = .out then (false, r.2)
  else (r.2.netErr = 0 ∧ r.2.lenSent < len ∧ linuxTimeLeft tEnd turn.nowAfter > 0, r.2)

/-- `HAL_TCP_Write`, the clock reading `now` first: what it returns, if its
loop ends with the answers of `turns`, and its variables then. -/
def halTcpWrite (fd : UInt64) (buf : List Byte) (len timeoutMs : UInt32) (now : UInt64)
    (turns : List WriteTurn) : Option Int32 × WriteState :=
  let tEnd := now + timeoutMs.toUInt64
  -- `ret` is 1 to send once if `timeout_ms` is 0
  let s : WriteState := { lenSent := 0, ret := 1, netErr := 0, accepted := [], returned := [] }
  if fd ≥ fdSetsize then (some (-1), s)
  else match loop (writeTurn buf len tEnd) turns s with
    | (false, s) => (none, s)
    | (true, s) => (some (if s.netErr ≠ 0 then -1 else s.lenSent.toInt32), s)

/-- What `recv` answers: bytes that have arrived, the end of the stream, or a
failure with an `errno`. -/
inductive Recv where
  | data (bytes : List Byte)
  | closed
  | fail (errno : Int32)

/-- The bytes that `recv` delivers, at most `n`. -/
def Recv.delivered (n : Nat) : Recv → List Byte
  | data bytes => bytes.take n
  | _ => []

/-- What `recv` returns. -/
def Recv.ret (n : Nat) : Recv → Ret
  | fail errno => ⟨-1, errno⟩
  | r => ⟨Int32.ofNat (r.delivered n).length, 0⟩

/-- The answers of a turn of the loop of `HAL_TCP_Read`. -/
structure ReadTurn where
  now : UInt64
  select : Ret
  recv : Recv

/-- The variables of `HAL_TCP_Read` and the caller's buffer; with the bytes
taken from the socket. -/
structure ReadState where
  buf : List Byte
  lenRecv : UInt32
  errCode : Int32
  taken : List Byte

/-- `recv (tcp_fd, buf + len_recv, len - len_recv, 0)`: what it stores. -/
def ReadState.recv (s : ReadState) (len : UInt32) (r : Recv) : ReadState :=
  let bytes := r.delivered (len - s.lenRecv).toNat
  { s with buf := splice s.buf s.lenRecv.toNat bytes, taken := s.taken ++ bytes }

/-- A turn of the loop of `HAL_TCP_Read`. -/
def readBody (len : UInt32) (tEnd : UInt64) (turn : ReadTurn) (s : ReadState) : Flow × ReadState :=
  if linuxTimeLeft tEnd turn.now = 0 then (.out, s)
  else if turn.select.val > 0 then
    let ret := turn.recv.ret (len - s.lenRecv).toNat
    let s := s.recv len turn.recv
    if ret.val > 0 then (.on, { s with lenRecv := s.lenRecv + ret.val.toUInt32 })
    else if ret.val = 0 then (.out, { s with errCode := -1 })
    else if ret.errno = eintr then (.test, s)
    else (.out, { s with errCode := -2 })
  else if turn.select.val = 0 then (.out, s)
  else if turn.select.errno = eintr then (.test, s)
  else (.out, { s with errCode := -2 })

/-- A turn of the loop of `HAL_TCP_Read`, and the loop's test. -/
def readTurn (len : UInt32) (tEnd : UInt64) (turn : ReadTurn) (s : ReadState) : Bool × ReadState :=
  let r := readBody len tEnd turn s
  if r.1 = .out then (false, r.2) else (r.2.lenRecv < len, r.2)

/-- `HAL_TCP_Read`, the clock reading `now` first: what it returns, if its loop
ends with the answers of `turns`, and its variables and the buffer then. -/
def halTcpRead (fd : UInt64) (buf : List Byte) (len timeoutMs : UInt32) (now : UInt64)
    (turns : List ReadTurn) : Option Int32 × ReadState :=
  let tEnd := now + timeoutMs.toUInt64
  let s : ReadState := { buf, lenRecv := 0, errCode := 0, taken := [] }
  if fd ≥ fdSetsize then (some (-1), s)
  else match loop (readTurn len tEnd) turns s with
    | (false, s) => (none, s)
    | (true, s) => (some (if s.lenRecv ≠ 0 then s.lenRecv else s.errCode.toUInt32).toInt32, s)

end Linkkit.Impl.Net
