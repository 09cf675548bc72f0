import Linkkit.Framework.Machine
import Linkkit.Impl.Net

/-!
# What the TCP and UDP calls promise

What `HAL_TCP_Establish` returns (`FirstOrNone`); runs of it and of
`HAL_TCP_Destroy` (`Call`, `step`), after which the descriptors they opened and
have not closed are the handles the caller still holds (`Released`); what `HAL_UDP_create` returns (`LiveOrError`);
when a call that `HAL_TCP_Write` makes has failed (`Fails`); and what the values
that `HAL_TCP_Read` returns for no bytes say (`Truthful`).
-/

namespace Linkkit.Spec.Net

open Impl.Net

variable {α : Type*}

/-! ## Connections -/

/-- An IPv4 address for which `socket` and `connect` succeed. -/
def Connects (a : AddrInfo α) : Prop := a.aiFamily = afInet ∧ ¬ a.socket < 0 ∧ a.connect = 0

instance (a : AddrInfo α) : Decidable (Connects a) := inferInstanceAs (Decidable (_ ∧ _))

/-- The kernel opens no number that is open. -/
def Fresh (fds : Fds α) (l : List (AddrInfo α)) : Prop :=
  ∀ a ∈ l, a.aiFamily = afInet → ¬ a.socket < 0 → ¬ fds.IsOpen a.socket

/-- What is promised of the value `ret` that `HAL_TCP_Establish` returns for
the addresses `l`, and of the descriptors before and after it. -/
structure FirstOrNone (l : List (AddrInfo α)) (fds : Fds α) (ret : UInt64) (fds' : Fds α) : Prop where
  /-- The descriptor of the first address that connects was not open before,
  is returned, and is all that is opened. -/
  first : ∀ a, l.find? (Connects ·) = some a → ret = toUintptr a.socket ∧ ret ≠ toUintptr (-1) ∧
    ¬ fds.IsOpen a.socket ∧ fds' = fds.connect a.socket a.aiAddr
  /-- If no address connects the value is -1, and nothing is opened. -/
  none : (∀ a ∈ l, ¬ Connects a) → ret = toUintptr (-1) ∧ fds' = fds

/-- A call, with what the kernel answers in it. -/
inductive Call (α : Type*) where
  | establish (addrs : Option (AddrList α))
  | destroy (fd : UInt64) (shutdown : Int32)

/-- What a call returns. -/
inductive Reply where
  | establish (ret : UInt64)
  | destroy (ret : Int32)
deriving DecidableEq

/-- The descriptors that the calls opened, and the handles that `Establish`
returned and that were not passed to `Destroy` yet. -/
structure Tcp (α : Type*) where
  fds : Fds α
  held : List UInt64

/-- A call; `Destroy` is called with a handle that is held, and `socket`
returns no number that is open. -/
def step (s : Tcp α) : Call α → Option (Tcp α × Reply)
  | .establish addrs => do
    let (ret, fds) ← halTcpEstablish addrs s.fds
    return (⟨fds, if ret = toUintptr (-1) then s.held else ret :: s.held⟩, .establish ret)
  | .destroy fd shutdown =>
    if fd ∈ s.held then
      some (⟨(halTcpDestroy shutdown s.fds fd).2, s.held.erase fd⟩,
        .destroy (halTcpDestroy shutdown s.fds fd).1)
    else none

/-- No connection. -/
def noConnection : Tcp α := ⟨.none, []⟩

/-- The open descriptors are those of the handles that are held. -/
def Released (s : Tcp α) : Prop := ∀ fd, s.fds.IsOpen fd ↔ ∃ h ∈ s.held, toInt h = fd

/-- `shutdown` succeeds in a `Destroy`. -/
def Call.ShutsDown : Call α → Prop
  | establish _ => True
  | destroy _ shutdown => shutdown = 0

/-! ## UDP -/

/-- The last IPv4 address. -/
def lastInet (l : List (AddrInfo α)) : Option (AddrInfo α) :=
  (l.filter fun a => a.aiFamily = afInet).getLast?

/-- What is promised of the value `ret` that `HAL_UDP_create` returns for the
addresses `l`, and of the descriptors before and after it. -/
structure LiveOrError (l : List (AddrInfo α)) (fds : Fds α) (ret : Int64) (fds' : Fds α) : Prop where
  /-- A value that is not negative is a descriptor that was not open before, and
  is now, connected to one of the IPv4 addresses. -/
  live : 0 ≤ ret → ∃ a ∈ l, a.aiFamily = afInet ∧ ∃ fd : Int32, ret = fd.toInt64 ∧
    ¬ fds.IsOpen fd ∧ fds' fd = some (some a.aiAddr)
  /-- If no address can be connected the value is negative. -/
  error : (∀ a ∈ l, ¬ Connects a) → ret < 0
  /-- Every other descriptor is as it was. -/
  closed : ∀ fd : Int32, ret ≠ fd.toInt64 → fds' fd = fds fd

/-! ## Reading and writing -/

/-- A call fails, and not because a signal interrupted it. -/
def Fails (r : Ret) : Prop := r.val < 0 ∧ r.errno ≠ eintr

instance (r : Ret) : Decidable (Fails r) := inferInstanceAs (Decidable (_ ∧ _))

/-- The turns that `HAL_TCP_Read` makes, each with the variables before it. -/
def readSteps (fd : UInt64) (buf : List Byte) (len timeoutMs : UInt32) (now : UInt64) (turns : List ReadTurn) :
    List (ReadTurn × ReadState) :=
  if fd ≥ fdSetsize then [] else steps (readTurn len (now + timeoutMs.toUInt64)) turns ⟨buf, 0, 0, []⟩

/-- The turns that `HAL_TCP_Write` makes, each with the variables before it. -/
def writeSteps (fd : UInt64) (buf : List Byte) (len timeoutMs : UInt32) (now : UInt64) (turns : List WriteTurn) :
    List (WriteTurn × WriteState) :=
  if fd ≥ fdSetsize then [] else steps (writeTurn buf len (now + timeoutMs.toUInt64)) turns ⟨0, 1, 0, [], []⟩

/-- `send` is called in a turn: `select` finds the socket ready, or no time is left
and `ret` is positive, as at first and after a call that gave something. -/
def Sends (tEnd : UInt64) (p : WriteTurn × WriteState) : Prop :=
  if linuxTimeLeft tEnd p.1.now ≠ 0 then p.1.select.val > 0 ∧ p.1.isSet = true else p.2.ret > 0

instance (tEnd : UInt64) (p : WriteTurn × WriteState) : Decidable (Sends tEnd p) :=
  inferInstanceAs (Decidable (if linuxTimeLeft tEnd p.1.now ≠ 0 then p.1.select.val > 0 ∧ p.1.isSet = true
    else p.2.ret > 0))

/-- The number of bytes that `send` takes in a turn, of those that are left. -/
def sendCount (len : UInt32) (p : WriteTurn × WriteState) : Nat :=
  min p.1.send.val.toInt.toNat (len - p.2.lenSent).toNat

/-- The bytes that the socket accepts in a turn. -/
def writeAccepts (buf : List Byte) (len : UInt32) (tEnd : UInt64) (p : WriteTurn × WriteState) : List Byte :=
  if Sends tEnd p then slice buf p.2.lenSent.toNat (sendCount len p) else []

/-- What `select` and `send` return in a turn, as far as they are called. -/
def writeReturns (len : UInt32) (tEnd : UInt64) (p : WriteTurn × WriteState) : List Ret :=
  (if linuxTimeLeft tEnd p.1.now ≠ 0 then [p.1.select] else []) ++
    if Sends tEnd p then
      [⟨if p.1.send.val > 0 then Int32.ofNat (sendCount len p) else p.1.send.val, p.1.send.errno⟩]
    else []

/-- The bytes that `recv` is asked for in a turn. -/
def asked (len : UInt32) (p : ReadTurn × ReadState) : Nat := (len - p.2.lenRecv).toNat

/-- `recv` is called in a turn: time is left and `select` finds the socket
ready. -/
def Receives (tEnd : UInt64) (p : ReadTurn × ReadState) : Prop :=
  linuxTimeLeft tEnd p.1.now ≠ 0 ∧ p.1.select.val > 0

/-- The peer has closed the stream: `recv` returns 0 for a byte or more. -/
def SeesClose (len : UInt32) (tEnd : UInt64) (p : ReadTurn × ReadState) : Prop :=
  Receives tEnd p ∧ 0 < asked len p ∧ (p.1.recv.ret (asked len p)).val = 0

/-- `select` or `recv` fails. -/
def SeesFailure (len : UInt32) (tEnd : UInt64) (p : ReadTurn × ReadState) : Prop :=
  linuxTimeLeft tEnd p.1.now ≠ 0 ∧ Fails p.1.select ∨ Receives tEnd p ∧ Fails (p.1.recv.ret (asked len p))

/-- The deadline has passed, or `select` times out. -/
def RunsOut (tEnd : UInt64) (p : ReadTurn × ReadState) : Prop :=
  linuxTimeLeft tEnd p.1.now = 0 ∨ p.1.select.val = 0

/-- What is promised of the value `ret` that `HAL_TCP_Read` returns after the
turns `made`. -/
structure Truthful (len : UInt32) (tEnd : UInt64) (made : List (ReadTurn × ReadState)) (ret : Int32) : Prop where
  closed : ret = -1 → ∃ p ∈ made, SeesClose len tEnd p
  failed : ret = -2 → ∃ p ∈ made, SeesFailure len tEnd p
  nothing : ret = 0 → (len = 0 ∨ ∃ p ∈ made, RunsOut tEnd p) ∧
    ∀ p ∈ made, ¬ SeesClose len tEnd p ∧ ¬ SeesFailure len tEnd p

/-- `recv` returns 0 when it is asked for nothing. -/
def AsksNothing (len : UInt32) (tEnd : UInt64) (p : ReadTurn × ReadState) : Prop :=
  Receives tEnd p ∧ asked len p = 0 ∧ (p.1.recv.ret 0).val = 0

instance (tEnd : UInt64) (p : ReadTurn × ReadState) : Decidable (Receives tEnd p) :=
  inferInstanceAs (Decidable (_ ∧ _))

/-- The bytes that the socket delivers in the turns `made`. -/
def delivered (len : UInt32) (tEnd : UInt64) (made : List (ReadTurn × ReadState)) : List Byte :=
  made.flatMap fun p => if Receives tEnd p then p.1.recv.delivered (asked len p) else []

/-- No `recv` transfers more than Linux does in one call. -/
def Transfers (turns : List ReadTurn) : Prop := ∀ turn ∈ turns, ∀ n, (turn.recv.delivered n).length ≤ 0x7ffff000

/-- The number of bytes delivered is not one of an error. -/
structure Countable (len : UInt32) (tEnd : UInt64) (made : List (ReadTurn × ReadState)) : Prop where
  one : (delivered len tEnd made).length ≠ 0xffffffff
  two : (delivered len tEnd made).length = 0xfffffffe → ∃ p ∈ made, SeesFailure len tEnd p

end Linkkit.Spec.Net
