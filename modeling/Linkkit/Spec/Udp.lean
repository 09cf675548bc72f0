import Linkkit.Impl.Udp
import Linkkit.Spec.Net
import Linkkit.Spec.Wait

/-!
# What the UDP calls promise

Runs of the calls that open, set and close sockets (`Call`, `step`), after which
the open sockets are those of the handles that the caller holds (`Owned`), each
connected to what was chosen last (`Chooses`); and runs of `HAL_UDP_sendto` and
`HAL_UDP_recvfrom` of any number of parties over a network that may lose, repeat
and reorder datagrams (`World`, `move`).
-/

namespace Linkkit.Spec.Udp

open Impl.Net Impl.Udp Spec.Net
open Spec.Wait (Port)

/-! ## Sockets -/

/-- A call, with what the kernel answers in it. -/
inductive Call where
  | create (host : Option CString) (res : Option (AddrList Route))
  | createWithoutConnect (port : Port) (sys : CreateSys) (host : Option CString) (p : UInt16)
  | connect (sockfd : Int64) (host : Option CString) (res : Option (AddrList Route))
  | joinmulticast (sockfd : Int64) (pGroup : Option CString) (loop join : Int32)
  | close (sockfd : Int64)

/-- What a call returns. -/
inductive Reply where
  | handle (ret : Int64)
  | ret (ret : Int32)
deriving DecidableEq

/-- The sockets, and the handles that were returned and not closed yet. -/
structure Sockets where
  socks : Socks
  held : List Int64

/-- No socket. -/
def noSocket : Sockets := ⟨.none, []⟩

/-- An address, with the socket that is connected to it. -/
def toSock (a : AddrInfo Route) : AddrInfo Sock := { a with aiAddr := Sock.connect {} a.aiAddr }

/-- `HAL_UDP_create`, on sockets. -/
def udpCreate (host : Option CString) (res : Option (AddrList Route)) (socks : Socks) : Option (Int64 × Socks) :=
  halUdpCreate host (res.map fun l => ⟨toSock l.first, l.aiNext.map toSock⟩) socks

/-- `HAL_UDP_create_without_connect` of one of the wrappers. -/
def udpCreateWithoutConnect : Port → CreateSys → Option CString → UInt16 → Socks → Option (Int64 × Socks)
  | .ubuntu => Ubuntu.halUdpCreateWithoutConnect
  | .jabsco => Jabsco.halUdpCreateWithoutConnect

/-- A handle that was returned is held unless it is negative. -/
def Sockets.hold (s : Sockets) (r : Int64 × Socks) : Sockets × Reply :=
  (⟨r.2, if r.1 < 0 then s.held else r.1 :: s.held⟩, .handle r.1)

/-- A call; all but the first two are given a handle that is held. -/
def step (s : Sockets) : Call → Option (Sockets × Reply)
  | .create host res => (udpCreate host res s.socks).map s.hold
  | .createWithoutConnect port sys host p => (udpCreateWithoutConnect port sys host p s.socks).map s.hold
  | .connect sockfd host res =>
    if sockfd ∈ s.held then
      let r := halUdpConnect sockfd host res s.socks
      some (⟨r.2, s.held⟩, .ret r.1)
    else none
  | .joinmulticast sockfd pGroup loop join =>
    if sockfd ∈ s.held then
      let r := halUdpJoinmulticast sockfd pGroup loop join s.socks
      some (⟨r.2, s.held⟩, .ret r.1)
    else none
  | .close sockfd =>
    if sockfd ∈ s.held then
      let r := halUdpCloseWithoutConnect sockfd s.socks
      some (⟨r.2, s.held.erase sockfd⟩, .ret r.1)
    else none

/-- The open sockets are those of the handles that are held. -/
def Owned (s : Sockets) : Prop := ∀ fd, s.socks.IsOpen fd ↔ ∃ h ∈ s.held, h.toInt32 = fd

/-- `HAL_UDP_create` does not end on an address whose socket it has closed: one
of the addresses connects, or `socket` fails for the last IPv4 address. -/
def Call.EndsLive : Call → Prop
  | create (some _) (some res) => (∃ a ∈ res.toList, Connects a) ∨ ∀ a, lastInet res.toList = some a → a.socket < 0
  | _ => True

/-- `a` is the address that a `HAL_UDP_create_without_connect` of `port`, which
returned the socket `fd`, was asked to bind it to. -/
def AskedFor (port : Port) (hist : List (Call × Reply)) (fd : Int32) (a : SockaddrIn) : Prop :=
  ∃ sys host p, (Call.createWithoutConnect port sys host p, Reply.handle fd.toInt64) ∈ hist ∧ p ≠ 0 ∧
    a.sinPort = htons p ∧ bindAddr sys.gethostbyname host = some a.sinAddr

/-- The socket has the port of `a`, and its address; or that of the route to its peer,
if every address would do. -/
def BoundTo (o : Sock) (a : SockaddrIn) : Prop :=
  ∃ own, o.bound = some own ∧ own.sinPort = a.sinPort ∧
    (own.sinAddr = a.sinAddr ∨ a.sinAddr = .any ∧ o.peer ≠ none)

/-- What is promised of the socket `o` of `fd` after a run of the calls of
`port`. -/
structure Configured (port : Port) (hist : List (Call × Reply)) (fd : Int32) (o : Sock) : Prop where
  /-- A socket that may broadcast is bound as was asked, and may share its address in
  `Vendors/Jabsco` only. -/
  asked : o.broadcast = true → (∃ a, AskedFor port hist fd a ∧ BoundTo o a) ∧ (o.reuseaddr = true ↔ port = .jabsco)
  /-- Another socket has neither option, and is bound exactly if it is connected. -/
  other : o.broadcast = false → o.reuseaddr = false ∧ (o.bound = none ↔ o.peer = none)

/-- The event connects the socket `fd` to `a`: the first of the addresses that a new
socket connects to, or that `connect` accepts. -/
def Chooses (fd : Int32) (a : SockaddrIn) : Call × Reply → Prop
  | (.create _ (some res), .handle ret) => ∃ ai, res.toList.find? (Connects ·) = some ai ∧ ret = ai.socket.toInt64 ∧
    ai.socket = fd ∧ ai.aiAddr.peer = a
  | (.connect sockfd _ (some res), .ret ret) => ret = 0 ∧ sockfd.toInt32 = fd ∧
    ∃ ai, res.toList.find? (fun ai => ai.aiFamily = afInet ∧ ai.connect = 0) = some ai ∧ ai.aiAddr.peer = a
  | _ => False

/-- The event returns the handle of the socket `fd`, or connects it. -/
def Renews (fd : Int32) : Call × Reply → Prop
  | (.create _ _, .handle ret) => ¬ ret < 0 ∧ ret = fd.toInt64
  | (.createWithoutConnect _ _ _ _, .handle ret) => ¬ ret < 0 ∧ ret = fd.toInt64
  | (.connect sockfd _ _, .ret ret) => ret = 0 ∧ sockfd.toInt32 = fd
  | _ => False

/-! ## Datagrams -/

/-- What was sent, each with its sender and its destination, and the queues of
the sockets, which are bound to an address each. -/
structure World where
  sent : List (SockaddrIn × SockaddrIn × List Byte)
  queue : SockaddrIn → List Dgram

/-- What happens: a call of the party whose socket is bound to `self`, or the
arrival of one of the datagrams that were sent. -/
inductive Move where
  | sendto (self : SockaddrIn) (sockfd : Int64) (pRemote : NetworkAddr) (pData : List Byte) (datalen : UInt32)
      (select : Ret) (accepts : Bool)
  | arrive (i : Nat)
  | recvfrom (self : SockaddrIn) (sockfd : Int64) (pRemote : Option NetworkAddr) (pData : List Byte)
      (datalen : UInt32) (select : Ret) (fails : Bool)

/-- What it gives: the datagram that was sent, if any, or what a call received. -/
inductive Outcome where
  | sent (ret : Int32) (dgram : Option (SockaddrIn × List Byte))
  | arrived (dst : SockaddrIn) (d : Dgram)
  | received (r : Received)
deriving DecidableEq

/-- The network: a datagram may arrive any number of times, or never. A socket
that is ready gives the first datagram of its queue, unless `recvfrom` fails; the
call does not return while there is none. -/
def move (gethostbyname : List Byte → Option InAddr) (w : World) : Move → Option (World × Outcome)
  | .sendto self sockfd pRemote pData datalen select accepts => do
    let (ret, out) ← halUdpSendto gethostbyname sockfd pRemote pData datalen select accepts
    return ({ w with sent := w.sent ++ out.toList.map (Prod.mk self) }, .sent ret out)
  | .arrive i => do
    let (src, dst, payload) ← w.sent[i]?
    return ({ w with queue := Function.update w.queue dst (w.queue dst ++ [⟨src, payload⟩]) },
      .arrived dst ⟨src, payload⟩)
  | .recvfrom self sockfd pRemote pData datalen select fails =>
    if (notReady select).isSome ∨ fails then
      (halUdpRecvfrom sockfd pRemote pData datalen select none).map fun r => (w, .received r)
    else
      match w.queue self with
      | [] => none
      | d :: q => (halUdpRecvfrom sockfd pRemote pData datalen select (some d)).map fun r =>
        ({ w with queue := Function.update w.queue self q }, .received r)

/-- An move and its outcome. -/
abbrev Event := Move × Outcome

/-- The party at `src` has sent `payload` to `dst`. -/
def Sends (src dst : SockaddrIn) (payload : List Byte) (e : Event) : Prop :=
  ∃ sockfd pRemote pData datalen select accepts ret,
    e = (.sendto src sockfd pRemote pData datalen select accepts, .sent ret (some (dst, payload)))

/-- `remote` names the socket at `src`: what `HAL_UDP_sendto` sends to it goes
there, as it is. -/
def Names (remote : NetworkAddr) (src : SockaddrIn) : Prop :=
  ∀ gethostbyname sockfd pData datalen select accepts ret dst payload,
    halUdpSendto gethostbyname sockfd remote pData datalen select accepts = some (ret, some (dst, payload)) →
      dst = src ∧ payload = pData.take datalen.toNat

/-- The datagram that has arrived at `dst`. -/
def arrivedAt (dst : SockaddrIn) : Event → Option Dgram
  | (_, .arrived dst' d) => if dst' = dst then some d else none
  | _ => none

/-- The bytes that a call at `self` has received. -/
def receivedAt (self : SockaddrIn) : Event → Option (List Byte)
  | (.recvfrom self' _ _ _ _ _ _, .received r) =>
    if self' = self ∧ r.ret > 0 then some (r.pData.take r.ret.toInt.toNat) else none
  | _ => none

end Linkkit.Spec.Udp
