import Linkkit.Spec.Udp

/-!
# Whom a socket talks to

Runs of the calls that open, connect and close sockets, interleaved with those that
send to a peer and receive from it, and with datagrams that anybody sends to the
sockets (`Move`, `talk`). The kernel keeps datagrams for an open socket, and if it is
connected only those of its peer. What is sent goes to the peer that was chosen last,
and what is received came from the one chosen when it arrived (`Faithful`).
-/

namespace Linkkit.Spec.Udp

open Impl.Net Impl.Udp

/-- The sockets, and the datagrams that each has not given yet. -/
structure Link where
  sockets : Sockets
  queue : Int32 → List Dgram

/-- A call, or the arrival of a datagram at a socket. -/
inductive LinkMove where
  | call (c : Call)
  | write (sockfd : Int64) (pData : List Byte) (datalen : UInt32) (accepts : Bool)
  | send (sockfd : Int64) (pData : List Byte) (datalen : UInt32) (select : Ret) (accepts : Bool)
  | arrive (fd : Int32) (d : Dgram)
  | read (sockfd : Int64) (pData : Option (List Byte)) (datalen : UInt32) (fails : Bool)
  | readTimeout (sockfd : Int64) (pData : Option (List Byte)) (datalen : UInt32) (select : Ret) (fails : Bool)
  | recv (sockfd : Int64) (pData : List Byte) (datalen : UInt32) (select : Ret) (fails : Bool)

/-- What it gives. -/
inductive LinkOutcome where
  | reply (r : Reply)
  | sent (ret : Int32) (dgram : Option (SockaddrIn × List Byte))
  | arrived
  | got (g : Got)
deriving DecidableEq

/-- A call that reads from `sockfd`. -/
def Link.gets (w : Link) (sockfd : Int64) (f : List Dgram → Option Got) : Option (Link × LinkOutcome) := do
  let fd := sockfd.toInt32
  let g ← f (w.queue fd)
  return ({ w with queue := Function.update w.queue fd g.queue }, .got g)

/-- A socket that was closed has no datagrams. -/
def talk (w : Link) : LinkMove → Option (Link × LinkOutcome)
  | .call c => do
    let (sockets, r) ← step w.sockets c
    return (⟨sockets, fun fd => if w.sockets.socks.IsOpen fd ∧ sockets.socks.IsOpen fd then w.queue fd else []⟩, .reply r)
  | .write sockfd pData datalen accepts =>
    (halUdpWrite sockfd pData datalen accepts w.sockets.socks).map fun r => (w, .sent r.1 r.2)
  | .send sockfd pData datalen select accepts =>
    (halUdpSend sockfd pData datalen select accepts w.sockets.socks).map fun r => (w, .sent r.1 r.2)
  | .arrive fd d =>
    if w.sockets.socks.IsOpen fd ∧ (∀ a ∈ (w.sockets.socks.sock fd).peer, d.src = a) ∧ d.payload.length ≤ maxPayload then
      some ({ w with queue := Function.update w.queue fd (w.queue fd ++ [d]) }, .arrived)
    else none
  | .read sockfd pData datalen fails => w.gets sockfd (halUdpRead sockfd pData datalen fails)
  | .readTimeout sockfd pData datalen select fails => w.gets sockfd (halUdpReadTimeout sockfd pData datalen select fails)
  | .recv sockfd pData datalen select fails => w.gets sockfd (halUdpRecv sockfd pData datalen select fails)

/-- A move and its outcome. -/
abbrev LinkEvent := LinkMove × LinkOutcome

/-- The calls that open, connect and close sockets. -/
def callsOf (hist : List LinkEvent) : List (Call × Reply) :=
  hist.filterMap fun
    | (.call c, .reply r) => some (c, r)
    | _ => none

/-- The last call that renewed the socket has chosen `a`. -/
def Chosen (hist : List LinkEvent) (fd : Int32) (a : SockaddrIn) : Prop :=
  Since (Chooses fd a) (fun e => ¬ Renews fd e) (callsOf hist)

/-- The event returns a new handle, of the socket `fd`. -/
def Opens (fd : Int32) : LinkEvent → Prop
  | (.call (.create _ _), .reply (.handle ret)) => ¬ ret < 0 ∧ ret = fd.toInt64
  | (.call (.createWithoutConnect _ _ _ _), .reply (.handle ret)) => ¬ ret < 0 ∧ ret = fd.toInt64
  | _ => False

/-- The datagram has arrived at the socket `fd`, which is still the same, from the
peer that was chosen then, if there was one. -/
def Arrived (hist : List LinkEvent) (fd : Int32) (d : Dgram) : Prop :=
  ∃ pre post, hist = pre ++ (.arrive fd d, .arrived) :: post ∧ (∀ a, Chosen pre fd a → d.src = a) ∧
    ∀ e ∈ post, ¬ Opens fd e

/-- What is promised of a call that reads into `pData`, after the events `pre`: the
bytes that it counts are the first of a datagram that has arrived, and the rest of the
buffer is as it was. -/
def Reads (pre : List LinkEvent) (sockfd : Int64) (pData : Option (List Byte)) (datalen : UInt32) (g : Got) : Prop :=
  0 < g.ret → ∃ d data, Arrived pre sockfd.toInt32 d ∧ pData = some data ∧
    g.ret.toInt = (d.payload.take datalen.toNat).length ∧
    g.pData = some (d.payload.take datalen.toNat ++ data.drop (d.payload.take datalen.toNat).length)

/-- What is promised of a call that sends `pData`: it goes to the peer that was chosen
last, and its length is returned; a call that sends nothing returns nothing positive. -/
def Writes (pre : List LinkEvent) (sockfd : Int64) (pData : List Byte) (datalen : UInt32) (ret : Int32) :
    Option (SockaddrIn × List Byte) → Prop
  | none => ¬ 0 < ret
  | some (dst, payload) => Chosen pre sockfd.toInt32 dst ∧ payload = pData.take datalen.toNat ∧
    ret.toInt = payload.length

end Linkkit.Spec.Udp
