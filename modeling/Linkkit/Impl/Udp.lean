import Linkkit.Framework.Inet
import Linkkit.Impl.Net

/-!
# UDP of the HAL wrappers

`HAL_UDP_create_without_connect`, `HAL_UDP_joinmulticast`,
`HAL_UDP_close_without_connect`, `HAL_UDP_recvfrom` and `HAL_UDP_sendto` of
`Vendors/ubuntu/wrapper.c` and `Vendors/Jabsco/wrapper.c`, and of the second also
`HAL_UDP_connect`, `HAL_UDP_close` and the calls that send to a peer and receive
from it. The two wrappers differ in the options that the first sets.

What the kernel answers is an argument, and so is what `gethostbyname` finds.
`intptr_t` is `Int64`; the host is little-endian. A function has no value if it
would leave an array, such as the `fd_set` of `select`. How long `select` may
wait is in `Linkkit.Impl.Wait`.
-/

namespace Linkkit.Impl.Udp

open Net

/-! ## Addresses -/

/-- `htons`, and `ntohs`. -/
def htons (x : UInt16) : UInt16 := x <<< 8 ||| x >>> 8

/-- `struct sockaddr_in`, the port in the order of the network. -/
structure SockaddrIn where
  sinAddr : InAddr
  sinPort : UInt16
deriving DecidableEq

/-- `NETWORK_ADDR_LEN`. -/
abbrev networkAddrLen : Nat := 16

/-- `NetworkAddr`. -/
structure NetworkAddr where
  addr : Buf networkAddrLen
  port : UInt16
deriving DecidableEq

/-- `inet_aton (host, &in)`, and `gethostbyname (host)` if that fails. -/
def resolve (gethostbyname : List Byte → Option InAddr) (host : List Byte) : Option InAddr :=
  match inetAton host with
  | some ip => some ip
  | none => gethostbyname host

/-- The address that a socket is bound to for `host`. -/
def bindAddr (gethostbyname : List Byte → Option InAddr) : Option CString → Option InAddr
  | none => some .any
  | some host => resolve gethostbyname host.bytes

/-- `inet_addr`; `INADDR_NONE` if the text is no address. -/
def inetAddr (cp : List Byte) : InAddr := (inetAton cp).getD ⟨255, 255, 255, 255⟩

/-! ## Sockets -/

/-- `SO_REUSEADDR`. -/
abbrev soReuseaddr : Int32 := 2
/-- `SO_BROADCAST`. -/
abbrev soBroadcast : Int32 := 6

/-- What the kernel keeps of a socket. -/
structure Sock where
  reuseaddr : Bool := false
  broadcast : Bool := false
  multicastLoop : Bool := true
  bound : Option SockaddrIn := none
  peer : Option SockaddrIn := none
  groups : List InAddr := []
deriving DecidableEq

/-- An address to connect a socket to, and the one that the kernel takes for the
socket's own then. -/
structure Route where
  peer : SockaddrIn
  source : SockaddrIn
deriving DecidableEq

/-- A socket after `connect`, which binds it unless it is bound, and gives it an
address unless it has one. -/
def Sock.connect (s : Sock) (route : Route) : Sock :=
  { s with
    peer := some route.peer
    bound := some (match s.bound with
      | none => route.source
      | some own => if own.sinAddr = .any then { own with sinAddr := route.source.sinAddr } else own) }

/-- A socket after `setsockopt (.., SOL_SOCKET, optname, 1)`. -/
def Sock.setsockopt (s : Sock) (optname : Int32) : Sock :=
  if optname = soReuseaddr then { s with reuseaddr := true }
  else if optname = soBroadcast then { s with broadcast := true }
  else s

/-- The sockets of the process; what is set of a socket takes the place of a
peer in the table of descriptors. -/
abbrev Socks := Fds Sock

/-- The socket that a descriptor is open for. -/
def Socks.sock (socks : Socks) (fd : Int32) : Sock := ((socks fd).getD none).getD {}

/-- A call that changes the socket of an open descriptor. -/
def Socks.set (socks : Socks) (fd : Int32) (f : Sock → Sock) : Socks := socks.connect fd (f (socks.sock fd))

/-- What the kernel answers in `HAL_UDP_create_without_connect`, `setsockopt`
for each option. -/
structure CreateSys where
  socket : Int32
  setsockopt : Int32 → Int32
  gethostbyname : List Byte → Option InAddr
  bind : Int32

/-- The calls of `setsockopt`, up to the first that fails. -/
def setOptions (setsockopt : Int32 → Int32) (fd : Int32) : List Int32 → Socks → Option Socks
  | [], socks => some socks
  | optname :: rest, socks =>
    if 0 ≠ setsockopt optname then none
    else setOptions setsockopt fd rest (socks.set fd (·.setsockopt optname))

/-- `HAL_UDP_create_without_connect`, setting `options`. -/
def createWithoutConnect (options : List Int32) (sys : CreateSys) (host : Option CString) (port : UInt16)
    (socks : Socks) : Option (Int64 × Socks) :=
  let sockfd := sys.socket
  if sockfd < 0 then some (-1, socks)
  else do
    let socks ← socks.opens sockfd
    if 0 = port then return (sockfd.toInt64, socks)
    match setOptions sys.setsockopt sockfd options socks with
    | none => return (-1, socks.close sockfd)
    | some socks =>
      match bindAddr sys.gethostbyname host with
      | none => return (-1, socks.close sockfd)
      | some ip =>
        if -1 = sys.bind then return (-1, socks.close sockfd)
        else return (sockfd.toInt64, socks.set sockfd fun s => { s with bound := some ⟨ip, htons port⟩ })

/-- `HAL_UDP_create_without_connect` of `Vendors/ubuntu`: one call, of
`SO_REUSEADDR | SO_BROADCAST`. -/
def Ubuntu.halUdpCreateWithoutConnect : CreateSys → Option CString → UInt16 → Socks → Option (Int64 × Socks) :=
  createWithoutConnect [soReuseaddr ||| soBroadcast]

/-- `HAL_UDP_create_without_connect` of `Vendors/Jabsco`. -/
def Jabsco.halUdpCreateWithoutConnect : CreateSys → Option CString → UInt16 → Socks → Option (Int64 × Socks) :=
  createWithoutConnect [soBroadcast, soReuseaddr]

/-- The loop of `HAL_UDP_connect`: whether an address is connected. -/
def connectLoop (fd : Int32) : List (AddrInfo Route) → Socks → Int32 × Socks
  | [], socks => (-1, socks)
  | ainfo :: next, socks =>
    if ainfo.aiFamily = afInet ∧ ainfo.connect = 0 ∧ socks.IsOpen fd then
      (0, socks.set fd (·.connect ainfo.aiAddr))
    else connectLoop fd next socks

/-- `HAL_UDP_connect`, `getaddrinfo` giving `res` or failing. -/
def halUdpConnect (sockfd : Int64) (host : Option CString) (res : Option (AddrList Route)) (socks : Socks) :
    Int32 × Socks :=
  match host, res with
  | some _, some res => connectLoop sockfd.toInt32 res.toList socks
  | _, _ => (-1, socks)

/-- `HAL_UDP_joinmulticast`, the calls of `setsockopt` returning `loop` and
`join` if the descriptor is open. -/
def halUdpJoinmulticast (sockfd : Int64) (pGroup : Option CString) (loop join : Int32) (socks : Socks) :
    Int32 × Socks :=
  let fd := sockfd.toInt32
  match pGroup with
  | none => (-1, socks)
  | some pGroup =>
    if ¬ socks.IsOpen fd then (-1, socks)
    else if loop < 0 then (loop, socks)
    else
      let socks := socks.set fd fun s => { s with multicastLoop := false }
      if join < 0 then (join, socks)
      else (0, socks.set fd fun s => { s with groups := s.groups ++ [inetAddr pGroup.bytes] })

/-- `HAL_UDP_close_without_connect`; `HAL_UDP_close` is the same without a
result. -/
def halUdpCloseWithoutConnect (sockfd : Int64) (socks : Socks) : Int32 × Socks :=
  if socks.IsOpen sockfd.toInt32 then (0, socks.close sockfd.toInt32) else (-1, socks)

/-! ## Datagrams -/

/-- A datagram in the queue of a socket. -/
structure Dgram where
  src : SockaddrIn
  payload : List Byte
deriving DecidableEq

/-- The largest payload of a datagram; the kernel refuses a larger one. -/
abbrev maxPayload : Nat := 65507

/-- `FD_SET` stays inside the set. -/
def InFdSet (sockfd : Int64) : Prop := 0 ≤ sockfd ∧ sockfd < 1024

instance (sockfd : Int64) : Decidable (InFdSet sockfd) := inferInstanceAs (Decidable (_ ∧ _))

/-- What a call returns after `select`, unless the socket is ready. -/
def notReady (select : Ret) : Option Int32 :=
  if select.val = 0 then some 0
  else if select.val < 0 then (if select.errno = eintr then some (-3) else some (-4))
  else none

/-- `p_remote` with the address of a sender. -/
def NetworkAddr.fill (r : NetworkAddr) (src : SockaddrIn) : Option NetworkAddr := do
  let text := inetNtoa src.sinAddr ++ [0]
  let addr ← r.addr.memcpy 0 text text.length
  return { addr, port := htons src.sinPort }

/-- What a receiving call returns and leaves behind pointers. -/
structure Received where
  ret : Int32
  pRemote : Option NetworkAddr
  pData : List Byte
deriving DecidableEq

/-- `HAL_UDP_recvfrom`, `recvfrom` giving a datagram or failing. -/
def halUdpRecvfrom (sockfd : Int64) (pRemote : Option NetworkAddr) (pData : List Byte) (datalen : UInt32)
    (select : Ret) (recvfrom : Option Dgram) : Option Received :=
  if ¬ InFdSet sockfd then none
  else match notReady select with
    | some ret => some ⟨ret, pRemote, pData⟩
    | none =>
      match recvfrom with
      | none => some ⟨-1, pRemote, pData⟩
      | some d => do
        let bytes := d.payload.take datalen.toNat
        let pData ← memcpy pData 0 bytes bytes.length
        let ret := Int32.ofNat bytes.length
        if ret > 0 then
          match pRemote with
          | none => return ⟨ret, none, pData⟩
          | some r => return ⟨ret, some (← r.fill d.src), pData⟩
        else return ⟨-1, pRemote, pData⟩

/-- `HAL_UDP_sendto`, the kernel accepting a datagram or not: what it returns,
and the datagram it has sent, with its destination. -/
def halUdpSendto (gethostbyname : List Byte → Option InAddr) (sockfd : Int64) (pRemote : NetworkAddr)
    (pData : List Byte) (datalen : UInt32) (select : Ret) (accepts : Bool) :
    Option (Int32 × Option (SockaddrIn × List Byte)) := do
  let n ← strlen pRemote.addr.bytes
  match resolve gethostbyname (pRemote.addr.bytes.take n) with
  | none => return (-1, none)
  | some ip =>
    if ¬ InFdSet sockfd then none
    else match notReady select with
      | some ret => return (ret, none)
      | none =>
        if datalen.toNat ≤ maxPayload ∧ accepts then
          if pData.length < datalen.toNat then none
          else
            let ret := Int32.ofNat datalen.toNat
            return (if ret > 0 then ret else -1, some (⟨ip, htons pRemote.port⟩, pData.take datalen.toNat))
        else return (-1, none)

/-! ### Datagrams to and from a peer -/

/-- `send`, of a kernel that accepts the datagram or not: what it returns, and the
datagram, with its destination. -/
def sysSend (fd : Int32) (pData : List Byte) (datalen : UInt32) (accepts : Bool) (socks : Socks) :
    Option (Int32 × Option (SockaddrIn × List Byte)) :=
  match (socks.sock fd).peer with
  | none => some (-1, none)
  | some dst =>
    if datalen.toNat ≤ maxPayload ∧ accepts then
      if pData.length < datalen.toNat then none
      else some (Int32.ofNat datalen.toNat, some (dst, pData.take datalen.toNat))
    else some (-1, none)

/-- `HAL_UDP_write`. -/
def halUdpWrite (pSocket : Int64) (pData : List Byte) (datalen : UInt32) (accepts : Bool) (socks : Socks) :
    Option (Int32 × Option (SockaddrIn × List Byte)) := do
  let (rc, out) ← sysSend pSocket.toInt32 pData datalen accepts socks
  return if -1 = rc then (-1, out) else (rc, out)

/-- `HAL_UDP_send`. -/
def halUdpSend (sockfd : Int64) (pData : List Byte) (datalen : UInt32) (select : Ret) (accepts : Bool)
    (socks : Socks) : Option (Int32 × Option (SockaddrIn × List Byte)) :=
  if ¬ InFdSet sockfd then none
  else match notReady select with
    | some ret => some (ret, none)
    | none => sysSend sockfd.toInt32 pData datalen accepts socks

/-- What a call that reads returns, and the buffer and the datagrams of the socket
after it. -/
structure Got where
  ret : Int32
  pData : Option (List Byte)
  queue : List Dgram
deriving DecidableEq

/-- `read`, failing or of the first datagram; it does not return while there is
none. -/
def sysRead (pData : List Byte) (datalen : UInt32) (fails : Bool) (queue : List Dgram) : Option Got :=
  if fails then some ⟨-1, some pData, queue⟩
  else match queue with
    | [] => none
    | d :: queue => do
      let bytes := d.payload.take datalen.toNat
      let pData ← memcpy pData 0 bytes bytes.length
      return ⟨Int32.ofNat bytes.length, some pData, queue⟩

/-- `HAL_UDP_read`. -/
def halUdpRead (pSocket : Int64) (pData : Option (List Byte)) (datalen : UInt32) (fails : Bool)
    (queue : List Dgram) : Option Got :=
  match pData with
  | none => some ⟨-1, pData, queue⟩
  | some data => if 0 = pSocket then some ⟨-1, pData, queue⟩ else sysRead data datalen fails queue

/-- `HAL_UDP_readTimeout`. -/
def halUdpReadTimeout (pSocket : Int64) (pData : Option (List Byte)) (datalen : UInt32) (select : Ret)
    (fails : Bool) (queue : List Dgram) : Option Got :=
  if 0 = pSocket ∨ pData = none then some ⟨-1, pData, queue⟩
  else if pSocket < 0 then some ⟨-1, pData, queue⟩
  else if ¬ InFdSet pSocket then none
  else if select.val = 0 then some ⟨-2, pData, queue⟩
  else if select.val < 0 then (if select.errno = eintr then some ⟨-3, pData, queue⟩ else some ⟨-4, pData, queue⟩)
  else halUdpRead pSocket pData datalen fails queue

/-- `HAL_UDP_recv`. -/
def halUdpRecv (sockfd : Int64) (pData : List Byte) (datalen : UInt32) (select : Ret) (fails : Bool)
    (queue : List Dgram) : Option Got :=
  if ¬ InFdSet sockfd then none
  else match notReady select with
    | some ret => some ⟨ret, some pData, queue⟩
    | none => sysRead pData datalen fails queue

end Linkkit.Impl.Udp
