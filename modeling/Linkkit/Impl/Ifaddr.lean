import Linkkit.Framework.Inet
import Linkkit.Framework.Search
import Linkkit.Impl.Net

/-!
# The addresses of an interface

`HAL_Wifi_Get_IP` of `Vendors/ubuntu/wrapper.c` and `Vendors/Jabsco/wrapper.c`,
with `_get_default_routing_ifname`, for which both have the same code, and
`HAL_Wifi_Get_Mac` and `HAL_Sys_Net_Is_Ready` of the first.

What the file `/proc/net/route` holds, what a command prints and what the kernel
answers are arguments.
Printing and `fclose` are left out. A function has no value if it would leave
an array.
-/

namespace Linkkit.Impl.Ifaddr

open Net

/-- `ROUTER_RECORD_SIZE`. -/
abbrev routerRecordSize : Nat := 256
/-- `IFNAMSIZ`. -/
abbrev ifnamsiz : Nat := 16
/-- `NETWORK_ADDR_LEN`. -/
abbrev networkAddrLen : Nat := 16

/-! ## The default route -/

/-- `"%s %08x %08x %x %d %d %d %08x %d %d %d"`. -/
def routeFormat : List Conv :=
  [.word, .int 16 (some 8), .int 16 (some 8), .int 16 none, .int 10 none, .int 10 none, .int 10 none,
    .int 16 (some 8), .int 10 none, .int 10 none, .int 10 none]

/-- The `sscanf` of a line: `iface` after it, and `destination` and `mask` if it
returns 11. -/
def scanRoute (iface : Buf ifnamsiz) (line : List Byte) : Option (Buf ifnamsiz × Option (UInt32 × UInt32)) := do
  let vs := sscanf routeFormat (line.takeWhile (· ≠ 0))
  let iface ← match vs with
    | .word w :: _ => iface.memcpy 0 (w ++ [0]) (w.length + 1)
    | _ => some iface
  return (iface, match vs with
    | [_, .int destination, _, _, _, _, _, .int mask, _, _, _] => some (UInt32.ofInt destination, UInt32.ofInt mask)
    | _ => none)

/-- The loop of `_get_default_routing_ifname` over the lines: `ifname` after it
if it returns that, or none if it returns `NULL`. -/
def routeLoop {n : Nat} (ifname : Buf n) : List (List Byte) → Buf ifnamsiz → Option (Option (Buf n))
  | [], _ => some none
  | line :: lines, iface => do
    let (iface, r) ← scanRoute iface line
    match r with
    | none => routeLoop ifname lines iface
    | some (destination, mask) =>
      if destination = 0 ∧ mask = 0 then
        -- for an empty array the count is `(size_t)-1`, which goes over its end
        if n = 0 then none else return some (← ifname.strncpy iface.bytes (n - 1))
      else routeLoop ifname lines iface

/-- `_get_default_routing_ifname`, the file having the bytes `route`, or not
opening; `ifname_size` is the size of the array. -/
def getDefaultRoutingIfname {n : Nat} (route : Option (List Byte)) (ifname : Buf n) : Option (Option (Buf n)) :=
  match route with
  | none => some none
  | some route =>
    match fgetsLines routerRecordSize [] route with
    | [] => some none
    | _ :: lines => routeLoop ifname lines (Buf.zero ifnamsiz)

/-! ## Addresses -/

/-- `s_addr` of an address, on a little-endian host. -/
def sAddr (a : InAddr) : UInt32 := ofLe32 a.bytes

/-- What the kernel answers: the routes, `socket`, and for the name of an
interface its address, which `ioctl` gives if it succeeds. -/
structure IpSys where
  route : Option (List Byte)
  socket : Int32
  siocgifaddr : List Byte → Option InAddr

/-- The name that the kernel finds in `ifr_name`; it ends it in the last byte. -/
def ifrName (name : Buf ifnamsiz) : List Byte := (name.bytes.take (ifnamsiz - 1)).takeWhile (· ≠ 0)

/-- The string `ifname`, or the name of the default route if there is none. -/
def chooseIfname (sys : IpSys) (ifname : Option CString) : Option (Option (List Byte)) :=
  match ifname with
  | none => (getDefaultRoutingIfname sys.route (Buf.zero ifnamsiz)).map (Option.map Buf.bytes)
  | some s =>
    if s.bytes.length = 0 then (getDefaultRoutingIfname sys.route (Buf.zero ifnamsiz)).map (Option.map Buf.bytes)
    else some (some s.mem)

/-- `HAL_Wifi_Get_IP`: its result, `ip_str` and the descriptors after it. `old`
is what `ifr_name` holds before, which is not set. -/
def halWifiGetIp {α : Type} (sys : IpSys) (old : Buf ifnamsiz) (ipStr : Buf networkAddrLen) (ifname : Option CString)
    (fds : Fds α) : Option (UInt32 × Buf networkAddrLen × Fds α) := do
  match ← chooseIfname sys ifname with
  | none => return (-1, ipStr, fds)
  | some ifname =>
    if sys.socket < 0 then return (-1, ipStr, fds)
    else
      let fds ← fds.opens sys.socket
      let name ← old.strncpy ifname (ifnamsiz - 1)
      match sys.siocgifaddr (ifrName name) with
      | none => return (-1, ipStr, fds.close sys.socket)
      | some a =>
        let ipStr ← ipStr.strncpy (inetNtoa a ++ [0]) networkAddrLen
        return (sAddr a, ipStr, fds.close sys.socket)

/-! ## Hardware addresses -/

/-- What the kernel answers: `socket`, and for the name of an interface its
`sa_data`, which `ioctl` gives if it succeeds. -/
structure MacSys where
  socket : Int32
  siocgifhwaddr : List Byte → Option (Buf 14)

/-- `"%2.2x"`. -/
def hexByte (x : Byte) : List Byte := (digits 16 x.toNat).leftpad 2 0x30

/-- `"%2.2x:%2.2x:%2.2x:%2.2x:%2.2x:%2.2x"`, of the first bytes of `sa_data`. -/
def macText (saData : List Byte) : List Byte := [0x3A].intercalate ((saData.take 6).map hexByte)

/-- `HAL_Wifi_Get_Mac` of `Vendors/ubuntu`: whether it returns `mac_str`, or
`NULL`, and `mac_str` and the descriptors after it. -/
def Ubuntu.halWifiGetMac {α : Type} {n : Nat} (gIfname : CString) (sys : MacSys) (macStr : Buf n) (fds : Fds α) :
    Option (Bool × Buf n × Fds α) :=
  if sys.socket < 0 then some (false, macStr, fds)
  else do
    let fds ← fds.opens sys.socket
    let name ← (Buf.zero ifnamsiz).strncpy gIfname.mem (ifnamsiz - 1)
    let macStr ← (match sys.siocgifhwaddr (ifrName name) with
      | none => some macStr
      | some saData =>
        let text := macText saData.bytes
        macStr.memcpy 0 (text ++ [0]) (text.length + 1))
    let fds := fds.close sys.socket
    -- `printf` reads `mac_str` as a string.
    let _ ← strlen macStr.bytes
    return (true, macStr, fds)

/-! ## Readiness -/

/-- `do_cmd_exec`: what it returns, and `result` after it. `out` is what the command
prints, none if `popen` fails. -/
def doCmdExec (out : Option (List Byte)) (result : Buf 1024) : Option (Int × Buf 1024) :=
  match out with
  | none => some (-1, result)
  | some out => do
    let buf ← (Buf.zero 1024).memcpy 0 out (min (1024 - 1) out.length)
    let text := buf.bytes.take (← strlen buf.bytes)
    let written := text.take (1024 - 1) ++ [0]
    let result ← result.memcpy 0 written written.length
    return (text.length, result)

/-- `HAL_Sys_Net_Is_Ready` of `Vendors/ubuntu`, `ifconfig` printing `out`. -/
def Ubuntu.halSysNetIsReady (out : Option (List Byte)) : Option Int32 := do
  let (_, resultBuf) ← doCmdExec out (Buf.zero 1024)
  match ← strstr resultBuf.bytes (ascii "inet addr") with
  | some _ => return 1
  | none => return 0

end Linkkit.Impl.Ifaddr
