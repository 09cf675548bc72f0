import Linkkit.Framework.Fields
import Linkkit.Impl.Ifaddr

/-!
# What the addresses of an interface are

The file `/proc/net/route` as the kernel prints a table of routes (`Route`,
`procNetRoute`), the interface of its default route, and what
`HAL_Wifi_Get_IP` (`Answers`) and `HAL_Wifi_Get_Mac` (`MacAnswers`) promise.
-/

namespace Linkkit.Spec.Ifaddr

open Impl.Ifaddr Impl.Net

/-- A route. -/
structure Route where
  iface : List Byte
  destination : UInt32
  gateway : UInt32
  flags : UInt32
  refCnt : Int32
  use : UInt32
  metric : Int32
  mask : UInt32
  mtu : Int32
  window : UInt32
  irtt : UInt32

namespace Route

/-- The name of an interface: 1 to 15 characters, none of them white space. -/
def Named (r : Route) : Prop := r.iface ≠ [] ∧ r.iface.length < ifnamsiz ∧ ∀ c ∈ r.iface, c ≠ 0 ∧ isSpace c = false

/-- A default route. -/
def IsDefault (r : Route) : Prop := r.destination = 0 ∧ r.mask = 0

instance (r : Route) : Decidable r.IsDefault := inferInstanceAs (Decidable (_ ∧ _))

/-- The fields, `"%s\t%08X\t%08X\t%04X\t%d\t%u\t%d\t%08X\t%d\t%u\t%u"`. -/
def fields (r : Route) : List Byte :=
  r.iface ++ 0x09 :: (paddedHex 8 r.destination.toNat ++ 0x09 :: (paddedHex 8 r.gateway.toNat ++ 0x09 ::
    (paddedHex 4 r.flags.toNat ++ 0x09 :: (decimalText r.refCnt.toInt ++ 0x09 :: (decimalText r.use.toNat ++ 0x09 ::
      (decimalText r.metric.toInt ++ 0x09 :: (paddedHex 8 r.mask.toNat ++ 0x09 :: (decimalText r.mtu.toInt ++ 0x09 ::
        (decimalText r.window.toNat ++ 0x09 :: decimalText r.irtt.toNat)))))))))

/-- A row of the file, filled up to 127 characters. -/
def row (r : Route) : List Byte := r.fields ++ List.replicate (127 - r.fields.length) 0x20

end Route

/-- The file, with a line of headings. -/
def procNetRoute (headings : List Byte) (routes : List Route) : List Byte :=
  (headings :: routes.map Route.row).flatMap (· ++ [0x0A])

/-- A line of headings that the buffer has room for. -/
def Headings (headings : List Byte) : Prop := 0x0A ∉ headings ∧ headings.length + 1 < routerRecordSize

instance (headings : List Byte) : Decidable (Headings headings) := inferInstanceAs (Decidable (_ ∧ _))

/-- The interface that the call asks the kernel for: the one it is given, cut to
15 characters, or that of the first default route. -/
def interface (ifname : Option CString) (routes : List Route) : Option (List Byte) :=
  match ifname with
  | some s =>
    if s.bytes = [] then (routes.find? (·.IsDefault)).map Route.iface else some (s.bytes.take (ifnamsiz - 1))
  | none => (routes.find? (·.IsDefault)).map Route.iface

/-- What is promised of the value and of `ip_str` before and after it, where `a`
is the address of the interface, if `socket` succeeds and it has one. -/
structure Answers (a : Option InAddr) (ipStr : Buf networkAddrLen) (ret : UInt32) (ipStr' : Buf networkAddrLen) :
    Prop where
  /-- The value is the address, and `ip_str` a string that denotes it. -/
  found : ∀ ip, a = some ip → ret = sAddr ip ∧
    ∃ n, strlen ipStr'.bytes = some n ∧ inetAton (ipStr'.bytes.take n) = some ip
  /-- Without one the value is -1, and `ip_str` is left alone. -/
  missing : a = none → ret = -1 ∧ ipStr' = ipStr

/-! ## Hardware addresses -/

/-- The byte that two digits denote. -/
def readHexByte (l : List Byte) : Option Byte :=
  if l.length = 2 ∧ l.all (isDigit 16) then some (UInt8.ofNat (ofDigits 16 l)) else none

/-- The bytes of a text with `:` between them. -/
def readMac (text : List Byte) : Option (List Byte) := (text.splitOn 0x3A).mapM readHexByte

/-- The hardware address of an interface, whose name is cut to 15 characters. -/
def macOf (sys : MacSys) (ifname : CString) : Option (List Byte) :=
  (sys.siocgifhwaddr (ifname.bytes.take (ifnamsiz - 1))).map fun saData => saData.bytes.take 6

/-- What is promised of the result and of `mac_str` before and after it, where
`mac` is the address of the interface, if it has one. -/
structure MacAnswers {n : Nat} (socket : Int32) (mac : Option (List Byte)) (macStr : Buf n) (ret : Bool)
    (macStr' : Buf n) : Prop where
  /-- `mac_str` is returned unless there is no socket. -/
  ret : ret = true ↔ ¬ socket < 0
  /-- It is a string of 17 characters that denotes the address, and the rest of the
  array is left alone. -/
  found : ∀ bs, ¬ socket < 0 → mac = some bs → ∃ text, macStr'.bytes = text ++ 0 :: macStr.bytes.drop 18 ∧
    text.length = 17 ∧ 0 ∉ text ∧ readMac text = some bs
  /-- Without one the array is left alone. -/
  missing : socket < 0 ∨ mac = none → macStr' = macStr

/-- The text of an address has room in `mac_str`; without one a string is in it
already. -/
def MacFits {n : Nat} (mac : Option (List Byte)) (macStr : Buf n) : Prop :=
  match mac with
  | some _ => 18 ≤ n
  | none => 0 ∈ macStr.bytes

/-! ## Readiness -/

/-- What `HAL_Sys_Net_Is_Ready` reads of what is printed: 1023 bytes, up to the first
NUL. -/
def readOf (out : List Byte) : List Byte := (out.take 1023).takeWhile (· ≠ 0)

/-- An address is printed in what is read. -/
def Ready (out : Option (List Byte)) : Prop := ∃ o ∈ out, ascii "inet addr" <:+: readOf o

end Linkkit.Spec.Ifaddr
