import Linkkit.Framework.Buf

/-!
# The sniffer of the HAL wrappers

`HAL_Awss_Open_Monitor` and `HAL_Awss_Close_Monitor` of
`Vendors/ubuntu/wrapper.c` and `Vendors/Jabsco/wrapper.c`, and the threads that
the first starts, from the loop of `func_Sniffer` on. `stop_sniff` and
`start_sniff` are the same in both; what differs is a `Port`.

What a command given to `system` returns is an argument, and so is what
`recvfrom` receives. Printing is left out.
-/

namespace Linkkit.Impl.Awss

/-- `MAX_REV_BUFFER`. -/
abbrev maxRevBuffer : Nat := 8000

/-- `enum AWSS_LINK_TYPE`, the values that are used. -/
inductive LinkType where
  | none
  | ieee80211Radio
deriving DecidableEq

/-- What differs between the two wrappers. -/
structure Port where
  /-- The commands of `HAL_Awss_Open_Monitor`. -/
  opening : List String
  /-- The commands of `HAL_Awss_Close_Monitor`. -/
  closing : List String
  /-- `HAL_Awss_Open_Monitor` asserts that its commands return 0. -/
  asserts : Bool
  linkType : LinkType
  withFcs : Int

/-- `Vendors/ubuntu`; the commands name the interface `g_ifname`. -/
def ubuntu : Port where
  opening := ["ifconfig wlx00259cf84f36 down", "iwconfig wlx00259cf84f36 mode monitor",
    "ifconfig wlx00259cf84f36 up"]
  closing := ["ifconfig wlx00259cf84f36 down", "iwconfig wlx00259cf84f36 mode managed",
    "ifconfig wlx00259cf84f36 up"]
  asserts := false
  linkType := .none
  withFcs := 0

/-- `Vendors/Jabsco`. -/
def jabsco : Port where
  opening := ["ifconfig wlan0 down; ifconfig wlan0 up", "iwconfig wlan0 mode monitor",
    "echo \"10 1 1\" > /proc/net/rtl8188fu/wlan0/monitor"]
  closing := ["iwconfig wlan0 mode managed"]
  asserts := true
  linkType := .ieee80211Radio
  withFcs := 1

/-- Where a thread is in the loop of `func_Sniffer`: at its test, in
`recvfrom`, or behind it. -/
inductive Pc where
  | test
  | recv
  | done
deriving DecidableEq

/-- A callback, by a number. -/
abbrev Callback := Nat

/-- A thread that runs `func_Sniffer`. -/
structure Sniffer where
  cb : Callback
  revBuffer : Buf maxRevBuffer
  pc : Pc

/-- A call of a callback. -/
structure Frame where
  cb : Callback
  buf : List Byte
  linkType : LinkType
  withFcs : Int
  rssi : Int

/-- `s_enable_sniffer`; with the commands given to `system`, the threads
started, and the calls of their callbacks, in order. -/
structure State where
  sEnableSniffer : Int32
  commands : List String
  sniffers : List Sniffer
  frames : List Frame

/-- The process at its start. -/
def start : State := ⟨1, [], [], []⟩

/-- `stop_sniff`. -/
def stopSniff (s : State) : State := { s with sEnableSniffer := 0 }

/-- `HAL_Awss_Close_Monitor`. -/
def halAwssCloseMonitor (port : Port) (s : State) : State :=
  let s := stopSniff s
  { s with commands := s.commands ++ port.closing }

/-- `start_sniff`, the thread being created with `revBuffer` on its stack. -/
def startSniff (cb : Callback) (revBuffer : Buf maxRevBuffer) (s : State) : State :=
  { s with sniffers := s.sniffers ++ [⟨cb, revBuffer, .test⟩] }

/-- `HAL_Awss_Open_Monitor`; no value if an assertion fails. -/
def halAwssOpenMonitor (port : Port) (system : String → Int32) (cb : Callback)
    (revBuffer : Buf maxRevBuffer) (s : State) : Option State :=
  if port.asserts ∧ ∃ c ∈ port.opening, system c ≠ 0 then none
  else some (startSniff cb revBuffer { s with commands := s.commands ++ port.opening })

/-- `pHeader->it_len`. -/
def itLen (revBuffer : List Byte) : Nat := (revBuffer.getD 2 0).toNat + 0x100 * (revBuffer.getD 3 0).toNat

/-- The test of the loop of `func_Sniffer`. -/
def snifferTest (sEnableSniffer : Int32) (t : Sniffer) : Sniffer :=
  { t with pc := if 1 = sEnableSniffer then .recv else .done }

/-- The body of the loop of `func_Sniffer`, `recvfrom` receiving `packet` or
failing: the thread after it, and its call of the callback. -/
def snifferBody (port : Port) (packet : Option (List Byte)) (t : Sniffer) : Sniffer × Option Frame :=
  let received := (packet.getD []).take maxRevBuffer
  let revNum : Int := if packet.isSome then received.length else -1
  let revBuffer : Buf maxRevBuffer := Buf.ofList _ (splice t.revBuffer.bytes 0 received)
  let t : Sniffer := { t with revBuffer, pc := .test }
  let skipLen := itLen revBuffer.bytes
  if skipLen ≥ maxRevBuffer then (t, none)
  else if revNum > skipLen then
    (t, some ⟨t.cb, slice revBuffer.bytes skipLen (revNum - skipLen).toNat, port.linkType, port.withFcs, 0⟩)
  else (t, none)

end Linkkit.Impl.Awss
