import Linkkit.Impl.Solo

/-!
# The example program

`main` of `Vendors/ubuntu/linkkit_example_solo.c`, with the callbacks that it
registers and with the functions of `Vendors/ubuntu/wrapper.c` that give it the
credentials. What the SDK does is an argument: what `IOT_ATM_Init`,
`IOT_Linkkit_Open` and `IOT_Linkkit_Connect` return, and which callbacks each
`IOT_Linkkit_Yield` makes. What the program calls is kept in order (`Call`), but for
what it prints: of a trace only that it reads the strings it is given.

The sizes of the arrays are those of the SDK (`Lens`). `DEPRECATED_LINKKIT`, by
which the program is another one, is left out, and what is not compiled since
`USE_DEV_AP` is defined.
-/

namespace Linkkit.Impl.Example

open Solo

/-! ## Credentials -/

/-- `IOTX_PRODUCT_KEY_LEN`, `IOTX_PRODUCT_SECRET_LEN`, `IOTX_DEVICE_NAME_LEN` and
`IOTX_DEVICE_SECRET_LEN`. -/
structure Lens where
  productKey : Nat
  productSecret : Nat
  deviceName : Nat
  deviceSecret : Nat

/-- `_product_key`, `_product_secret`, `_device_name` and `_device_secret`. -/
structure Texts where
  productKey : CString
  productSecret : CString
  deviceName : CString
  deviceSecret : CString

/-- `iotx_linkkit_dev_meta_info_t`. -/
structure MetaInfo (len : Lens) where
  productKey : Buf (len.productKey + 1)
  productSecret : Buf (len.productSecret + 1)
  deviceName : Buf (len.deviceName + 1)
  deviceSecret : Buf (len.deviceSecret + 1)
deriving DecidableEq

/-- A text copied to an array: what is returned, its length, and the array. -/
def getText {n : Nat} (text : CString) (dst : Buf (n + 1)) : Option (Nat × Buf (n + 1)) := do
  let len ← strlen text.mem
  let dst ← dst.memset 0 0 (n + 1)
  let dst ← dst.strncpy text.mem len
  return (len, dst)

section

variable {len : Lens} (texts : Texts)

/-- `HAL_GetProductKey`. -/
def halGetProductKey : Buf (len.productKey + 1) → Option (Nat × Buf (len.productKey + 1)) := getText texts.productKey

/-- `HAL_GetProductSecret`. -/
def halGetProductSecret : Buf (len.productSecret + 1) → Option (Nat × Buf (len.productSecret + 1)) :=
  getText texts.productSecret

/-- `HAL_GetDeviceName`, which counts what it has stored. -/
def halGetDeviceName (deviceName : Buf (len.deviceName + 1)) : Option (Nat × Buf (len.deviceName + 1)) := do
  let (_, deviceName) ← getText texts.deviceName deviceName
  return (← strlen deviceName.bytes, deviceName)

/-- `HAL_GetDeviceSecret`. -/
def halGetDeviceSecret : Buf (len.deviceSecret + 1) → Option (Nat × Buf (len.deviceSecret + 1)) :=
  getText texts.deviceSecret

/-- The string in an array, copied to an array of zeros. -/
def copyText {n : Nat} (src : Buf n) : Option (Buf n) := do
  (Buf.zero n).memcpy 0 src.bytes (← strlen src.bytes)

/-- `master_meta_info`, filled from `PRODUCT_KEY` and the others. -/
def masterMetaInfo : Option (MetaInfo len) := do
  let (_, productKey) ← halGetProductKey texts (Buf.zero _)
  let (_, productSecret) ← halGetProductSecret texts (Buf.zero _)
  let (_, deviceName) ← halGetDeviceName texts (Buf.zero _)
  let (_, deviceSecret) ← halGetDeviceSecret texts (Buf.zero _)
  return ⟨← copyText productKey, ← copyText productSecret, ← copyText deviceName, ← copyText deviceSecret⟩

end

/-! ## The SDK -/

/-- The macros that the program is compiled by: `ATM_ENABLED` and
`WIFI_PROVISION_ENABLED`. -/
structure Config where
  atmEnabled : Bool
  wifiProvisionEnabled : Bool

/-- `IOT_LogLevel`, the values that are used. -/
inductive LogLevel where
  | none
  | debug
deriving DecidableEq

/-- `iotx_event_t`, the values that are used. -/
inductive EventType where
  | connectSucc
  | disconnected
  | serviceRequest
  | propertySet
  | reportReply
  | triggerEventReply
  | timestampReply
  | initializeCompleted
  | fota
  | cota
deriving DecidableEq

/-- `iotx_cloud_region_types_t`, the value that is used. -/
inductive CloudRegion where
  | shanghai
deriving DecidableEq

/-- `iotx_ioctl_option_t`, the values that are used, with their data. -/
inductive IoctlOption where
  | setDomain (domainType : CloudRegion)
  | setDynamicRegister (dynamicRegister : Int32)
  | recvEventReply (postReplyNeed : Int32)
deriving DecidableEq

/-- `iotx_linkkit_msg_type_t`, the values that are used. -/
inductive MsgType where
  | postProperty
  | queryFotaData
  | queryCotaData
deriving DecidableEq

/-- What the program calls: the SDK, `HAL_SleepMs`, and of C `system`, `sleep` and
`scanf`. -/
inductive Call (len : Lens) where
  | setLogLevel (level : LogLevel)
  | atmInit
  | system (command : List Byte)
  | sleep (seconds : UInt32)
  | scanf
  | awssDevApStart
  | awssReportReset
  | registerCallback (event : EventType)
  | ioctl (option : IoctlOption)
  | openMaster (metaInfo : MetaInfo len)
  | connect (devid : Int32)
  | yield (timeoutMs : Int32)
  | report (devid : Int32) (msgType : MsgType) (payload : List Byte) (payloadLen : Int32)
  | triggerEvent (devid : Int32) (eventid payload : List Byte)
  | query (devid : Int32) (msgType : MsgType) (payload : List Byte)
  | sleepMs (ms : UInt32)
  | close (devid : Int32)
  | dumpMemoryStats (level : LogLevel)
deriving DecidableEq

/-- What `IOT_ATM_Init`, `IOT_Linkkit_Open` and `IOT_Linkkit_Connect` return. -/
structure Sdk where
  atmInit : Int32
  openMaster : Int32
  connect : Int32

/-- What happens in `IOT_Linkkit_Yield`: a callback, with those of its arguments
that are read, or the end of a response that the SDK has sent. A text is the bytes
from its pointer on; only `reply` can be `NULL`. -/
inductive Event where
  | connectSucc
  | disconnected
  | initializeCompleted
  | propertySet (request : List Byte) (requestLen : Int32)
  | serviceRequest (addrs : Addresses) (serviceid : List Byte) (serviceidLen : Int32) (request : CString)
  | freeResponse (addr : UInt64)
  | reportReply (reply : Option (List Byte)) (replyLen : Int32)
  | triggerEventReply (eventid : List Byte) (eventidLen : Int32) (message : List Byte) (messageLen : Int32)
  | timestampReply (timestamp : List Byte)
  | fota (type : Int32) (version : List Byte)
  | cota (type : Int32) (configId getType sign signMethod url : List Byte)

/-! ## Callbacks -/

/-- `EXAMPLE_MASTER_DEVID`. -/
abbrev exampleMasterDevid : Int32 := 0

/-- `EXAMPLE_YIELD_TIMEOUT_MS`. -/
abbrev exampleYieldTimeoutMs : Int32 := 200

/-- `user_example_ctx_t`. -/
structure UserExampleCtx where
  masterDevid : Int32 := 0
  cloudConnected : Int32 := 0
  masterInitialized : Int32 := 0
deriving DecidableEq

/-- The variables of the program, `counter` being that of `user_post_property` and
`cnt` that of `main`; the heap, with the responses that the SDK still holds; and
what was called. -/
structure State (len : Lens) where
  ctx : UserExampleCtx := {}
  counter : Int32 := 0
  cnt : Int32 := 0
  heap : Heap := .none
  responses : List UInt64 := []
  calls : List (Call len) := []

section

variable {len : Lens} (s : State len)

/-- One more call. -/
def State.call (c : Call len) : State len := { s with calls := s.calls ++ [c] }

/-- `user_connected_event_handler`. -/
def userConnectedEventHandler : State len := { s with ctx := { s.ctx with cloudConnected := 1 } }

/-- `user_disconnected_event_handler`. -/
def userDisconnectedEventHandler : State len := { s with ctx := { s.ctx with cloudConnected := 0 } }

/-- `user_initialized`. -/
def userInitialized : State len := { s with ctx := { s.ctx with masterInitialized := 1 } }

/-- `EXAMPLE_TRACE` with a conversion `%s` for each of the strings. -/
def trace : List (List Byte) → Option Unit
  | [] => some ()
  | string :: strings => (strlen string).bind fun _ => trace strings

/-- `user_report_reply_event_handler`. -/
def userReportReplyEventHandler (reply : Option (List Byte)) (replyLen : Int32) : Option (State len) := do
  let _ ← printed replyLen.toInt (reply.getD (ascii "NULL" ++ [0]))
  return s

/-- `user_trigger_event_reply_event_handler`. -/
def userTriggerEventReplyEventHandler (eventid : List Byte) (eventidLen : Int32) (message : List Byte)
    (messageLen : Int32) : Option (State len) := do
  let _ ← printed eventidLen.toInt eventid
  let _ ← printed messageLen.toInt message
  return s

/-- `user_property_set_event_handler`. -/
def userPropertySetEventHandler (request : List Byte) (requestLen : Int32) : Option (State len) := do
  trace [request]
  return s.call (.report exampleMasterDevid .postProperty request requestLen)

/-- `user_timestamp_reply_event_handler`. -/
def userTimestampReplyEventHandler (timestamp : List Byte) : Option (State len) := do
  trace [timestamp]
  return s

/-- What is new is traced and queried, into a buffer of 128 bytes. -/
def queryNew (msgType : MsgType) (type : Int32) (strings : List (List Byte)) : Option (State len) := do
  if type = 0 then
    trace strings
    return s.call (.query exampleMasterDevid msgType (zeros 128))
  return s

/-- `user_fota_event_handler`. -/
def userFotaEventHandler (type : Int32) (version : List Byte) : Option (State len) :=
  queryNew s .queryFotaData type [version]

/-- `user_cota_event_handler`. -/
def userCotaEventHandler (type : Int32) (configId getType sign signMethod url : List Byte) : Option (State len) :=
  queryNew s .queryCotaData type [configId, getType, sign, signMethod, url]

/-- `user_post_property`. -/
def userPostProperty : Option (State len) := do
  let text := ascii "\x7b\"Counter\": " ++ decimalText s.counter.toInt ++ ascii "\x7d"
  let written := text.take (30 - 1) ++ [0]
  let counter ← add s.counter 1
  let propertyPayload ← (Buf.zero 30).memcpy 0 written written.length
  let n ← strlen propertyPayload.bytes
  return { s with counter }.call
    (.report exampleMasterDevid .postProperty (propertyPayload.bytes.take n) (Int32.ofNat n))

/-- `user_post_event`. -/
def userPostEvent : State len :=
  s.call (.triggerEvent exampleMasterDevid (ascii "HardwareError") (ascii "\x7b\"ErrorCode\": 0\x7d"))

variable {J : Type*} (json : CJson J)

/-- A callback; the SDK frees only responses. The trace that
`user_service_request_event_handler` starts with is made here. -/
def event : Event → Option (State len)
  | .connectSucc => some (userConnectedEventHandler s)
  | .disconnected => some (userDisconnectedEventHandler s)
  | .initializeCompleted => some (userInitialized s)
  | .propertySet request requestLen => userPropertySetEventHandler s request requestLen
  | .serviceRequest addrs serviceid serviceidLen request => do
    let _ ← printed serviceidLen.toInt serviceid
    let (_, response, heap) ← userServiceRequestEventHandler json addrs serviceid serviceidLen request s.heap
    return { s with heap, responses := (response.map Response.addr).toList ++ s.responses }
  | .freeResponse addr =>
    if addr ∈ s.responses then
      some { s with heap := s.heap.close addr, responses := s.responses.erase addr }
    else none
  | .reportReply reply replyLen => userReportReplyEventHandler s reply replyLen
  | .triggerEventReply eventid eventidLen message messageLen =>
    userTriggerEventReplyEventHandler s eventid eventidLen message messageLen
  | .timestampReply timestamp => userTimestampReplyEventHandler s timestamp
  | .fota type version => userFotaEventHandler s type version
  | .cota type configId getType sign signMethod url => userCotaEventHandler s type configId getType sign signMethod url

/-! ## `main` -/

/-- `do_forget_ssid_passwd`. -/
def doForgetSsidPasswd : State len :=
  let wifiName := ascii "linkkit"
  let s := s.call (.system (snprintf 128 "nmcli connection down %s" [wifiName]))
  let s := s.call (.system (snprintf 128 "nmcli connection delete %s" [wifiName]))
  (s.call (.sleep 15)).call .scanf

/-- A turn of the loop, and whether it goes on. -/
def turn (events : List Event) : Option (Bool × State len) := do
  let s ← events.foldlM (event · json) (s.call (.yield exampleYieldTimeoutMs))
  let s ← (if s.cnt.toInt % 2 = 0 then userPostProperty s else some s)
  let s := if s.cnt.toInt % 10 = 0 then userPostEvent s else s
  let cnt ← add s.cnt 1
  let s := { s with cnt }
  return if cnt > 3600 then (false, s) else (true, s.call (.sleepMs 1000))

/-- The loop: whether it has ended after the turns. -/
def mainLoop (s : State len) : List (List Event) → Option (Bool × State len)
  | [] => some (false, s)
  | events :: turns => do
    let (go, s) ← turn s json events
    if go then mainLoop s turns else return (true, s)

/-- How `main` starts: with the network set up anew, if the program is compiled so. -/
def provision (config : Config) : State len :=
  if config.wifiProvisionEnabled then (doForgetSsidPasswd s).call .awssDevApStart else s

/-- The callbacks that `main` registers, in its order. -/
def registered : List EventType :=
  [.connectSucc, .disconnected, .serviceRequest, .propertySet, .reportReply, .triggerEventReply, .timestampReply,
    .initializeCompleted, .fota, .cota]

/-- How `main` sets up the SDK and opens the device, by `devid`. -/
def openDevice (metaInfo : MetaInfo len) (devid : Int32) : State len :=
  let s := registered.foldl (fun s e => s.call (.registerCallback e)) s
  let s := s.call (.ioctl (.setDomain .shanghai))
  let s := s.call (.ioctl (.setDynamicRegister 0))
  let s := s.call (.ioctl (.recvEventReply 1))
  let s := s.call (.openMaster metaInfo)
  { s with ctx := { s.ctx with masterDevid := devid } }

/-- How `main` ends. -/
def closeDevice : State len :=
  ((s.call (.close s.ctx.masterDevid)).call (.dumpMemoryStats .debug)).call (.setLogLevel .none)

/-- `main`: what it returns, unless it is still in its loop, and the state. -/
def main (config : Config) (sdk : Sdk) (texts : Texts) (turns : List (List Event)) :
    Option (Option Int32 × State len) := do
  let s : State len := State.call {} (.setLogLevel .debug)
  let s := if config.atmEnabled then s.call .atmInit else s
  if config.atmEnabled ∧ sdk.atmInit < 0 then return (some (-1), s)
  let s := provision s config
  let metaInfo ← masterMetaInfo texts
  let s := openDevice { s with ctx := {} } metaInfo sdk.openMaster
  if s.ctx.masterDevid < 0 then return (some (-1), s)
  let s := s.call (.connect s.ctx.masterDevid)
  if sdk.connect < 0 then return (some (-1), s)
  let s := if config.wifiProvisionEnabled then s.call .awssReportReset else s
  let (ended, s) ← mainLoop json s turns
  return if ended then (some 0, closeDevice s) else (none, s)

end

end Linkkit.Impl.Example
