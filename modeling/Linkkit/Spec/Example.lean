import Linkkit.Impl.Example
import Linkkit.Spec.Solo

/-!
# What the example program does

The program sets itself up, lets the SDK run, once a second, in 3601 turns, and
closes. Whatever the SDK does in the turns, what the program calls is said by the
number of the turn and by the callbacks in it (`turnCalls`): it answers each
callback (`answer`), in every second turn posts how often it did so before
(`counterText`), and in every tenth an event. The requests to its service are a run
of `Linkkit.Spec.Solo` (`service`), and every text that it traces has an end
(`Traces`).
-/

namespace Linkkit.Spec.Example

open Impl.Example

/-- The turns of the loop. -/
abbrev turnCount : Nat := 3601

variable {len : Lens}

/-- What the program calls in a callback. -/
def answer : Event → List (Call len)
  | .propertySet request requestLen => [.report 0 .postProperty request requestLen]
  | .fota type _ => if type = 0 then [.query 0 .queryFotaData (zeros 128)] else []
  | .cota type .. => if type = 0 then [.query 0 .queryCotaData (zeros 128)] else []
  | _ => []

/-- The property that says `k`. -/
def counterText (k : Nat) : List Byte := ascii "\x7b\"Counter\": " ++ decimalText k ++ ascii "\x7d"

/-- What the program calls in turn `i` for itself, and then sleeps, but for the last
turn. -/
def posts (i : Nat) : List (Call len) :=
  (if i % 2 = 0 then
    [.report 0 .postProperty (counterText (i / 2)) (Int32.ofNat (counterText (i / 2)).length)] else []) ++
  (if i % 10 = 0 then [.triggerEvent 0 (ascii "HardwareError") (ascii "\x7b\"ErrorCode\": 0\x7d")] else []) ++
  (if i + 1 < turnCount then [.sleepMs 1000] else [])

/-- What is called in turn `i`. -/
def turnCalls (i : Nat) (events : List Event) : List (Call len) := .yield 200 :: events.flatMap answer ++ posts i

/-- What is called in turns from the `i`-th on. -/
def turnsCalls (i : Nat) : List (List Event) → List (Call len)
  | [] => []
  | events :: turns => turnCalls i events ++ turnsCalls (i + 1) turns

/-- The credentials, each at the start of an array of zeros. -/
def metaInfoOf (texts : Texts) : MetaInfo len where
  productKey := Buf.ofList _ texts.productKey.bytes
  productSecret := Buf.ofList _ texts.productSecret.bytes
  deviceName := Buf.ofList _ texts.deviceName.bytes
  deviceSecret := Buf.ofList _ texts.deviceSecret.bytes

/-- The credentials are no longer than the SDK says. -/
def Fits (len : Lens) (texts : Texts) : Prop :=
  texts.productKey.bytes.length ≤ len.productKey ∧ texts.productSecret.bytes.length ≤ len.productSecret ∧
    texts.deviceName.bytes.length ≤ len.deviceName ∧ texts.deviceSecret.bytes.length ≤ len.deviceSecret

/-- What the program calls first: if `WIFI_PROVISION_ENABLED` it forgets its network
and starts the one for its setup. -/
def provisionCalls (config : Config) : List (Call len) :=
  if config.wifiProvisionEnabled then
    [.system (ascii "nmcli connection down linkkit"), .system (ascii "nmcli connection delete linkkit"), .sleep 15,
      .scanf, .awssDevApStart]
  else []

/-- How the SDK is set up and the device made. -/
def setupCalls (texts : Texts) : List (Call len) :=
  registered.map .registerCallback ++
    [.ioctl (.setDomain .shanghai), .ioctl (.setDynamicRegister 0), .ioctl (.recvEventReply 1),
      .openMaster (metaInfoOf texts)]

/-- The program does not give up at `IOT_ATM_Init`. -/
def SetsUp (config : Config) (sdk : Sdk) : Prop := ¬ (config.atmEnabled = true ∧ sdk.atmInit < 0)

instance (config : Config) (sdk : Sdk) : Decidable (SetsUp config sdk) := inferInstanceAs (Decidable (¬ _))

/-- The program gets to its loop. -/
def Starts (config : Config) (sdk : Sdk) : Prop :=
  SetsUp config sdk ∧ ¬ sdk.openMaster < 0 ∧ ¬ sdk.connect < 0

/-- What the program calls in its loop and after it. -/
def loopCalls (config : Config) (sdk : Sdk) (turns : List (List Event)) : List (Call len) :=
  (if config.wifiProvisionEnabled then [.awssReportReset] else []) ++ turnsCalls 0 (turns.take turnCount) ++
    if turnCount ≤ turns.length then [.close sdk.openMaster, .dumpMemoryStats .debug, .setLogLevel .none] else []

/-- What the program calls. -/
def programCalls (config : Config) (sdk : Sdk) (texts : Texts) (turns : List (List Event)) : List (Call len) :=
  .setLogLevel .debug :: (if config.atmEnabled then [.atmInit] else []) ++
    if ¬ SetsUp config sdk then []
    else provisionCalls config ++ setupCalls texts ++
      if sdk.openMaster < 0 then []
      else .connect sdk.openMaster :: if sdk.connect < 0 then [] else loopCalls config sdk turns

/-- What the program returns, unless it is still in its loop. -/
def programRet (config : Config) (sdk : Sdk) (turns : List (List Event)) : Option Int32 :=
  if ¬ SetsUp config sdk ∨ sdk.openMaster < 0 ∨ sdk.connect < 0 then some (-1)
  else if turnCount ≤ turns.length then some 0 else none

/-- A text of at most as many bytes as `precision` says, if it is not negative, has an
end. -/
def Ends (precision : Int32) (text : List Byte) : Prop :=
  (0 ≤ precision.toInt ∧ precision.toInt ≤ text.length) ∨ 0 ∈ text

/-- Every text that is traced in a callback has an end. -/
def Traces : Event → Prop
  | .propertySet request _ => 0 ∈ request
  | .serviceRequest _ serviceid serviceidLen _ => Ends serviceidLen serviceid
  | .reportReply reply replyLen => ∀ text ∈ reply, Ends replyLen text
  | .triggerEventReply eventid eventidLen message messageLen => Ends eventidLen eventid ∧ Ends messageLen message
  | .timestampReply timestamp => 0 ∈ timestamp
  | .fota type version => type = 0 → 0 ∈ version
  | .cota type configId getType sign signMethod url =>
    type = 0 → ∀ text ∈ [configId, getType, sign, signMethod, url], 0 ∈ text
  | _ => True

/-- What an event is to the service: a request, or the end of a response. -/
def service : Event → Option Solo.Call
  | .serviceRequest addrs serviceid serviceidLen request => some (.request ⟨addrs, serviceid, serviceidLen, request⟩)
  | .freeResponse addr => some (.free addr)
  | _ => none

/-- The service after calls. -/
def serve {J : Type*} (json : Impl.Solo.CJson J) (v : Solo.State) (calls : List Solo.Call) : Option Solo.State :=
  (run (Solo.step json) v calls).map Prod.fst

/-- What the service is called for in the turns of the loop. -/
def services (turns : List (List Event)) : List Solo.Call := (turns.take turnCount).flatten.filterMap service

instance (precision : Int32) (text : List Byte) : Decidable (Ends precision text) :=
  inferInstanceAs (Decidable (_ ∨ _))

instance : DecidablePred Traces
  | .propertySet request _ => inferInstanceAs (Decidable (0 ∈ request))
  | .serviceRequest _ serviceid serviceidLen _ => inferInstanceAs (Decidable (Ends serviceidLen serviceid))
  | .reportReply reply replyLen => inferInstanceAs (Decidable (∀ text ∈ reply, Ends replyLen text))
  | .triggerEventReply eventid eventidLen message messageLen =>
    inferInstanceAs (Decidable (Ends eventidLen eventid ∧ Ends messageLen message))
  | .timestampReply timestamp => inferInstanceAs (Decidable (0 ∈ timestamp))
  | .fota type version => inferInstanceAs (Decidable (type = 0 → 0 ∈ version))
  | .cota type configId getType sign signMethod url =>
    inferInstanceAs (Decidable (type = 0 → ∀ text ∈ [configId, getType, sign, signMethod, url], 0 ∈ text))
  | .connectSucc | .disconnected | .initializeCompleted | .freeResponse _ => isTrue trivial

/-- The service after callbacks whose texts have an end. -/
def serveEvents {J : Type*} (json : Impl.Solo.CJson J) (v : Solo.State) (events : List Event) : Option Solo.State :=
  if ∀ e ∈ events, Traces e then serve json v (events.filterMap service) else none

/-- The program is free of undefined behaviour: its credentials fit, what it traces
has an end, and its service can handle what it is asked for. -/
def Safe {J : Type*} (json : Impl.Solo.CJson J) (len : Lens) (config : Config) (sdk : Sdk) (texts : Texts)
    (turns : List (List Event)) : Prop :=
  SetsUp config sdk → Fits len texts ∧ (Starts config sdk →
    (∀ e ∈ (turns.take turnCount).flatten, Traces e) ∧ (serve json ⟨.none, []⟩ (services turns)).isSome = true)

/-- What is promised of what `main` returns and of the state it leaves. -/
structure Performs {J : Type*} (json : Impl.Solo.CJson J) (config : Config) (sdk : Sdk) (texts : Texts)
    (turns : List (List Event)) (ret : Option Int32) (s : State len) : Prop where
  ret : ret = programRet config sdk turns
  calls : s.calls = programCalls config sdk texts turns
  /-- The heap is the one that the requests to the service leave. -/
  service : Starts config sdk → serve json ⟨.none, []⟩ (services turns) = some ⟨s.heap, s.responses⟩

end Linkkit.Spec.Example
