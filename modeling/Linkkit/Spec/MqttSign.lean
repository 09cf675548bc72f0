import Linkkit.Framework.Machine
import Linkkit.Impl.MqttSign

/-!
# What the Java signers promise

Calls of `MqttSign.calculate` or of `AiotMqttOption.getMqttOption` on one
object, one after the other (`step`). After each the object has the credentials
that the call gave it, or those it had (`OneIdentity`).
-/

namespace Linkkit.Spec.MqttSign

open Impl.MqttSign

/-- The two classes: `MqttSign` and `AiotMqttOption`. -/
inductive Signer where
  | java
  | android
deriving DecidableEq

/-- What the client identifier says of the signer. -/
def Signer.version : Signer → String
  | java => ",_v=paho-java-1.0.0,securemode=2,signmethod=hmacsha256|"
  | android => ",_v=paho-android-1.0.0,securemode=2,signmethod=hmacsha256|"

/-- The HMAC of the JDK, which makes no `SecretKeySpec` of an empty key. -/
def jdkHmac (mac : Utf16 → Utf16 → Utf16) (text key : Utf16) : Option Utf16 :=
  if key = [] then none else some (mac text key)

/-- A call, at the time `now`. -/
structure Call where
  now : Int64
  productKey : Option Utf16
  deviceName : Option Utf16
  deviceSecret : Option Utf16

variable (signer : Signer) (mac : Utf16 → Utf16 → Utf16)

/-- The object after a call. -/
def after (self : Credentials) (c : Call) : Credentials :=
  match signer with
  | .java => calculate (jdkHmac mac) c.now self c.productKey c.deviceName c.deviceSecret
  | .android => (getMqttOption (jdkHmac mac) c.now self c.productKey c.deviceName c.deviceSecret).2

/-- A call on an object. -/
def step (self : Credentials) (c : Call) : Option (Credentials × Unit) := some (after signer mac self c, ())

/-- The user name of a device. -/
def usernameOf (productKey deviceName : Utf16) : Utf16 := deviceName ++ utf16 "&" ++ productKey

/-- The credentials of a device at the time `now`. -/
def credentials (now : Int64) (productKey deviceName deviceSecret : Utf16) : Option Credentials :=
  (jdkHmac mac (plainPasswd productKey deviceName (decimal now)) deviceSecret).map fun password =>
    { username := usernameOf productKey deviceName
      password
      clientid := clientidOf signer.version productKey deviceName (decimal now) }

/-- The object is as before the call, or has the credentials of the device that
the call names, at the time of the call. -/
def OneIdentity (self : Credentials) (c : Call) : Prop :=
  after signer mac self c = self ∨ ∃ productKey deviceName deviceSecret,
    c.productKey = some productKey ∧ c.deviceName = some deviceName ∧ c.deviceSecret = some deviceSecret ∧
      credentials signer mac c.now productKey deviceName deviceSecret = some (after signer mac self c)

/-- If the call names a device with an empty secret, what is assigned before the
HMAC throws is assigned already. -/
def Assigned (self : Credentials) (c : Call) : Prop :=
  ∀ productKey deviceName, c.productKey = some productKey → c.deviceName = some deviceName →
    c.deviceSecret = some [] → self.username = usernameOf productKey deviceName ∧
      (signer = .android → self.clientid = clientidOf signer.version productKey deviceName (decimal c.now))

end Linkkit.Spec.MqttSign
