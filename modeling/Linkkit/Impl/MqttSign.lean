import Linkkit.Framework.Int
import Mathlib.Data.Int.Notation

/-!
# The Java, Android and C# signers

`MqttSign.calculate` of `Paho_MQTT_Guide/MqttSign.java` and of `MqttSign.cs`,
and `AiotMqttOption.getMqttOption` of `AiotMqttOption.java`. A string is its
UTF-16 code units, as in both languages, and a reference that may be null an
`Option`. The clock reading `now` and the platform's HMAC-SHA256 (the upper- or
lower-case hexadecimal digits it gives, or none if it throws) are arguments;
`passwordOf` is how Java and Android print the bytes of the HMAC.
-/

namespace Linkkit.Impl.MqttSign

/-- A string: its UTF-16 code units. -/
abbrev Utf16 := List UInt16

/-- The code units of a literal of ASCII characters. -/
def utf16 (s : String) : Utf16 := s.toList.map fun c => c.toNat.toUInt16

/-- `Long.toString`. -/
def decimal (n : Int64) : Utf16 := utf16 (toString n.toInt)

/-- `String.format ("%0wx", n)` of a number that is not negative. -/
def formatHex (w n : Nat) : Utf16 := ((Nat.toDigits 16 n).leftpad w '0').map fun c => c.toNat.toUInt16

/-- `String.format ("%064x", new BigInteger (1, mac))`. -/
def passwordOf (mac : List Byte) : Utf16 := formatHex 64 (ofBe mac)

/-- `plainPasswd`, `macSrc` in `AiotMqttOption`: the text whose HMAC is the
password. -/
def plainPasswd (productKey deviceName timestamp : Utf16) : Utf16 :=
  utf16 "clientId" ++ productKey ++ utf16 "." ++ deviceName ++ utf16 "deviceName" ++ deviceName ++
    utf16 "productKey" ++ productKey ++ utf16 "timestamp" ++ timestamp

/-- The fields of `MqttSign`, and of `AiotMqttOption`. -/
structure Credentials where
  username : Utf16
  password : Utf16
  clientid : Utf16
deriving DecidableEq

/-- `clientid`, for a client of version `v`. -/
def clientidOf (v : String) (productKey deviceName timestamp : Utf16) : Utf16 :=
  productKey ++ utf16 "." ++ deviceName ++ utf16 "|" ++ utf16 "timestamp=" ++ timestamp ++
    utf16 v

section

variable (hmacSha256 : Utf16 → Utf16 → Option Utf16) (now : Int64)

/-- `MqttSign.calculate` in Java: `this` after it. -/
def calculate (self : Credentials) (productKey deviceName deviceSecret : Option Utf16) : Credentials :=
  match productKey, deviceName, deviceSecret with
  | some productKey, some deviceName, some deviceSecret =>
    let self := { self with username := deviceName ++ utf16 "&" ++ productKey }
    let timestamp := decimal now
    match hmacSha256 (plainPasswd productKey deviceName timestamp) deviceSecret with
    | none => self
    | some password => { self with
        password
        clientid := clientidOf ",_v=paho-java-1.0.0,securemode=2,signmethod=hmacsha256|" productKey
          deviceName timestamp }
  | _, _, _ => self

/-- `AiotMqttOption.getMqttOption`: whether it returns `this`, and `this` after
it. -/
def getMqttOption (self : Credentials) (productKey deviceName deviceSecret : Option Utf16) :
    Bool × Credentials :=
  match productKey, deviceName, deviceSecret with
  | some productKey, some deviceName, some deviceSecret =>
    let timestamp := decimal now
    let self := { self with
      clientid := clientidOf ",_v=paho-android-1.0.0,securemode=2,signmethod=hmacsha256|" productKey
        deviceName timestamp
      username := deviceName ++ utf16 "&" ++ productKey }
    match hmacSha256 (plainPasswd productKey deviceName timestamp) deviceSecret with
    | none => (false, self)
    | some password => (true, { self with password })
  | _, _, _ => (false, self)

/-- `MqttSign.calculate` in C#: what it returns, and `this` after it; none if
an exception leaves it. -/
def calculateCs (self : Credentials) (productKey deviceName deviceSecret : Option Utf16) :
    Option (Bool × Credentials) :=
  match productKey, deviceName, deviceSecret with
  | some productKey, some deviceName, some deviceSecret => do
    let timestamp := decimal now
    let password ← hmacSha256 (plainPasswd productKey deviceName timestamp) deviceSecret
    return (true, {
      username := deviceName ++ utf16 "&" ++ productKey
      password
      clientid := clientidOf ",_v=paho-c#-1.0.0,securemode=2,signmethod=hmacsha256|" productKey
        deviceName timestamp })
  | _, _, _ => some (false, self)

end

end Linkkit.Impl.MqttSign
