import Linkkit.Framework.Fields
import Linkkit.Impl.MqttSign
import Linkkit.Spec.Sign

/-!
# Logging in

What a signer's credentials are for. The broker they are made for is no part of
these programs, so it is a parameter, and `Documented` is what a signer relies on:
that the broker takes the device from the user name `deviceName&productKey`, and
that of a client id `id|key=value,…|` it signs what the device should have signed,
by the method named there and with the secret it has registered, and compares.
`LogsIn` is what is then promised of the credentials of a device. A text is a list
of the code units of the signer's language.
-/

namespace Linkkit.Spec.Login

/-- The credentials in an MQTT `CONNECT`. -/
structure Connect (α : Type*) where
  clientid : List α
  username : List α
  password : List α

/-- The code units that texts are made of. -/
structure Alphabet (α : Type*) where
  /-- The code unit of an ASCII character. -/
  unit : Char → α
  /-- The bytes that a hexadecimal text denotes, in digits of either case. -/
  digits : List α → Option (List Byte)

/-- A broker. -/
structure Broker (α : Type*) where
  /-- The secret of a product key and device name, if the device is registered. -/
  secret : List α → List α → Option (List α)
  /-- The MAC of a text and a key, by the name of a method. -/
  mac : List α → Option (List α → List α → List Byte)
  /-- The client ids that it admits, by whatever else it asks of them: a length, a
  secure mode that suits the connection. -/
  admits : List α → Prop
  /-- The product key and the device name of the device that it takes the
  credentials for, if it accepts them. -/
  accepts : Connect α → Option (List α × List α)

variable {α : Type*}

/-- An ASCII text. -/
def text (unit : Char → α) (s : String) : List α := s.toList.map unit

/-- The text that a device signs, `id` being the client id without its
parameters. -/
def signed (unit : Char → α) (id productKey deviceName timestamp : List α) : List α :=
  text unit "clientId" ++ id ++ text unit "deviceName" ++ deviceName ++ text unit "productKey" ++ productKey ++
    text unit "timestamp" ++ timestamp

/-- No character of the field is taken for a separator. -/
def Readable (unit : Char → α) (f : List α × List α) : Prop :=
  unit ',' ∉ writeField (unit '=') f ∧ unit '|' ∉ writeField (unit '=') f ∧ unit '=' ∉ f.1

instance [DecidableEq α] (unit : Char → α) (f : List α × List α) : Decidable (Readable unit f) :=
  inferInstanceAs (Decidable (_ ∧ _ ∧ _))

/-- A client id with these parameters. -/
def writeClientid (unit : Char → α) (id : List α) (params : List (List α × List α)) : List α :=
  id ++ unit '|' :: (writeFields (unit ',') (unit '=') params ++ [unit '|'])

variable [DecidableEq α]

/-- What is relied on of the broker. -/
structure Documented (a : Alphabet α) (broker : Broker α) : Prop where
  /-- A device is named by the user name, and no device name holds a `&`. -/
  named : ∀ login productKey deviceName, broker.accepts login = some (productKey, deviceName) →
    login.username = deviceName ++ a.unit '&' :: productKey ∧ a.unit '&' ∉ deviceName
  /-- The password is the MAC of what the user name and a client id of distinct
  fields say, by the method that the client id names, with the secret of the
  device. -/
  verified : ∀ id params productKey deviceName timestamp method mac password,
    a.unit '&' ∉ deviceName → a.unit '|' ∉ id → (params.map Prod.fst).Nodup → (∀ f ∈ params, Readable a.unit f) →
    params.lookup (text a.unit "timestamp") = some timestamp →
    params.lookup (text a.unit "signmethod") = some method → broker.mac method = some mac →
    (broker.accepts ⟨writeClientid a.unit id params, deviceName ++ a.unit '&' :: productKey, password⟩ =
        some (productKey, deviceName) ↔
      broker.admits (writeClientid a.unit id params) ∧ ∃ key, broker.secret productKey deviceName = some key ∧
        a.digits password = some (mac (signed a.unit id productKey deviceName timestamp) key))

/-- What is promised of the credentials that a signer makes for a device with a
secret, by the method `mac`, `id` being its client id without parameters. -/
structure LogsIn (a : Alphabet α) (broker : Broker α) (mac : List α → List α → List Byte)
    (id productKey deviceName timestamp secret : List α) (login : Connect α) : Prop where
  /-- The broker takes the device for no other. -/
  only : ∀ device, broker.accepts login = some device → device = (productKey, deviceName)
  /-- If it admits the client id, it takes it for this one exactly if the device is
  registered with a secret under which the text has the same MAC. -/
  accepts_iff : broker.accepts login = some (productKey, deviceName) ↔
    broker.admits login.clientid ∧ ∃ key, broker.secret productKey deviceName = some key ∧
      mac (signed a.unit id productKey deviceName timestamp) key =
        mac (signed a.unit id productKey deviceName timestamp) secret

/-! ## A broker of this kind -/

/-- The parts of a client id: what stands before its parameters, and these. -/
def readClientid (unit : Char → α) (clientid : List α) : Option (List α × List (List α × List α)) := do
  let (id, rest) ← cut (unit '|') clientid
  let (params, after) ← cut (unit '|') rest
  if after = [] then return (id, ← readFields (unit ',') (unit '=') params) else none

/-- A broker that reads the client id as it was written, and admits every one. -/
def readingBroker (a : Alphabet α) (secret : List α → List α → Option (List α))
    (mac : List α → Option (List α → List α → List Byte)) : Broker α where
  secret := secret
  mac := mac
  admits _ := True
  accepts login := do
    let (deviceName, productKey) ← cut (a.unit '&') login.username
    let (id, params) ← readClientid a.unit login.clientid
    let timestamp ← params.lookup (text a.unit "timestamp")
    let mac ← mac (← params.lookup (text a.unit "signmethod"))
    let key ← secret productKey deviceName
    if a.digits login.password = some (mac (signed a.unit id productKey deviceName timestamp) key) then
      return (productKey, deviceName)
    else none

/-! ## Bytes and UTF-16 -/

/-- The code unit of an ASCII character. -/
def byteUnit (c : Char) : Byte := c.toNat.toUInt8

def utf16Unit (c : Char) : UInt16 := c.toNat.toUInt16

/-- The texts of the C and Go signers. -/
def byteTexts : Alphabet Byte := ⟨byteUnit, Sign.fromHex⟩

/-- The texts of the Java, Android and C# signers. -/
def utf16Texts : Alphabet UInt16 where
  unit := utf16Unit
  digits password := if password.all (· < 0x80) then Sign.fromHex (password.map UInt16.toUInt8) else none

/-- The strings in the arrays of `aiotMqttSign`. -/
def loginOfArrays {m n k : Nat} (clientId : Buf m) (username : Buf n) (password : Buf k) : Connect Byte where
  clientid := clientId.bytes.takeWhile (· ≠ 0)
  username := username.bytes.takeWhile (· ≠ 0)
  password := password.bytes.takeWhile (· ≠ 0)

/-- The fields of `MqttSign` and `AiotMqttOption`. -/
def loginOfCredentials (c : Impl.MqttSign.Credentials) : Connect UInt16 := ⟨c.clientid, c.username, c.password⟩

end Linkkit.Spec.Login
