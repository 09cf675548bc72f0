import Linkkit.Impl.Sha256

/-!
# The MQTT signer

`aiotMqttSign` of `Paho_MQTT_Guide/aiot_mqtt_sign.c`, line by line. Every
`memcpy`, `memset` and store is checked against its array and every `strlen`
against its object, so the function has a value exactly if none of them leaves
it.
-/

namespace Linkkit.Impl.Sign

open Impl.Sha256 (Context utilsHmacSha256)

/-- `PRODUCTKEY_MAXLEN`. -/
abbrev productKeyMaxLen : Nat := 20
/-- `DEVICENAME_MAXLEN`. -/
abbrev deviceNameMaxLen : Nat := 32
/-- `DEVICESECRET_MAXLEN`. -/
abbrev deviceSecretMaxLen : Nat := 64
/-- `SIGN_SOURCE_MAXLEN`. -/
abbrev signSourceMaxLen : Nat := 200
/-- `CLIENTID_MAXLEN`. -/
abbrev clientIdMaxLen : Nat := 150
/-- `USERNAME_MAXLEN`. -/
abbrev usernameMaxLen : Nat := 64
/-- `PASSWORD_MAXLEN`. -/
abbrev passwordMaxLen : Nat := 65

/-- A string literal in memory. -/
def lit (s : String) : List Byte := ascii s ++ [0]

/-- `TIMESTAMP_VALUE`. -/
def timestampValue : List Byte := lit "2524608000000"
/-- `MQTT_CLINETID_KV`. -/
def mqttClinetidKv : List Byte :=
  lit "|timestamp=2524608000000,_v=paho-c-1.0.0,securemode=3,signmethod=hmacsha256,lan=C|"

/-- `zEncode`. -/
def zEncode : List Byte := lit "0123456789ABCDEF"

/-- `n` passes of the loop of `_hex2str` from `i` and `j` on. -/
def hex2strLoop {size : Nat} (input : List Byte) : Nat → Nat → Nat → Buf size → Option (Buf size)
  | 0, _, _, output => some output
  | n + 1, i, j, output => do
    let b ← input[i]?
    let hi ← zEncode[((b >>> 4) &&& 0xf).toNat]?
    let output ← output.memcpy j [hi] 1
    let lo ← zEncode[(b &&& 0xf).toNat]?
    let output ← output.memcpy (j + 1) [lo] 1
    hex2strLoop input n (i + 1) (j + 2) output

/-- `_hex2str`: `output` after it. -/
def hex2str {size : Nat} (input : List Byte) (inputLen : UInt16) (output : Buf size) : Option (Buf size) :=
  hex2strLoop input inputLen.toNat 0 0 output

/-- `memcpy (dst + strlen (dst), src, strlen (src))`. -/
def append {size : Nat} (dst : Buf size) (src : List Byte) : Option (Buf size) := do
  dst.memcpy (← strlen dst.bytes) src (← strlen src)

/-- The caller's arrays, or `NULL`. -/
structure Outputs where
  clientId : Option (Buf clientIdMaxLen)
  username : Option (Buf usernameMaxLen)
  password : Option (Buf passwordMaxLen)
deriving DecidableEq

/-- The size of `deviceId`. -/
abbrev deviceIdSize : Nat := productKeyMaxLen + deviceNameMaxLen + 2

/-- `deviceId`. -/
def setupDeviceId (productKey deviceName : CString) : Option (Buf deviceIdSize) := do
  let deviceId := Buf.zero deviceIdSize
  let deviceId ← deviceId.memcpy 0 deviceName.mem (← strlen deviceName.mem)
  let deviceId ← append deviceId (lit "&")
  append deviceId productKey.mem

/-- `clientId`. -/
def setupClientId (deviceId : List Byte) (clientId : Buf clientIdMaxLen) : Option (Buf clientIdMaxLen) := do
  let clientId ← clientId.memcpy 0 deviceId (← strlen deviceId)
  let clientId ← clientId.memcpy (← strlen deviceId) mqttClinetidKv (← strlen mqttClinetidKv)
  clientId.memset ((← strlen deviceId) + (← strlen mqttClinetidKv)) 0 1

/-- `username`. -/
def setupUsername (deviceId : List Byte) (username : Buf usernameMaxLen) : Option (Buf usernameMaxLen) := do
  let username ← username.memcpy 0 deviceId (← strlen deviceId)
  username.memset (← strlen deviceId) 0 1

/-- `macSrc`. -/
def setupMacSrc (deviceId : List Byte) (productKey deviceName : CString) : Option (Buf signSourceMaxLen) := do
  let macSrc := Buf.zero signSourceMaxLen
  let macSrc ← macSrc.memcpy 0 (lit "clientId") (← strlen (lit "clientId"))
  let macSrc ← append macSrc deviceId
  let macSrc ← append macSrc (lit "deviceName")
  let macSrc ← append macSrc deviceName.mem
  let macSrc ← append macSrc (lit "productKey")
  let macSrc ← append macSrc productKey.mem
  let macSrc ← append macSrc (lit "timestamp")
  append macSrc timestampValue

/-- `password`; the local context of `utils_hmac_sha256` holds `context` at
first. -/
def setupPassword (context : Context) (macSrc : List Byte) (deviceSecret : CString)
    (password : Buf passwordMaxLen) : Option (Buf passwordMaxLen) := do
  let macRes := Buf.zero 32
  let macRes ← utilsHmacSha256 context macSrc (UInt32.ofNat (← strlen macSrc)) deviceSecret.mem
    (UInt32.ofNat (← strlen deviceSecret.mem)) macRes
  let password ← password.memset 0 0 passwordMaxLen
  hex2str macRes.bytes 32 password

/-- `aiotMqttSign`: its result, and the caller's arrays after it. -/
def aiotMqttSign (context : Context) (productKey deviceName deviceSecret : Option CString)
    (out : Outputs) : Option (Int32 × Outputs) :=
  match productKey, deviceName, deviceSecret, out with
  | some productKey, some deviceName, some deviceSecret, ⟨some clientId, some username, some password⟩ => do
    if (← strlen productKey.mem) > productKeyMaxLen ∨ (← strlen deviceName.mem) > deviceNameMaxLen ∨
        (← strlen deviceSecret.mem) > deviceSecretMaxLen then
      return (-1, out)
    let deviceId ← setupDeviceId productKey deviceName
    let clientId ← setupClientId deviceId.bytes clientId
    let username ← setupUsername deviceId.bytes username
    let macSrc ← setupMacSrc deviceId.bytes productKey deviceName
    let password ← setupPassword context macSrc.bytes deviceSecret password
    return (0, ⟨some clientId, some username, some password⟩)
  | _, _, _, _ => some (-1, out)

end Linkkit.Impl.Sign
