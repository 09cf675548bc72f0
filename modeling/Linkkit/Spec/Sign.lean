import Linkkit.Spec.Hmac
import Linkkit.Spec.Sha256

/-!
# MQTT credentials

The client id, user name and password of a device, from its product key,
device name and device secret; and how hexadecimal text is read (`fromHex`).
-/

namespace Linkkit.Spec.Sign

/-- The device, `deviceName&productKey`. -/
def deviceId (productKey deviceName : List Byte) : List Byte := deviceName ++ ascii "&" ++ productKey

/-- The client id. -/
def clientId (productKey deviceName : List Byte) : List Byte :=
  deviceId productKey deviceName ++
    ascii "|timestamp=2524608000000,_v=paho-c-1.0.0,securemode=3,signmethod=hmacsha256,lan=C|"

/-- The text that the password signs. -/
def signText (productKey deviceName : List Byte) : List Byte :=
  ascii "clientId" ++ deviceId productKey deviceName ++ ascii "deviceName" ++ deviceName ++
    ascii "productKey" ++ productKey ++ ascii "timestamp" ++ ascii "2524608000000"

/-- An upper-case hexadecimal digit. -/
def hexDigit (d : Nat) : Byte := UInt8.ofNat (if d < 10 then 0x30 + d else 0x41 + (d - 10))

/-- Bytes in upper-case hexadecimal. -/
def upperHex (bs : List Byte) : List Byte :=
  bs.flatMap fun b => [hexDigit (b.toNat / 16), hexDigit (b.toNat % 16)]

/-- The password. -/
def password (productKey deviceName deviceSecret : List Byte) : List Byte :=
  upperHex (hmac Sha256.sha256 64 deviceSecret (signText productKey deviceName))

/-! ## Reading hexadecimal -/

/-- A character in lower case. -/
def lower (c : Byte) : Byte := if 0x41 ≤ c ∧ c ≤ 0x5A then c + 0x20 else c

/-- The value of a hexadecimal digit of either case. -/
def hexValue (c : Byte) : Option Nat :=
  if 0x30 ≤ c ∧ c ≤ 0x39 then some (c.toNat - 0x30)
  else if 0x61 ≤ lower c ∧ lower c ≤ 0x66 then some ((lower c).toNat - 0x61 + 10)
  else none

/-- The bytes that a text of hexadecimal digits denotes, two digits each. -/
def fromHex : List Byte → Option (List Byte)
  | [] => some []
  | [_] => none
  | hi :: lo :: cs => do
    let h ← hexValue hi
    let l ← hexValue lo
    return UInt8.ofNat (16 * h + l) :: (← fromHex cs)

end Linkkit.Spec.Sign
