import Linkkit.Impl.Wifi
import Linkkit.Spec.Sign

/-!
# What `HAL_Wifi_Get_Ap_Info` promises

In Jabsco's the name of the network stands between the first two quotes of a
line of text (`Parsed`). In ubuntu's there is a file for each field of the
network (`Shown`), and the arrays have the fields after the call (`Reported`).
-/

namespace Linkkit.Spec.Wifi

open Impl.Wifi

/-- An array holds a string. -/
def Holds {n : Nat} (a : Buf n) (s : List Byte) : Prop := ∃ rest, a.bytes = s ++ 0 :: rest

/-! ## Jabsco -/

/-- The name in a line, if the array has room for it and a terminator. -/
def Named (line name : List Byte) : Prop := Between 0x22 line name ∧ name.length ≤ halMaxSsidLen - 1

/-- The line that `fgets` leaves in `buff`, which is empty before. -/
def lineOf (file : Option (List Byte)) : List Byte :=
  ((fgetsLines Jabsco.maxline [] (file.getD [])).headD []).takeWhile (· ≠ 0)

/-- The result and `ssid` after a call on a line, from `ssid` before it. -/
structure Parsed (line : List Byte) (ssid : Buf halMaxSsidLen)
    (r : Option (Int32 × Option (Buf halMaxSsidLen))) : Prop where
  named : ∀ name, Named line name → ∃ ssid', r = some (0, some ssid') ∧ Holds ssid' name
  unnamed : (¬ ∃ name, Named line name) → r = some (-1, some ssid)

/-- The line is shorter than the test of its length asks, or has a name that
ends at a terminator that is in `ssid` already. -/
def EndsAlready (line : List Byte) (ssid : Buf halMaxSsidLen) : Prop :=
  line.length < 2 ∨ ∃ name, Named line name ∧ ssid.bytes[name.length]? = some 0

/-! ## ubuntu -/

/-- A network that a device is connected to. -/
structure Network where
  ssid : CString
  passphrase : CString
  bssid : Buf ethAlen
  length_ssid : 1 ≤ ssid.bytes.length ∧ ssid.bytes.length ≤ 32
  length_passphrase : passphrase.bytes.length ≤ 64

/-- An octet as `%02x` prints it. -/
def octetText (b : Byte) : List Byte := (Sign.upperHex [b]).map Sign.lower

/-- Octets with colons between them. -/
def macText (octets : List Byte) : List Byte := (ascii ":").intercalate (octets.map octetText)

example : macText [0xde, 0xad, 0, 0x1f, 7, 0xff] = ascii "de:ad:00:1f:07:ff" := by decide

/-- A file has the text of a field and a newline, or nothing of one that is
absent. -/
def Printed (text : List Byte) (file : Option (List Byte)) : Prop :=
  file = some (text ++ [0x0A]) ∨ text = [] ∧ file = some []

/-- The files that are written for a network. -/
structure Shown (n : Network) (files : Ubuntu.Files) : Prop where
  ssid : Printed n.ssid.bytes files.ssid
  passphrase : Printed n.passphrase.bytes files.passphrase
  bssid : Printed (macText n.bssid.bytes) files.bssid

/-- A call returns 0 and the arrays have the network. -/
def Reported (n : Network) (r : Option (Int32 × Ubuntu.Outputs)) : Prop :=
  ∃ ssid passwd, r = some (0, ⟨some ssid, some passwd, some n.bssid⟩) ∧ Holds ssid n.ssid.bytes ∧
    Holds passwd n.passphrase.bytes

end Linkkit.Spec.Wifi
