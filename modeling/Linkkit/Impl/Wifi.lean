import Linkkit.Framework.Int
import Linkkit.Framework.Scan
import Linkkit.Framework.Search

/-!
# The access point a device is connected to

`HAL_Wifi_Get_Ap_Info` of `Vendors/Jabsco/wrapper.c` and of
`Vendors/ubuntu/wrapper.c`. Both let a command write a file and read it: what
the file has is an argument, and `rm` of it is left out. A function has no value
if it would leave an array, use `NULL` as a pointer or read from a stream that is
closed. The sizes are those of the SDK's headers.
-/

namespace Linkkit.Impl.Wifi

/-- `HAL_MAX_SSID_LEN`. -/
abbrev halMaxSsidLen : Nat := 33
/-- `HAL_MAX_PASSWD_LEN`. -/
abbrev halMaxPasswdLen : Nat := 65
/-- `ETH_ALEN`. -/
abbrev ethAlen : Nat := 6

/-! ## Jabsco -/

namespace Jabsco

/-- `MAXLINE`. -/
abbrev maxline : Nat := 256

/-- `"\""`. -/
def quote : List Byte := [0x22]

/-- The loop over the lines, whose body closes the stream: what it leaves in `buff`. -/
def readLines (opened : Bool) (buff : Buf maxline) : List (List Byte) → Option (Buf maxline)
  | [] => if opened then some buff else none
  | line :: lines =>
    if opened then do
      let buff ← buff.memcpy 0 (line ++ [0]) (line.length + 1)
      readLines false buff lines
    else none

/-- What follows the loop. `p1` and `p2` are offsets in `buff`. -/
def parseLine (buff : Buf maxline) (ssid : Option (Buf halMaxSsidLen)) :
    Option (Int32 × Option (Buf halMaxSsidLen)) := do
  if (← strlen buff.bytes) < 2 then
    return (-1, ssid)
  -- What `strstr` returns is used without a test: `NULL` is no offset.
  let p1 ← (← strstr buff.bytes quote)
  let i ← (← strstr (buff.bytes.drop (p1 + 1)) quote)
  let p2 := p1 + 1 + i
  let ssid ← (← ssid).memcpy 0 (buff.bytes.drop (p1 + 1)) (p2 - p1 - 1)
  return (0, some ssid)

/-- `HAL_Wifi_Get_Ap_Info`, `/tmp/ssid` having the bytes `file`, or none if `fopen`
fails: its result and `ssid` after it. `passwd` and `bssid` are not used. -/
def halWifiGetApInfo (file : Option (List Byte)) (ssid : Option (Buf halMaxSsidLen)) :
    Option (Int32 × Option (Buf halMaxSsidLen)) :=
  match file with
  | none => some (-1, ssid)
  | some file => do
    let buff ← readLines true (Buf.zero maxline) (fgetsLines maxline [] file)
    parseLine buff ssid

end Jabsco

/-! ## ubuntu -/

namespace Ubuntu

/-- The files in `/tmp`: their bytes, or none where `fopen` fails. -/
structure Files where
  ssid : Option (List Byte)
  passphrase : Option (List Byte)
  bssid : Option (List Byte)

/-- The caller's arrays, or `NULL`. -/
structure Outputs where
  ssid : Option (Buf halMaxSsidLen)
  passwd : Option (Buf halMaxPasswdLen)
  bssid : Option (Buf ethAlen)
deriving DecidableEq

/-- `read_string_from_file`: `dst` after it. -/
def readStringFromFile {size : Nat} (dst : Buf size) (file : Option (List Byte)) (dstMaxLen : Int32) :
    Option (Buf size) :=
  match file with
  | none => some dst
  | some file =>
    let lSize := Int32.ofNat file.length
    if 1 < lSize ∧ lSize ≤ dstMaxLen then do
      let pos : UInt8 := (lSize - 1).toUInt32.toUInt8
      let dst ← dst.memcpy 0 file (sizeT lSize)
      dst.memset pos.toNat 0 1
    else dst.memset 0 0 1

/-- `if (NULL != dst)`, and `read_string_from_file` then. -/
def readUnlessNull {size : Nat} (dst : Option (Buf size)) (file : Option (List Byte)) (dstMaxLen : Int32) :
    Option (Option (Buf size)) :=
  match dst with
  | none => some none
  | some dst => (readStringFromFile dst file dstMaxLen).map some

/-- `HAL_Wifi_Get_Ap_Info`: its result and the arrays after it. -/
def halWifiGetApInfo (files : Files) (out : Outputs) : Option (Int32 × Outputs) := do
  let ssid ← readUnlessNull out.ssid files.ssid (Int32.ofNat halMaxSsidLen)
  let passwd ← readUnlessNull out.passwd files.passphrase (Int32.ofNat halMaxPasswdLen)
  let bssid ← readUnlessNull out.bssid files.bssid (Int32.ofNat ethAlen)
  return (0, ⟨ssid, passwd, bssid⟩)

end Ubuntu

end Linkkit.Impl.Wifi
