import Linkkit.Framework.Fields
import Linkkit.Framework.Machine
import Linkkit.Impl.Supplicant

/-!
# What the file for `wpa_supplicant` says

The file is read by `wpa_supplicant`, which is no part of this program, so its
reader is a parameter. `Documented` is what is relied on: that it reads a block
`network={ … }` line by line, whatever blanks are at the ends of a line and in
whatever order the fields stand, a string being what is between the quotes at the
ends of its value; and that it refuses a block without its end and a password that
is no passphrase.
-/

namespace Linkkit.Spec.Supplicant

open Impl.Supplicant

/-- A network to connect to. -/
structure Network where
  ssid : List Byte
  psk : List Byte
  keyMgmt : List Byte
  scanSsid : List Byte
deriving DecidableEq

/-- The reader of the file. -/
structure Reader where
  /-- What it takes for a passphrase. -/
  Passphrase : List Byte → Prop
  /-- The network that a file names, if one with a passphrase. -/
  network : List Byte → Option Network

/-- A blank. -/
def isBlank (c : Byte) : Bool := c = 0x20 ∨ c = 0x09 ∨ c = 0x0D

/-- The lines of a file, without the blanks at their ends. -/
def linesOf (conf : List Byte) : List (List Byte) := (conf.splitOn 0x0A).map (trim isBlank)

/-- A string in quotes. -/
def quoted (s : List Byte) : List Byte := 0x22 :: (s ++ [0x22])

/-- The fields of a network with a passphrase that may be hidden. -/
def fields (ssid passwd : List Byte) : List (List Byte × List Byte) :=
  [(ascii "ssid", quoted ssid), (ascii "key_mgmt", ascii "WPA-PSK"), (ascii "scan_ssid", ascii "1"),
    (ascii "psk", quoted passwd)]

/-- The network that these are the fields of. -/
def asked (ssid passwd : List Byte) : Network := ⟨ssid, passwd, ascii "WPA-PSK", ascii "1"⟩

/-- What is relied on of the reader. -/
structure Documented (reader : Reader) : Prop where
  /-- A passphrase has 8 to 63 characters, and no newline. -/
  passphrase : ∀ p, reader.Passphrase p → 8 ≤ p.length ∧ p.length ≤ 63 ∧ 0x0A ∉ p
  /-- A block with these fields is a network, by a name of the length that names
  have and with a passphrase. -/
  block : ∀ conf (fs : List (List Byte × List Byte)) rest ssid passwd,
    linesOf conf = ascii "network=\x7b" :: (fs.map (writeField 0x3D) ++ ascii "\x7d" :: rest) →
    (∀ l ∈ rest, l = []) → fs.Perm (fields ssid passwd) → 1 ≤ ssid.length → ssid.length ≤ 32 →
    reader.Passphrase passwd → reader.network conf = some (asked ssid passwd)
  /-- A block has an end. -/
  ended : ∀ conf n, reader.network conf = some n → ∃ l ∈ linesOf conf, l.head? = some 0x7D
  /-- The password is a passphrase. -/
  psk : ∀ conf n, reader.network conf = some n → reader.Passphrase n.psk

/-! ## A reader of this kind -/

/-- The fields of a block. -/
def readBlock (conf : List Byte) : Option (List (List Byte × List Byte)) :=
  match linesOf conf with
  | first :: lines =>
    if first = ascii "network=\x7b" ∧ ascii "\x7d" ∈ lines then
      (lines.takeWhile (· ≠ ascii "\x7d")).mapM (cut 0x3D)
    else none
  | [] => none

/-- What is between two quotes. -/
def unquote : List Byte → Option (List Byte)
  | q :: value => if q = 0x22 ∧ value.getLast? = some 0x22 then some value.dropLast else none
  | [] => none

/-- 8 to 63 ASCII characters. -/
def IsPassphrase (p : List Byte) : Prop := 8 ≤ p.length ∧ p.length ≤ 63 ∧ ∀ c ∈ p, 0x20 ≤ c ∧ c < 0x7F

instance (p : List Byte) : Decidable (IsPassphrase p) := inferInstanceAs (Decidable (_ ∧ _ ∧ _))

/-- A reader by which a later field of a key stands for an earlier one. -/
def blockReader : Reader where
  Passphrase := IsPassphrase
  network conf := do
    let fields := (← readBlock conf).reverse
    let ssid ← unquote (← fields.lookup (ascii "ssid"))
    let psk ← unquote (← fields.lookup (ascii "psk"))
    let keyMgmt ← fields.lookup (ascii "key_mgmt")
    let scanSsid ← fields.lookup (ascii "scan_ssid")
    if 1 ≤ ssid.length ∧ ssid.length ≤ 32 ∧ IsPassphrase psk then return ⟨ssid, psk, keyMgmt, scanSsid⟩ else none

/-! ## Runs -/

/-- A call. -/
structure Call where
  ssid : CString
  passwd : CString
  fopen : Option Nat

/-- The file after a call, and what the call returns. -/
def step (file : Option (List Byte)) (c : Call) : Option (Option (List Byte) × Int32) :=
  let (ret, file, _) := halAwssConnectAp c.ssid c.passwd c.fopen file
  some (file, ret)

/-- The name is one of a network, in one line, and the strings fit in the caller's
arrays. -/
structure Call.Fits (c : Call) : Prop where
  ssid_pos : 1 ≤ c.ssid.bytes.length
  ssid_le : c.ssid.bytes.length ≤ 32
  ssid_line : 0x0A ∉ c.ssid.bytes
  passwd_le : c.passwd.bytes.length ≤ 64

/-- The string is written, but perhaps for the newline that it ends with. -/
def Call.Whole (c : Call) : Prop := ∃ written, c.fopen = some written ∧ (suppconf c.ssid c.passwd).length ≤ written + 1

/-- `c` is the last call that returned 0. -/
def Last (c : Call) (hist : List (Call × Int32)) : Prop := Since (· = (c, 0)) (fun e => e.2 ≠ 0) hist

/-- The file names the network of a call. -/
def Names (reader : Reader) (file : Option (List Byte)) (c : Call) : Prop :=
  file.bind reader.network = some (asked c.ssid.bytes c.passwd.bytes)

end Linkkit.Spec.Supplicant
