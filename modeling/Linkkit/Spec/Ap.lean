import Linkkit.Framework.Machine
import Linkkit.Framework.Shell
import Linkkit.Impl.Ap

/-!
# What the access points promise

The commands of `HAL_Awss_Connect_Ap`, as a shell reads them, are about the
connection `linkkit`, and carry the name and the password of the network
(`Intended`). In every run of `HAL_Awss_Open_Ap` and `HAL_Awss_Close_Ap` the second
closes the access point that the first opened last (`ClosesLast`).
-/

namespace Linkkit.Spec.Ap

open Impl.Ap

/-! ## `HAL_Awss_Connect_Ap` -/

/-- The words of a command, given as literals. -/
def words (ws : List String) : List (List Byte) := ws.map ascii

/-- The value behind the name of a property. -/
def property (name : String) : List (List Byte) → Option (List Byte)
  | n :: value :: args => if n = ascii name then some value else property name args
  | _ => none

/-- The connection that the arguments of `nmcli connection` name: that which
`con-name` gives of one to add, the first argument of the other commands. -/
def target : List (List Byte) → Option (List Byte)
  | verb :: args => if verb = ascii "add" then property "con-name" args else args.head?
  | [] => none

/-- The command runs `nmcli connection` with these arguments, and nothing else. -/
def Runs (command : List Byte) (args : List (List Byte)) : Prop :=
  Shell.commands command = some [words ["nmcli", "connection"] ++ args]

/-- `HAL_Awss_Connect_Ap` gives the commands that connect to a network. -/
structure Intended (ssid passwd : CString) : Prop where
  /-- The buffer holds every command. -/
  whole : ∀ f ∈ connectApFormats ssid passwd, f.command 128 = format (ascii f.fmt) f.args
  target : ∀ c ∈ halAwssConnectAp ssid passwd, ∃ args, Runs c args ∧ target args = some (ascii "linkkit")
  adds : ∃ c ∈ halAwssConnectAp ssid passwd, ∃ args, Runs c (ascii "add" :: args) ∧
    property "ssid" args = some ssid.bytes
  modifies : passwd.bytes ≠ [] → ∃ c ∈ halAwssConnectAp ssid passwd, ∃ name args,
    Runs c (ascii "modify" :: name :: args) ∧ property "wifi-sec.psk" args = some passwd.bytes

/-! ## `HAL_Awss_Open_Ap` and `HAL_Awss_Close_Ap` -/

/-- A call. -/
inductive Call where
  | openAp (ssid : CString)
  | closeAp

/-- A call, from `g_opened_ap` on, with its commands. -/
def step (gOpenedAp : Buf gOpenedApSize) : Call → Option (Buf gOpenedApSize × List (List Byte))
  | .openAp ssid => halAwssOpenAp ssid gOpenedAp
  | .closeAp => halAwssCloseAp gOpenedAp

/-- A name has 1 to 32 bytes. -/
def Call.Valid : Call → Prop
  | .openAp ssid => 1 ≤ ssid.bytes.length ∧ ssid.bytes.length ≤ 32
  | .closeAp => True

/-- The name that was opened last, empty if none was or there was a close after
it. -/
def opened (h : List (Call × List (List Byte))) : List Byte :=
  match h.getLast? with
  | some (.openAp ssid, _) => ssid.bytes
  | _ => []

/-- `g_opened_ap` as a string. -/
def name (gOpenedAp : Buf gOpenedApSize) : Option (List Byte) :=
  (strlen gOpenedAp.bytes).map gOpenedAp.bytes.take

/-- `g_opened_ap` is the name that was opened last, and a close of it takes it
down. -/
def ClosesLast (gOpenedAp : Buf gOpenedApSize) (h : List (Call × List (List Byte))) : Prop :=
  name gOpenedAp = some (opened h) ∧
    ∀ g commands, h = g ++ [(.closeAp, commands)] → opened g ≠ [] →
      commands = [ascii "nmcli connection down " ++ opened g]

/-- The name to open is as long as that in `g_opened_ap`, or longer. -/
def NotShorter (gOpenedAp : Buf gOpenedApSize) : Call → Prop
  | .openAp ssid => ∀ last, name gOpenedAp = some last → last.length ≤ ssid.bytes.length
  | .closeAp => True

end Linkkit.Spec.Ap
