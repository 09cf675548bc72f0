import Linkkit.Framework.Buf

/-!
# The access points of the ubuntu wrapper

`HAL_Awss_Connect_Ap`, `HAL_Awss_Open_Ap` and `HAL_Awss_Close_Ap` of
`Vendors/ubuntu/wrapper.c`. Each formats its commands one by one into a buffer,
and gives them to `system`, whose results it does not read; all three return 0.
The arguments that are left out are not read either.
-/

namespace Linkkit.Impl.Ap

/-- `g_ifname`. -/
def gIfname : List Byte := ascii "wlx00259cf84f36"

/-- The arguments of `snprintf` behind the buffer. -/
structure Format where
  fmt : String
  args : List (List Byte)

/-- The command that `system` gets from a buffer of `size` bytes. -/
def Format.command (size : Nat) (f : Format) : List Byte := snprintf size f.fmt f.args

/-! ## `HAL_Awss_Connect_Ap` -/

/-- What `HAL_Awss_Connect_Ap` formats. -/
def connectApFormats (ssid passwd : CString) : List Format :=
  let wifiName := ascii "linkkit"
  [⟨"nmcli connection down %s", [wifiName]⟩,
    ⟨"nmcli connection delete %s", [wifiName]⟩,
    ⟨"nmcli connection add con-name %s ifname %s type wifi ssid %s", [wifiName, gIfname, ssid.bytes]⟩] ++
  (if passwd.bytes.length = 0 then
    [⟨"nmcli connection modify %s wifi-sec.key-mgmt %s", [ascii "none", wifiName]⟩]
  else
    [⟨"nmcli connection modify %s wifi-sec.key-mgmt %s", [wifiName, ascii "wpa-psk"]⟩,
      ⟨"nmcli connection modify %s wifi-sec.psk %s", [wifiName, passwd.bytes]⟩]) ++
  [⟨"nmcli connection up %s", [wifiName]⟩]

/-- `HAL_Awss_Connect_Ap`: its commands. -/
def halAwssConnectAp (ssid passwd : CString) : List (List Byte) :=
  (connectApFormats ssid passwd).map (Format.command 128)

/-! ## `HAL_Awss_Open_Ap` and `HAL_Awss_Close_Ap` -/

/-- The size of `g_opened_ap`. -/
abbrev gOpenedApSize : Nat := 36

/-- What `HAL_Awss_Open_Ap` formats. -/
def openApFormats (ssid : CString) : List Format :=
  let staSsid := ascii "linkkit"
  let apSsid := ssid.bytes
  let apPasswd := ascii ""
  [⟨"ifconfig %s down", [gIfname]⟩,
    ⟨"nmcli connection down %s", [apSsid]⟩,
    ⟨"nmcli connection delete %s", [staSsid]⟩,
    ⟨"nmcli connection delete %s", [apSsid]⟩,
    ⟨"nmcli connection add con-name %s type wifi ifname %s autoconnect yes ssid %s mode ap",
      [apSsid, gIfname, apSsid]⟩] ++
  (if apPasswd.length = 0 then
    [⟨"nmcli connection modify %s 802-11-wireless.mode ap ipv4.method shared", [apSsid]⟩]
  else
    [⟨"nmcli connection modify %s 802-11-wireless.mode ap 802-11-wireless-security.key-mgmt wpa-psk ipv4.method shared 802-11-wireless-security.psk %s",
      [apSsid, apPasswd]⟩]) ++
  [⟨"nmcli connection up %s", [apSsid]⟩]

/-- `HAL_Awss_Open_Ap`: `g_opened_ap` after it, and its commands. -/
def halAwssOpenAp (ssid : CString) (gOpenedAp : Buf gOpenedApSize) :
    Option (Buf gOpenedApSize × List (List Byte)) := do
  let commands := (openApFormats ssid).map (Format.command 256)
  let len ← strlen ssid.mem
  let gOpenedAp ← if len < gOpenedApSize then gOpenedAp.memcpy 0 ssid.mem len else some gOpenedAp
  return (gOpenedAp, commands)

/-- `HAL_Awss_Close_Ap`: `g_opened_ap` after it, and its commands. -/
def halAwssCloseAp (gOpenedAp : Buf gOpenedApSize) : Option (Buf gOpenedApSize × List (List Byte)) := do
  let len ← strlen gOpenedAp.bytes
  let command := snprintf 256 "nmcli connection down %s" [gOpenedAp.bytes.take len]
  return (← gOpenedAp.memset 0 0 gOpenedApSize, [command])

end Linkkit.Impl.Ap
