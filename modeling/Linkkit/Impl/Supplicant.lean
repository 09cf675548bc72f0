import Linkkit.Framework.Buf

/-!
# Connecting, on the Jabsco board

`HAL_Awss_Connect_Ap` of `Vendors/Jabsco/wrapper.c`: the file it writes for
`wpa_supplicant`, unless `fopen` fails, and the commands it gives to `system`,
whose results it only prints. `fputs` and `fclose` can fail too, which it does not
look at. The arguments that are left out are not read.
-/

namespace Linkkit.Impl.Supplicant

/-- The string in `suppconf`; `sizeof (suppconf)` is 255. -/
def suppconf (ssid passwd : CString) : List Byte :=
  snprintf (255 - 1) "network=\x7b\n    ssid=\"%s\" \n    key_mgmt=WPA-PSK\n    scan_ssid=1\n    psk=\"%s\"\n\x7d\n"
    [ssid.bytes, passwd.bytes]

/-- `HAL_Awss_Connect_Ap`, `fopen` giving no stream or one by which `fputs` and
`fclose` write as many bytes of the string as it says: what the call returns, the
file `/opt/conf/airlink/supplicantOK.conf` after it, and its commands. -/
def halAwssConnectAp (ssid passwd : CString) (fopen : Option Nat) (file : Option (List Byte)) :
    Int32 × Option (List Byte) × List (List Byte) :=
  match fopen with
  | none => (-1, file, [])
  | some written => (0, some ((suppconf ssid passwd).take written),
    [ascii "lzbox wifictl on; sleep 5", ascii "lzbox wifictl dhcp; sleep 3;"])

end Linkkit.Impl.Supplicant
