import Linkkit.Impl.Sign
import Linkkit.Proof.Sha256.Hmac
import Linkkit.Spec.Sign

/-!
# `aiotMqttSign` makes the credentials

`deviceId` and `macSrc` are zero past what has been appended to them, so that
each `strlen` finds the end of it (`append_eq`, `appends_eq`); `clientId` and
`username` are the caller's, and each store continues the one before
(`Buf.memcpy_prefix`). `aiotMqttSign_credentials` is the whole call.
-/

namespace Linkkit.Proof.Sign

open Impl.Sign
open Impl.Sha256 (Context)
open Spec.Sign (deviceId signText hexDigit upperHex)
open Spec (hmac)
open Spec.Sha256 (sha256)

/-! ## Strings that grow -/

/-- A string appended to one in an array that is zero past it. -/
theorem append_eq {n : Nat} (s t : CString) (rest : List Byte) (h : (s.append t).bytes.length < n) :
    append (Buf.ofList n s.bytes) (t.bytes ++ 0 :: rest) = some (Buf.ofList n (s.append t).bytes) := by
  rw [CString.bytes_append, List.length_append] at h
  have hs : strlen (Buf.ofList n s.bytes).bytes = some s.bytes.length :=
    Buf.strlen_ofList s.noNul (by omega)
  have ht : strlen (t.bytes ++ 0 :: rest) = some t.bytes.length := strlen_string t.noNul rest
  have hm := Buf.memcpy_ofList (t.bytes ++ 0 :: rest) (Nat.le_of_lt h) (by rw [List.length_append]; omega)
  simp only [append, hs, ht, Option.bind_eq_bind, Option.bind_some, hm, List.take_left, CString.bytes_append]

/-- Strings appended one after another, each in an object of its own. -/
theorem appends_eq {n : Nat} (s : CString) (ts : List (CString × List Byte))
    (h : (s.bytes ++ ts.flatMap fun t => t.1.bytes).length < n) :
    ts.foldlM (fun dst t => append dst (t.1.bytes ++ 0 :: t.2)) (Buf.ofList n s.bytes) =
      some (Buf.ofList n (s.bytes ++ ts.flatMap fun t => t.1.bytes)) := by
  induction ts generalizing s with
  | nil => rw [List.flatMap_nil, List.append_nil]; rfl
  | cons t ts ih =>
    rw [List.flatMap_cons, ← List.append_assoc] at h ⊢
    have ht : (s.append t.1).bytes.length < n := by
      rw [List.length_append] at h
      exact Nat.lt_of_le_of_lt (Nat.le_add_right _ _) h
    rw [List.foldlM_cons, append_eq s t.1 t.2 ht, Option.bind_eq_bind, Option.bind_some]
    exact ih (s.append t.1) h

/-- The device as a string. -/
def device (productKey deviceName : CString) : CString :=
  (deviceName.append ⟨ascii "&", by decide⟩).append productKey

theorem length_device (productKey deviceName : CString) :
    (device productKey deviceName).bytes.length = deviceName.bytes.length + 1 + productKey.bytes.length := by
  simp only [device, CString.bytes_append, List.length_append]
  rfl

/-- The text that is signed, as a string. -/
def text (productKey deviceName : CString) : CString where
  bytes := signText productKey.bytes deviceName.bytes
  noNul := by
    have hp := productKey.noNul
    have hd := deviceName.noNul
    have hc : 0 ∉ ascii "clientId" := by decide
    have ha : 0 ∉ ascii "&" := by decide
    have hn : 0 ∉ ascii "deviceName" := by decide
    have hk : 0 ∉ ascii "productKey" := by decide
    have ht : 0 ∉ ascii "timestamp" := by decide
    have hv : 0 ∉ ascii "2524608000000" := by decide
    simp only [signText, Spec.Sign.deviceId, List.mem_append, not_or]
    exact ⟨⟨⟨⟨⟨⟨⟨hc, ⟨hd, ha⟩, hp⟩, hn⟩, hd⟩, hk⟩, hp⟩, ht⟩, hv⟩

theorem length_text (productKey deviceName : CString) :
    (text productKey deviceName).bytes.length =
      51 + 2 * deviceName.bytes.length + 2 * productKey.bytes.length := by
  have hc : (ascii "clientId").length = 8 := rfl
  have ha : (ascii "&").length = 1 := rfl
  have hn : (ascii "deviceName").length = 10 := rfl
  have hk : (ascii "productKey").length = 10 := rfl
  have ht : (ascii "timestamp").length = 9 := rfl
  have hv : (ascii "2524608000000").length = 13 := rfl
  simp only [text, signText, Spec.Sign.deviceId, List.length_append, hc, ha, hn, hk, ht, hv]
  omega

section

variable {productKey deviceName : CString} (hp : productKey.bytes.length ≤ 20)
  (hd : deviceName.bytes.length ≤ 32)

include hp hd

theorem setupDeviceId_eq :
    setupDeviceId productKey deviceName = some (Buf.ofList deviceIdSize (device productKey deviceName).bytes) := by
  have hn := strlen_mem deviceName
  have h₁ : (Buf.zero deviceIdSize).memcpy 0 deviceName.mem deviceName.bytes.length =
      some (Buf.ofList deviceIdSize deviceName.bytes) := by
    rw [Buf.memcpy_zero (Nat.le_trans hd (by decide))
      (by rw [CString.mem, List.length_append]; omega), CString.mem, List.take_left]
  let ts : List (CString × List Byte) := [(⟨ascii "&", by decide⟩, []), (productKey, [])]
  have he : deviceName.bytes ++ ts.flatMap (fun t => t.1.bytes) = (device productKey deviceName).bytes := by
    simp only [ts, device, List.flatMap_cons, List.flatMap_nil, List.append_nil, CString.bytes_append,
      List.append_assoc]
  have h₂ := appends_eq (n := deviceIdSize) deviceName ts (by rw [he, length_device]; show _ < 54; omega)
  rw [he] at h₂
  simp only [ts, List.foldlM_cons, List.foldlM_nil, Option.bind_eq_bind, Option.pure_def,
    Option.bind_fun_some] at h₂
  simp only [setupDeviceId, hn, Option.bind_eq_bind, Option.bind_some, h₁]
  exact h₂

theorem setupMacSrc_eq (rest : List Byte) :
    setupMacSrc ((device productKey deviceName).bytes ++ 0 :: rest) productKey deviceName =
      some (Buf.ofList signSourceMaxLen (text productKey deviceName).bytes) := by
  have hn : strlen (lit "clientId") = some 8 := rfl
  have h₁ : (Buf.zero signSourceMaxLen).memcpy 0 (lit "clientId") 8 =
      some (Buf.ofList signSourceMaxLen (ascii "clientId")) := Buf.memcpy_zero (by decide) (by decide)
  let ts : List (CString × List Byte) := [(device productKey deviceName, rest),
    (⟨ascii "deviceName", by decide⟩, []), (deviceName, []), (⟨ascii "productKey", by decide⟩, []),
    (productKey, []), (⟨ascii "timestamp", by decide⟩, []), (⟨ascii "2524608000000", by decide⟩, [])]
  have he : ascii "clientId" ++ ts.flatMap (fun t => t.1.bytes) = (text productKey deviceName).bytes := by
    simp only [ts, text, signText, Spec.Sign.deviceId, device, List.flatMap_cons, List.flatMap_nil,
      List.append_nil, CString.bytes_append, List.append_assoc]
  have h₂ := appends_eq (n := signSourceMaxLen) ⟨ascii "clientId", by decide⟩ ts
    (by rw [he, length_text]; show _ < 200; omega)
  rw [he] at h₂
  simp only [ts, List.foldlM_cons, List.foldlM_nil, Option.bind_eq_bind, Option.pure_def,
    Option.bind_fun_some] at h₂
  simp only [setupMacSrc, hn, Option.bind_eq_bind, Option.bind_some, h₁]
  exact h₂

end

/-! ## The caller's arrays -/

/-- The fields after the device, as a string. -/
def fields : CString :=
  ⟨ascii "|timestamp=2524608000000,_v=paho-c-1.0.0,securemode=3,signmethod=hmacsha256,lan=C|", by decide⟩

theorem length_fields : fields.bytes.length = 82 := by decide +kernel

section

variable {dev : CString} (hl : dev.bytes.length ≤ 53) (rest : List Byte)

include hl

theorem setupClientId_eq (clientId : Buf clientIdMaxLen) :
    ∃ c, setupClientId (dev.bytes ++ 0 :: rest) clientId = some c ∧
      c.bytes = dev.bytes ++ fields.bytes ++ 0 :: clientId.bytes.drop ((dev.bytes ++ fields.bytes).length + 1) := by
  have hs : strlen (dev.bytes ++ 0 :: rest) = some dev.bytes.length := strlen_string dev.noNul rest
  have hkv : mqttClinetidKv = fields.bytes ++ [0] := rfl
  have hk : strlen mqttClinetidKv = some fields.bytes.length := strlen_string fields.noNul []
  have lf := length_fields
  obtain ⟨c₁, h₁, e₁⟩ := clientId.memcpy_string dev rest (show dev.bytes.length ≤ 150 by omega)
  obtain ⟨c₂, h₂, e₂⟩ := c₁.memcpy_prefix mqttClinetidKv e₁
    (show dev.bytes.length + fields.bytes.length ≤ 150 by omega) (by rw [hkv, List.length_append]; omega)
  rw [hkv, List.take_left] at e₂
  obtain ⟨c₃, h₃, e₃⟩ := c₂.memset_nul e₂
    (show (dev.bytes ++ fields.bytes).length < 150 by rw [List.length_append]; omega)
  rw [List.length_append] at h₃
  refine ⟨c₃, ?_, e₃⟩
  simp only [setupClientId, hs, hk, Option.bind_eq_bind, Option.bind_some, h₁, h₂, h₃]

theorem setupUsername_eq (username : Buf usernameMaxLen) :
    ∃ u, setupUsername (dev.bytes ++ 0 :: rest) username = some u ∧
      u.bytes = dev.bytes ++ 0 :: username.bytes.drop (dev.bytes.length + 1) := by
  have hs : strlen (dev.bytes ++ 0 :: rest) = some dev.bytes.length := strlen_string dev.noNul rest
  obtain ⟨u₁, h₁, e₁⟩ := username.memcpy_string dev rest (show dev.bytes.length ≤ 64 by omega)
  obtain ⟨u₂, h₂, e₂⟩ := u₁.memset_nul e₁ (show dev.bytes.length < 64 by omega)
  refine ⟨u₂, ?_, e₂⟩
  simp only [setupUsername, hs, Option.bind_eq_bind, Option.bind_some, h₁, h₂]

end

/-! ## The password -/

theorem zEncode_digit {d : Nat} (h : d < 16) : zEncode[d]? = some (hexDigit d) := by
  have hall : ∀ d < 16, zEncode[d]? = some (hexDigit d) := by decide
  exact hall d h

theorem length_upperHex (bs : List Byte) : (upperHex bs).length = 2 * bs.length := by
  induction bs with
  | nil => rfl
  | cons b bs ih =>
    rw [upperHex, List.flatMap_cons, List.length_append]
    show 2 + (upperHex bs).length = _
    rw [ih, List.length_cons]
    omega

/-- The two digits of a byte. -/
theorem nibbles (b : Byte) : ((b >>> 4) &&& 0xf).toNat = b.toNat / 16 ∧ (b &&& 0xf).toNat = b.toNat % 16 := by
  have hb := b.toNat_lt
  have hs : (b >>> 4).toNat = b.toNat / 16 := by
    rw [UInt8.toNat_shiftRight]
    exact Nat.shiftRight_eq_div_pow _ 4
  constructor
  · rw [UInt8.toNat_and, hs]
    exact (Nat.and_two_pow_sub_one_eq_mod _ 4).trans (Nat.mod_eq_of_lt (by omega))
  · rw [UInt8.toNat_and]
    exact Nat.and_two_pow_sub_one_eq_mod _ 4

theorem hex2strLoop_eq {size : Nat} {input : List Byte} (hs : 2 * input.length ≤ size) {n i : Nat}
    (hn : i + n = input.length) :
    hex2strLoop input n i (2 * i) (Buf.ofList size (upperHex (input.take i))) =
      some (Buf.ofList size (upperHex input)) := by
  induction n generalizing i with
  | zero => rw [hex2strLoop, List.take_of_length_le (by omega)]
  | succ n ih =>
    have hi : i < input.length := by omega
    have hlen : (upperHex (input.take i)).length = 2 * i := by
      rw [length_upperHex, List.length_take, Nat.min_eq_left (Nat.le_of_lt hi)]
    obtain ⟨hhi, hlo⟩ := nibbles input[i]
    have hb := input[i].toNat_lt
    have ghi := zEncode_digit (show input[i].toNat / 16 < 16 by omega)
    have glo := zEncode_digit (show input[i].toNat % 16 < 16 by omega)
    have h₁ := Buf.memcpy_ofList (n := size) (l := upperHex (input.take i)) [hexDigit (input[i].toNat / 16)]
      (by rw [hlen]; show 2 * i + 1 ≤ size; omega) (Nat.le_refl 1)
    have h₂ := Buf.memcpy_ofList (n := size)
      (l := upperHex (input.take i) ++ [hexDigit (input[i].toNat / 16)]) [hexDigit (input[i].toNat % 16)]
      (by rw [List.length_append, hlen]; show 2 * i + 1 + 1 ≤ size; omega) (Nat.le_refl 1)
    have hnext : upperHex (input.take i) ++ [hexDigit (input[i].toNat / 16)] ++
        [hexDigit (input[i].toNat % 16)] = upperHex (input.take (i + 1)) := by
      rw [List.take_add_one, List.getElem?_eq_getElem hi, upperHex, upperHex, List.flatMap_append, List.append_assoc]
      rfl
    rw [hlen] at h₁
    rw [List.length_append, hlen] at h₂
    simp only [List.take_succ_cons, List.take_zero, List.length_singleton, hnext] at h₁ h₂
    simp only [hex2strLoop, List.getElem?_eq_getElem hi, Option.bind_eq_bind, Option.bind_some, hhi, hlo, ghi, glo,
      h₁, h₂]
    exact ih (by omega)

/-- `_hex2str` of a MAC, into zeros. -/
theorem hex2str_eq (mac : Buf 32) :
    hex2str mac.bytes 32 (Buf.zero 65) = some (Buf.ofList 65 (upperHex mac.bytes)) := by
  have hz : Buf.zero 65 = Buf.ofList 65 (upperHex (mac.bytes.take 0)) := by
    rw [List.take_zero, upperHex, List.flatMap_nil, Buf.ofList_nil]
  rw [hz]
  exact hex2strLoop_eq (by rw [mac.length_eq]; decide) (show 0 + 32 = mac.bytes.length from mac.length_eq.symm)

theorem length_upperHex_mac (mac : Buf 32) : (upperHex mac.bytes).length = 64 := by
  rw [length_upperHex, mac.length_eq]

theorem bytes_ofList_upperHex (mac : Buf 32) :
    (Buf.ofList 65 (upperHex mac.bytes)).bytes = upperHex mac.bytes ++ [0] := by
  rw [Buf.bytes_ofList_lt (by rw [length_upperHex_mac]; decide), length_upperHex_mac]
  rfl

theorem setupPassword_eq (context : Context) {text deviceSecret : CString} (ht : text.bytes.length < 200)
    (hk : deviceSecret.bytes.length ≤ 64) (password : Buf passwordMaxLen) :
    ∃ p, setupPassword context (Buf.ofList signSourceMaxLen text.bytes).bytes deviceSecret password = some p ∧
      p.bytes = upperHex (hmac sha256 64 deviceSecret.bytes text.bytes) ++ [0] := by
  have hs : strlen (Buf.ofList signSourceMaxLen text.bytes).bytes = some text.bytes.length :=
    Buf.strlen_ofList text.noNul ht
  have hd := strlen_mem deviceSecret
  have nt : (UInt32.ofNat text.bytes.length).toNat = text.bytes.length :=
    UInt32.toNat_ofNat_of_lt' (show _ < 4294967296 by omega)
  have nk : (UInt32.ofNat deviceSecret.bytes.length).toNat = deviceSecret.bytes.length :=
    UInt32.toNat_ofNat_of_lt' (show _ < 4294967296 by omega)
  have hm : (UInt32.ofNat text.bytes.length).toNat ≤ (Buf.ofList signSourceMaxLen text.bytes).bytes.length := by
    rw [nt, Buf.length_eq]
    exact Nat.le_of_lt ht
  have hl : (UInt32.ofNat deviceSecret.bytes.length).toNat ≤ deviceSecret.mem.length := by
    rw [nk, CString.mem, List.length_append]
    omega
  obtain ⟨d, hh, hv⟩ := Sha256.utilsHmacSha256_bytes context hm (by rw [nk]; exact hk) hl (Buf.zero 32)
  rw [nt, nk, CString.mem, List.take_left, Buf.bytes_ofList (Nat.le_of_lt ht), List.take_left] at hv
  have hz : password.memset 0 0 passwordMaxLen = some (Buf.zero 65) := Buf.memset_all password 0
  refine ⟨Buf.ofList 65 (upperHex d.bytes), ?_, by rw [bytes_ofList_upperHex, hv]⟩
  simp only [setupPassword, hs, hd, hh, hz, Option.bind_eq_bind, Option.bind_some]
  exact hex2str_eq d

/-! ## The call -/

section

variable (context : Context) {productKey deviceName deviceSecret : CString} (clientId : Buf clientIdMaxLen)
  (username : Buf usernameMaxLen) (password : Buf passwordMaxLen)

/-- Inside the limits the credentials are written. -/
theorem aiotMqttSign_writes (hp : productKey.bytes.length ≤ 20) (hd : deviceName.bytes.length ≤ 32)
    (hs : deviceSecret.bytes.length ≤ 64) :
    ∃ c u p, aiotMqttSign context (some productKey) (some deviceName) (some deviceSecret)
        ⟨some clientId, some username, some password⟩ = some (0, ⟨some c, some u, some p⟩) ∧
      (∃ rest, c.bytes = Spec.Sign.clientId productKey.bytes deviceName.bytes ++ 0 :: rest) ∧
      (∃ rest, u.bytes = Spec.Sign.deviceId productKey.bytes deviceName.bytes ++ 0 :: rest) ∧
      p.bytes = Spec.Sign.password productKey.bytes deviceName.bytes deviceSecret.bytes ++ [0] ∧
      (Spec.Sign.password productKey.bytes deviceName.bytes deviceSecret.bytes).length = 64 := by
  have hl : (device productKey deviceName).bytes.length ≤ 53 := by rw [length_device]; omega
  have hdev := Buf.bytes_ofList_lt (show (device productKey deviceName).bytes.length < deviceIdSize from
    Nat.lt_succ_of_le hl)
  generalize zeros (deviceIdSize - (device productKey deviceName).bytes.length - 1) = rest at hdev
  obtain ⟨c, hc, ec⟩ := setupClientId_eq hl rest clientId
  obtain ⟨u, hu, eu⟩ := setupUsername_eq hl rest username
  have ht := setupMacSrc_eq hp hd rest
  have hl₂ : (text productKey deviceName).bytes.length < 200 := by rw [length_text]; omega
  obtain ⟨p, hpw, ep⟩ := setupPassword_eq context hl₂ hs password
  have hle : ¬ (productKey.bytes.length > productKeyMaxLen ∨ deviceName.bytes.length > deviceNameMaxLen ∨
      deviceSecret.bytes.length > deviceSecretMaxLen) := by
    rw [not_or, not_or]
    exact ⟨Nat.not_lt_of_le hp, Nat.not_lt_of_le hd, Nat.not_lt_of_le hs⟩
  have lp := congrArg List.length ep
  rw [p.length_eq, List.length_append] at lp
  refine ⟨c, u, p, ?_, ⟨_, ec⟩, ⟨_, eu⟩, ep, (Nat.succ.inj lp).symm⟩
  simp only [aiotMqttSign, strlen_mem, if_neg hle, setupDeviceId_eq hp hd, hdev, hc, hu, ht, hpw,
    Option.bind_eq_bind, Option.bind_some]
  rfl

/-- Outside the limits nothing is. -/
theorem aiotMqttSign_refuses (h : ¬ (productKey.bytes.length ≤ 20 ∧ deviceName.bytes.length ≤ 32 ∧
      deviceSecret.bytes.length ≤ 64)) :
    aiotMqttSign context (some productKey) (some deviceName) (some deviceSecret)
        ⟨some clientId, some username, some password⟩ =
      some (-1, ⟨some clientId, some username, some password⟩) := by
  have hgt : productKey.bytes.length > productKeyMaxLen ∨ deviceName.bytes.length > deviceNameMaxLen ∨
      deviceSecret.bytes.length > deviceSecretMaxLen := by
    by_contra hc
    rw [not_or, not_or] at hc
    exact h ⟨Nat.le_of_not_lt hc.1, Nat.le_of_not_lt hc.2.1, Nat.le_of_not_lt hc.2.2⟩
  simp only [aiotMqttSign, strlen_mem, if_pos hgt, Option.bind_eq_bind, Option.bind_some]
  rfl

end

/-- Inside the limits the credentials are written, and no access leaves its
array; outside them nothing is. -/
theorem aiotMqttSign_credentials (context : Context) (productKey deviceName deviceSecret : CString)
    (clientId : Buf clientIdMaxLen) (username : Buf usernameMaxLen) (password : Buf passwordMaxLen) :
    (productKey.bytes.length ≤ 20 ∧ deviceName.bytes.length ≤ 32 ∧ deviceSecret.bytes.length ≤ 64 →
      ∃ c u p, aiotMqttSign context (some productKey) (some deviceName) (some deviceSecret)
          ⟨some clientId, some username, some password⟩ = some (0, ⟨some c, some u, some p⟩) ∧
        (∃ rest, c.bytes = Spec.Sign.clientId productKey.bytes deviceName.bytes ++ 0 :: rest) ∧
        (∃ rest, u.bytes = Spec.Sign.deviceId productKey.bytes deviceName.bytes ++ 0 :: rest) ∧
        p.bytes = Spec.Sign.password productKey.bytes deviceName.bytes deviceSecret.bytes ++ [0] ∧
        (Spec.Sign.password productKey.bytes deviceName.bytes deviceSecret.bytes).length = 64) ∧
    (¬ (productKey.bytes.length ≤ 20 ∧ deviceName.bytes.length ≤ 32 ∧ deviceSecret.bytes.length ≤ 64) →
      aiotMqttSign context (some productKey) (some deviceName) (some deviceSecret)
          ⟨some clientId, some username, some password⟩ =
        some (-1, ⟨some clientId, some username, some password⟩)) := by
  constructor
  · rintro ⟨hp, hd, hs⟩
    exact aiotMqttSign_writes context clientId username password hp hd hs
  · exact aiotMqttSign_refuses context clientId username password

theorem aiotMqttSign_credentials_longest :
    let context : Context := ⟨#v[3, 1], #v[1, 1, 2, 3, 5, 8, 13, 21], Buf.zero 64, 1⟩
    let productKey : CString := ⟨List.replicate 20 0x61, by decide⟩
    let deviceName : CString := ⟨List.replicate 32 0x62, by decide⟩
    let deviceSecret : CString := ⟨List.replicate 64 0x63, by decide⟩
    let longName : CString := ⟨List.replicate 33 0x62, by decide⟩
    let out : Outputs := ⟨some (Buf.zero 150), some (Buf.zero 64), some (Buf.zero 65)⟩
    (∃ c u p, aiotMqttSign context (some productKey) (some deviceName) (some deviceSecret) out =
        some (0, ⟨some c, some u, some p⟩) ∧
      (∃ rest, c.bytes = Spec.Sign.clientId productKey.bytes deviceName.bytes ++ 0 :: rest) ∧
      (∃ rest, u.bytes = Spec.Sign.deviceId productKey.bytes deviceName.bytes ++ 0 :: rest) ∧
      p.bytes = Spec.Sign.password productKey.bytes deviceName.bytes deviceSecret.bytes ++ [0]) ∧
    aiotMqttSign context (some productKey) (some longName) (some deviceSecret) out = some (-1, out) := by
  intro context productKey deviceName deviceSecret longName out
  have h := aiotMqttSign_credentials context productKey deviceName deviceSecret (Buf.zero 150) (Buf.zero 64)
    (Buf.zero 65)
  have h' := aiotMqttSign_credentials context productKey longName deviceSecret (Buf.zero 150) (Buf.zero 64)
    (Buf.zero 65)
  obtain ⟨c, u, p, hr, hc, hu, hp, -⟩ := h.1 (by decide)
  exact ⟨⟨c, u, p, hr, hc, hu, hp⟩, h'.2 (by decide)⟩

end Linkkit.Proof.Sign
