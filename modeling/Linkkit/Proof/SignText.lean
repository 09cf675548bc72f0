import Linkkit.Framework.Words
import Linkkit.Impl.MqttSign
import Linkkit.Proof.Sign

/-!
# Whether the signed text tells devices apart

The signers put product key and device name into one text twice, with
separators that may occur inside them. In the C signer both halves have the
device name first, and the separators `&` and `productKey` begin differently:
the text determines both (`macSrc_identifies`). The Java, Android and C#
signers have the product key first in one half and the device name in the
other: `plainPasswd_eq_iff` says which devices share a text.
-/

namespace Linkkit.Proof.SignText

open Words

/-! ## The C signer -/

section

open Impl.Sign Impl.Sha256
open Spec.Sign (signText)
open Proof.Sign

/-- `aiotMqttSign` accepts the pair, for some device secret. -/
def Accepted (productKey deviceName : CString) : Prop :=
  ∃ context deviceSecret out out',
    aiotMqttSign context (some productKey) (some deviceName) (some deviceSecret) out = some (0, out')

/-- The string in `macSrc`. -/
def macSrc (productKey deviceName : CString) : Option (List Byte) := do
  let deviceId ← setupDeviceId productKey deviceName
  let macSrc ← setupMacSrc deviceId.bytes productKey deviceName
  return macSrc.bytes.takeWhile (· ≠ 0)

variable {productKey deviceName productKey' deviceName' : CString}

theorem Accepted.length_le (h : Accepted productKey deviceName) :
    productKey.bytes.length ≤ 20 ∧ deviceName.bytes.length ≤ 32 := by
  obtain ⟨context, deviceSecret, ⟨clientId, username, password⟩, out', h⟩ := h
  cases clientId with
  | none => cases h
  | some c =>
    cases username with
    | none => cases h
    | some u =>
      cases password with
      | none => cases h
      | some p =>
        by_contra hc
        rw [aiotMqttSign_refuses context c u p fun hl => hc ⟨hl.1, hl.2.1⟩] at h
        cases h

theorem accepted_of_length_le (hp : productKey.bytes.length ≤ 20) (hd : deviceName.bytes.length ≤ 32) :
    Accepted productKey deviceName := by
  obtain ⟨c, u, p, h, -⟩ := aiotMqttSign_writes
    (utilsSha256Init ⟨#v[0, 0], Vector.replicate 8 0, Buf.zero 64, 0⟩) (Buf.zero _) (Buf.zero _) (Buf.zero _)
    hp hd (show (⟨[], by decide⟩ : CString).bytes.length ≤ 64 from Nat.zero_le _)
  exact ⟨_, _, _, _, h⟩

theorem macSrc_eq (hp : productKey.bytes.length ≤ 20) (hd : deviceName.bytes.length ≤ 32) :
    macSrc productKey deviceName = some (signText productKey.bytes deviceName.bytes) := by
  have hl : (device productKey deviceName).bytes.length < deviceIdSize := by
    rw [length_device]
    show _ < 54
    omega
  have ht : (text productKey deviceName).bytes.length < signSourceMaxLen := by
    rw [length_text]
    show _ < 200
    omega
  have hw : (Buf.ofList signSourceMaxLen (text productKey deviceName).bytes).bytes.takeWhile (· ≠ 0) =
      (text productKey deviceName).bytes := by
    rw [Buf.bytes_ofList_lt ht, List.takeWhile_append_of_pos]
    · simp
    · intro b hb
      exact decide_eq_true fun h => (text productKey deviceName).noNul (h ▸ hb)
  simp only [macSrc, setupDeviceId_eq hp hd, Option.bind_eq_bind, Option.bind_some, Buf.bytes_ofList_lt hl,
    setupMacSrc_eq hp hd, hw]
  rfl

/-- The text as two halves between its ends. -/
theorem signText_halves (productKey deviceName : List Byte) : signText productKey deviceName =
    ascii "clientId" ++ (deviceName ++ ascii "&" ++ productKey ++ (ascii "deviceName" ++
      (deviceName ++ ascii "productKey" ++ productKey))) ++ (ascii "timestamp" ++ ascii "2524608000000") := by
  simp only [signText, Spec.Sign.deviceId, List.append_assoc]

/-- Devices whose `macSrc` strings are equal are the same. -/
theorem macSrc_identifies (h : Accepted productKey deviceName) (h' : Accepted productKey' deviceName') :
    ∃ t t', macSrc productKey deviceName = some t ∧ macSrc productKey' deviceName' = some t' ∧
      (t = t' → productKey = productKey' ∧ deviceName = deviceName') := by
  obtain ⟨hp, hd⟩ := h.length_le
  obtain ⟨hp', hd'⟩ := h'.length_le
  refine ⟨_, _, macSrc_eq hp hd, macSrc_eq hp' hd', fun he => ?_⟩
  rw [signText_halves, signText_halves, List.append_cancel_right_eq, List.append_cancel_left_eq] at he
  obtain ⟨hk, hn⟩ := parallel_inj (a := 0x26) (b := 0x70) rfl rfl (by decide) he
  exact ⟨CString.ext hk, CString.ext hn⟩

end

/-- Two devices whose names hold separators. -/
theorem macSrc_identifies_separators :
    let productKey : CString := ⟨ascii "a&b", by decide⟩
    let deviceName : CString := ⟨ascii "productKey", by decide⟩
    let productKey' : CString := ⟨ascii "b", by decide⟩
    let deviceName' : CString := ⟨ascii "productKey&a", by decide⟩
    ∃ t t', macSrc productKey deviceName = some t ∧ macSrc productKey' deviceName' = some t' ∧
      (t = t' → productKey = productKey' ∧ deviceName = deviceName') := by
  intro productKey deviceName productKey' deviceName'
  exact macSrc_identifies (accepted_of_length_le (by decide) (by decide))
    (accepted_of_length_le (by decide) (by decide))

/-! ## The Java, Android and C# signers -/

section

open Impl.MqttSign

variable {productKey deviceName productKey' deviceName' : Utf16}

/-- The two pairs share a text in `plainPasswd`: with `u = (ab)^m` and
`w = (ba)^m`, the first product key is the second one and `w`, the second
device name is the first one and `u`, `productKey` and the second product key
are `(ab)^i a`, and the dot and the first device name are `(ba)^j b`. -/
abbrev SharesText (productKey deviceName productKey' deviceName' : Utf16) : Prop :=
  Crossed (utf16 ".") (utf16 "productKey") productKey deviceName productKey' deviceName'

theorem plainPasswd_halves (productKey deviceName timestamp : Utf16) :
    plainPasswd productKey deviceName timestamp = utf16 "clientId" ++ (productKey ++ utf16 "." ++ deviceName ++
      (utf16 "deviceName" ++ (deviceName ++ utf16 "productKey" ++ productKey))) ++
      (utf16 "timestamp" ++ timestamp) := by
  simp only [plainPasswd, List.append_assoc]

/-- At the same time two devices have the same text exactly if they are the
same, or one product key continues the other by a word that turned round
continues the other device name; never if there is no dot in the product
keys. -/
theorem plainPasswd_eq_iff (productKey deviceName productKey' deviceName' timestamp : Utf16) :
    (plainPasswd productKey deviceName timestamp = plainPasswd productKey' deviceName' timestamp ↔
      (productKey = productKey' ∧ deviceName = deviceName') ∨
        SharesText productKey deviceName productKey' deviceName' ∨
          SharesText productKey' deviceName' productKey deviceName) ∧
    (0x2e ∉ productKey → 0x2e ∉ productKey' →
      plainPasswd productKey deviceName timestamp = plainPasswd productKey' deviceName' timestamp →
        productKey = productKey' ∧ deviceName = deviceName') := by
  have key : plainPasswd productKey deviceName timestamp = plainPasswd productKey' deviceName' timestamp ↔
      (productKey = productKey' ∧ deviceName = deviceName') ∨
        SharesText productKey deviceName productKey' deviceName' ∨
          SharesText productKey' deviceName' productKey deviceName := by
    rw [plainPasswd_halves, plainPasswd_halves, List.append_cancel_right_eq, List.append_cancel_left_eq]
    exact crossed_iff (by decide)
  refine ⟨key, fun hp hp' he => ?_⟩
  have hdot : (0x2e : UInt16) ∈ utf16 "." := by decide
  rcases key.mp he with h | h | h
  · exact h
  · exact absurd (h.mem hdot) hp
  · exact absurd (h.mem hdot) hp'

/-- Two devices with the same text. -/
theorem plainPasswd_shared :
    let timestamp := decimal 2524608000000
    plainPasswd (utf16 "a.bproductKeya") (utf16 "b") timestamp =
        plainPasswd (utf16 "a") (utf16 "bproductKeya.b") timestamp ∧
      ¬ (utf16 "a.bproductKeya" = utf16 "a" ∧ utf16 "b" = utf16 "bproductKeya.b") := by
  decide

end

end Linkkit.Proof.SignText
