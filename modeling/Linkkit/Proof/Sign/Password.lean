import Linkkit.Framework.Numeral
import Linkkit.Impl.MqttSign
import Linkkit.Proof.Sign

/-!
# One password for a MAC

`_hex2str` takes a byte at a time, and `%064x` the digits of one number. In
base 256 that number has the bytes as its digits (`numeral_ofBe`), and each of
these is two digits in base 16 (`numeral_mul_self`), so both print the same
digits, in different cases (`lower_upperHex`). `signers_agree` says so of every
MAC, and that no two MACs have one password (`fromHex_upperHex`).
-/

namespace Linkkit.Proof.Sign

open Impl.Sign (hex2str)
open Impl.MqttSign (formatHex passwordOf)
open Spec.Sign (hexDigit upperHex lower hexValue fromHex)

/-! ## Digits -/

theorem lower_hexDigit {d : Nat} (h : d < 16) :
    (lower (hexDigit d)).toUInt16 = (Nat.digitChar d).toNat.toUInt16 := by
  have hall : ∀ d < 16, (lower (hexDigit d)).toUInt16 = (Nat.digitChar d).toNat.toUInt16 := by decide
  exact hall d h

theorem hexValue_hexDigit {d : Nat} (h : d < 16) : hexValue (hexDigit d) = some d := by
  have hall : ∀ d < 16, hexValue (hexDigit d) = some d := by decide
  exact hall d h

theorem hexDigit_ne_zero {d : Nat} (h : d < 16) : hexDigit d ≠ 0 := by
  have hall : ∀ d < 16, hexDigit d ≠ 0 := by decide
  exact hall d h

theorem byte_digits (b : Byte) : b.toNat / 16 < 16 ∧ b.toNat % 16 < 16 := by
  have hb := b.toNat_lt
  omega

theorem upperHex_cons (b : Byte) (bs : List Byte) :
    upperHex (b :: bs) = hexDigit (b.toNat / 16) :: hexDigit (b.toNat % 16) :: upperHex bs := rfl

theorem upperHex_noNul (bs : List Byte) : 0 ∉ upperHex bs := by
  induction bs with
  | nil => exact List.not_mem_nil
  | cons b bs ih =>
    obtain ⟨hh, hl⟩ := byte_digits b
    simp only [upperHex_cons, List.mem_cons, not_or]
    exact ⟨(hexDigit_ne_zero hh).symm, (hexDigit_ne_zero hl).symm, ih⟩

/-- Two digits at a time, the bytes again. -/
theorem fromHex_upperHex (bs : List Byte) : fromHex (upperHex bs) = some bs := by
  induction bs with
  | nil => rfl
  | cons b bs ih =>
    obtain ⟨hh, hl⟩ := byte_digits b
    have hb : UInt8.ofNat (16 * (b.toNat / 16) + b.toNat % 16) = b := by
      rw [Nat.div_add_mod, UInt8.ofNat_toNat]
    rw [upperHex_cons, fromHex, hexValue_hexDigit hh, hexValue_hexDigit hl, ih]
    simp only [Option.bind_eq_bind, Option.bind_some, hb]
    rfl

/-! ## The numeral -/

/-- The text in lower case is the padded numeral of the bytes. -/
theorem lower_upperHex {bs : List Byte} (h : bs ≠ []) :
    (upperHex bs).map (fun c => (lower c).toUInt16) = formatHex (2 * bs.length) (ofBe bs) := by
  have hw : 0 < 2 * bs.length := Nat.mul_pos (by decide) (List.length_pos_iff.mpr h)
  have hn : ofBe bs < 16 ^ (2 * bs.length) := by
    rw [Nat.pow_mul]
    exact ofBe_lt bs
  have hd : numeral 16 (2 * bs.length) (ofBe bs) = bs.flatMap fun b => [b.toNat / 16, b.toNat % 16] := by
    rw [numeral_mul_self, numeral_ofBe, List.flatMap_map]
  rw [formatHex, leftpad_toDigits (by decide) hw hn, hd, upperHex, List.map_flatMap, List.map_map, List.map_flatMap]
  congr 1
  funext b
  obtain ⟨hh, hl⟩ := byte_digits b
  simp only [List.map_cons, List.map_nil, Function.comp_apply, lower_hexDigit hh, lower_hexDigit hl]

/-! ## The password -/

/-- Every MAC has one password, up to case, whichever signer prints it, and no
other MAC has it. -/
theorem signers_agree :
    (∀ mac : Buf 32, ∃ (password : Buf 65) (text : CString),
      hex2str mac.bytes 32 (Buf.zero 65) = some password ∧ password.bytes = text.mem ∧
      text.bytes.length = 64 ∧ text.bytes.map (fun c => (lower c).toUInt16) = passwordOf mac.bytes ∧
      fromHex text.bytes = some mac.bytes) ∧
    Function.Injective fun mac : Buf 32 => hex2str mac.bytes 32 (Buf.zero 65) := by
  refine ⟨fun mac => ⟨_, ⟨upperHex mac.bytes, upperHex_noNul mac.bytes⟩, hex2str_eq mac, bytes_ofList_upperHex mac,
    length_upperHex_mac mac, ?_, fromHex_upperHex mac.bytes⟩, fun mac mac' h => ?_⟩
  · have hne : mac.bytes ≠ [] := List.ne_nil_of_length_pos (by rw [mac.length_eq]; decide)
    have hl := lower_upperHex hne
    rwa [mac.length_eq] at hl
  · simp only [hex2str_eq, Option.some.injEq] at h
    have hu : upperHex mac.bytes = upperHex mac'.bytes := by
      have hb := congrArg Buf.bytes h
      rw [bytes_ofList_upperHex, bytes_ofList_upperHex] at hb
      exact List.append_cancel_right hb
    have hf := congrArg fromHex hu
    rw [fromHex_upperHex, fromHex_upperHex, Option.some.injEq] at hf
    exact Buf.ext hf

end Linkkit.Proof.Sign
