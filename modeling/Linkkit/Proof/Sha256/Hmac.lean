import Linkkit.Proof.Sha256.Digest
import Linkkit.Spec.Hmac

/-!
# `utils_hmac_sha256` is HMAC

Each pass hashes a padded key and a message (`hmacPass_bytes`), whatever the
context and `output` held before it, so the second pass may read the digest of
the first from `output` (`utilsHmacSha256_bytes`).
-/

namespace Linkkit.Proof.Sha256

open Impl.Sha256
open Spec (hmac hmacKey)
open Spec.Sha256 (sha256)

theorem keyPad_bytes {key : List Byte} {keyLen : UInt32} (hk : keyLen.toNat ≤ 64)
    (hl : keyLen.toNat ≤ key.length) (pad : Byte) :
    ∃ k, keyPad key keyLen pad = some k ∧
      k.bytes = (hmacKey sha256 64 (key.take keyLen.toNat)).map (· ^^^ pad) := by
  have hlen : (key.take keyLen.toNat).length ≤ 64 := by rw [List.length_take]; omega
  refine ⟨_, by rw [keyPad, Buf.memcpy_zero hk hl]; rfl, ?_⟩
  show (Buf.ofList 64 (key.take keyLen.toNat)).bytes.map _ = _
  rw [Buf.bytes_ofList hlen, hmacKey, if_neg (Nat.not_lt_of_le hlen)]

theorem hmacPass_bytes (context : Context) (pad : Buf 64) {msg : List Byte} {msgLen : UInt32}
    (hm : msgLen.toNat ≤ msg.length) (output : Buf 32) :
    ∃ context' d, hmacPass context pad msg msgLen output = some (context', d) ∧
      d.bytes = sha256 (pad.bytes ++ msg.take msgLen.toNat) := by
  have h64 : (UInt32.ofNat sha256KeyIopadSize).toNat = pad.bytes.length := pad.length_eq.symm
  obtain ⟨ctx₁, h₁, f₁⟩ := update_fed (starts_fed (utilsSha256Init context)) (Nat.le_of_eq h64)
  rw [h64, List.nil_append, List.take_length] at f₁
  obtain ⟨ctx₂, h₂, f₂⟩ := update_fed f₁ hm
  have hlt : (pad.bytes ++ msg.take msgLen.toNat).length < 0x2000000000000000 := by
    have := msgLen.toNat_lt
    rw [List.length_append, List.length_take, pad.length_eq]
    omega
  obtain ⟨ctx₃, d, hd, hv⟩ := finish_eq f₂ hlt output
  refine ⟨ctx₃, d, ?_, hv⟩
  simp only [hmacPass, h₁, h₂, hd, Option.bind_eq_bind, Option.bind_some]

theorem utilsHmacSha256_bytes (context : Context) {msg key : List Byte} {msgLen keyLen : UInt32}
    (hm : msgLen.toNat ≤ msg.length) (hk : keyLen.toNat ≤ 64) (hl : keyLen.toNat ≤ key.length)
    (output : Buf 32) :
    ∃ d, utilsHmacSha256 context msg msgLen key keyLen output = some d ∧
      d.bytes = hmac sha256 64 (key.take keyLen.toNat) (msg.take msgLen.toNat) := by
  have hle : ¬ UInt32.ofNat sha256KeyIopadSize < keyLen := fun hc => by
    have : 64 < keyLen.toNat := UInt32.lt_iff_toNat_lt.mp hc
    omega
  obtain ⟨ki, hki, ei⟩ := keyPad_bytes hk hl 0x36
  obtain ⟨ko, hko, eo⟩ := keyPad_bytes hk hl 0x5c
  obtain ⟨ctx₁, d₁, h₁, e₁⟩ := hmacPass_bytes context ki hm output
  have h32 : (UInt32.ofNat sha256DigestSize).toNat = d₁.bytes.length := d₁.length_eq.symm
  obtain ⟨ctx₂, d₂, h₂, e₂⟩ := hmacPass_bytes ctx₁ ko (Nat.le_of_eq h32) d₁
  refine ⟨d₂, ?_, ?_⟩
  · simp only [utilsHmacSha256, if_neg hle, hki, hko, h₁, h₂, Option.bind_eq_bind, Option.bind_some]
    rfl
  · rw [e₂, h32, List.take_length, e₁, ei, eo, hmac]

/-- HMAC under a key of at most a block. -/
theorem hmac_of_length_le {key : List Byte} (hk : key.length ≤ 64) (text : List Byte) :
    hmac sha256 64 key text = sha256 ((key ++ zeros (64 - key.length)).map (· ^^^ 0x5c) ++
      sha256 ((key ++ zeros (64 - key.length)).map (· ^^^ 0x36) ++ text)) := by
  simp only [hmac, hmacKey, if_neg (Nat.not_lt_of_le hk)]

/-- HMAC of a message and under a key that stand anywhere in memory, whatever
the context and `output` hold at first. -/
theorem utilsHmacSha256_hmac {message key : List Byte} (hm : message.length < 0x100000000)
    (hk : key.length ≤ 64) (afterMessage afterKey : List Byte) (context : Context) (output : Buf 32) :
    ∃ d, utilsHmacSha256 context (message ++ afterMessage) (UInt32.ofNat message.length) (key ++ afterKey)
        (UInt32.ofNat key.length) output = some d ∧
      d.bytes = sha256 ((key ++ zeros (64 - key.length)).map (· ^^^ 0x5c) ++
        sha256 ((key ++ zeros (64 - key.length)).map (· ^^^ 0x36) ++ message)) := by
  have nm : (UInt32.ofNat message.length).toNat = message.length := UInt32.toNat_ofNat_of_lt' hm
  have nk : (UInt32.ofNat key.length).toNat = key.length :=
    UInt32.toNat_ofNat_of_lt' (show _ < 4294967296 by omega)
  have hml : (UInt32.ofNat message.length).toNat ≤ (message ++ afterMessage).length := by
    rw [nm, List.length_append]
    omega
  have hkl : (UInt32.ofNat key.length).toNat ≤ (key ++ afterKey).length := by
    rw [nk, List.length_append]
    omega
  obtain ⟨d, hd, hv⟩ := utilsHmacSha256_bytes context hml (by rw [nk]; exact hk) hkl output
  refine ⟨d, hd, ?_⟩
  rw [hv, nm, nk, List.take_left, List.take_left, hmac_of_length_le hk]

/-- A context and an `output` in use before. -/
theorem utilsHmacSha256_hmac_reused :
    let context : Context := ⟨#v[3, 1], #v[1, 1, 2, 3, 5, 8, 13, 21], Buf.zero 64, 1⟩
    let output : Buf 32 := ⟨List.replicate 32 0xff, rfl⟩
    ∃ d, utilsHmacSha256 context (ascii "message" ++ [0]) 7 (ascii "key" ++ [0]) 3 output = some d ∧
      d.bytes = sha256 ((ascii "key" ++ zeros 61).map (· ^^^ 0x5c) ++
        sha256 ((ascii "key" ++ zeros 61).map (· ^^^ 0x36) ++ ascii "message")) :=
  utilsHmacSha256_hmac (show (ascii "message").length < 0x100000000 by decide)
    (show (ascii "key").length ≤ 64 by decide) [0] [0] _ _

end Linkkit.Proof.Sha256
