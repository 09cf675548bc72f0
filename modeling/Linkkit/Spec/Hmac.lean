import Linkkit.Framework.Buf

/-!
# HMAC

The keyed hash of RFC 2104 over a hash function `H` with blocks of `B` bytes:
the key is hashed if it is longer than a block, and zero-padded to one.
-/

namespace Linkkit.Spec

variable (H : List Byte → List Byte) (B : Nat)

/-- The key as a block. -/
def hmacKey (key : List Byte) : List Byte :=
  let k := if B < key.length then H key else key
  k ++ zeros (B - k.length)

/-- HMAC of `text` under `key`. -/
def hmac (key text : List Byte) : List Byte :=
  let k := hmacKey H B key
  H (k.map (· ^^^ 0x5c) ++ H (k.map (· ^^^ 0x36) ++ text))

end Linkkit.Spec
