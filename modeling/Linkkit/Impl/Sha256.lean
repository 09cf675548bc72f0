import Linkkit.Framework.Buf

/-!
# SHA-256 and HMAC of the MQTT signer

`utils_sha256_*` and `utils_hmac_sha256` of `Paho_MQTT_Guide/aiot_mqtt_sign.c`,
line by line. Every read and write of memory is checked: a function has no
value (`none`) if it would leave an array, and `W[i]` has no value before it
is written. A pointer into an array is the array from there on.
`utils_sha256_free` wipes a context that nothing reads again, and is left out.
-/

namespace Linkkit.Impl.Sha256

/-- `iot_sha256_context`. -/
structure Context where
  total : Vector UInt32 2
  state : Vector UInt32 8
  buffer : Buf 64
  is224 : Int32
deriving DecidableEq

/-! ## Words -/

/-- `GET_UINT32_BE (n, b, i)`. -/
def getUint32Be (b : List Byte) (i : Nat) : Option UInt32 := do
  let b₀ ← b[i]?
  let b₁ ← b[i + 1]?
  let b₂ ← b[i + 2]?
  let b₃ ← b[i + 3]?
  return (b₀.toUInt32 <<< 24) ||| (b₁.toUInt32 <<< 16) ||| (b₂.toUInt32 <<< 8) ||| b₃.toUInt32

/-- The bytes that `PUT_UINT32_BE` stores. -/
def be32 (n : UInt32) : List Byte :=
  [(n >>> 24).toUInt8, (n >>> 16).toUInt8, (n >>> 8).toUInt8, n.toUInt8]

/-- `PUT_UINT32_BE (n, b, i)`. -/
def putUint32Be {size : Nat} (n : UInt32) (b : Buf size) (i : Nat) : Option (Buf size) :=
  b.memcpy i (be32 n) 4

/-- `SHR`. -/
def shr (x n : UInt32) : UInt32 := (x &&& 0xFFFFFFFF) >>> n
/-- `ROTR`. -/
def rotr (x n : UInt32) : UInt32 := shr x n ||| (x <<< (32 - n))
/-- `S0`. -/
def s0 (x : UInt32) : UInt32 := rotr x 7 ^^^ rotr x 18 ^^^ shr x 3
/-- `S1`. -/
def s1 (x : UInt32) : UInt32 := rotr x 17 ^^^ rotr x 19 ^^^ shr x 10
/-- `S2`. -/
def s2 (x : UInt32) : UInt32 := rotr x 2 ^^^ rotr x 13 ^^^ rotr x 22
/-- `S3`. -/
def s3 (x : UInt32) : UInt32 := rotr x 6 ^^^ rotr x 11 ^^^ rotr x 25
/-- `F0`. -/
def f0 (x y z : UInt32) : UInt32 := (x &&& y) ||| (z &&& (x ||| y))
/-- `F1`. -/
def f1 (x y z : UInt32) : UInt32 := z ^^^ (x &&& (y ^^^ z))

/-- The table `K`. -/
def K : List UInt32 := [
  0x428A2F98, 0x71374491, 0xB5C0FBCF, 0xE9B5DBA5,
  0x3956C25B, 0x59F111F1, 0x923F82A4, 0xAB1C5ED5,
  0xD807AA98, 0x12835B01, 0x243185BE, 0x550C7DC3,
  0x72BE5D74, 0x80DEB1FE, 0x9BDC06A7, 0xC19BF174,
  0xE49B69C1, 0xEFBE4786, 0x0FC19DC6, 0x240CA1CC,
  0x2DE92C6F, 0x4A7484AA, 0x5CB0A9DC, 0x76F988DA,
  0x983E5152, 0xA831C66D, 0xB00327C8, 0xBF597FC7,
  0xC6E00BF3, 0xD5A79147, 0x06CA6351, 0x14292967,
  0x27B70A85, 0x2E1B2138, 0x4D2C6DFC, 0x53380D13,
  0x650A7354, 0x766A0ABB, 0x81C2C92E, 0x92722C85,
  0xA2BFE8A1, 0xA81A664B, 0xC24B8B70, 0xC76C51A3,
  0xD192E819, 0xD6990624, 0xF40E3585, 0x106AA070,
  0x19A4C116, 0x1E376C08, 0x2748774C, 0x34B0BCB5,
  0x391C0CB3, 0x4ED8AA4A, 0x5B9CCA4F, 0x682E6FF3,
  0x748F82EE, 0x78A5636F, 0x84C87814, 0x8CC70208,
  0x90BEFFFA, 0xA4506CEB, 0xBEF9A3F7, 0xC67178F2]

/-! ## The context -/

/-- `utils_sha256_init`. -/
def utilsSha256Init (_ctx : Context) : Context :=
  ⟨#v[0, 0], #v[0, 0, 0, 0, 0, 0, 0, 0], Buf.zero 64, 0⟩

/-- `utils_sha256_starts`. -/
def utilsSha256Starts (ctx : Context) : Context :=
  { ctx with
    total := #v[0, 0]
    state := #v[0x6A09E667, 0xBB67AE85, 0x3C6EF372, 0xA54FF53A,
      0x510E527F, 0x9B05688C, 0x1F83D9AB, 0x5BE0CD19]
    is224 := 0 }

/-! ## A block -/

/-- `W[i]`: the words before it are `W`. -/
def nextWord (data : List Byte) (i : Nat) (W : List UInt32) : Option UInt32 :=
  if i < 16 then getUint32Be data (4 * i)
  else do
    let w₂ ← W[i - 2]?
    let w₇ ← W[i - 7]?
    let w₁₅ ← W[i - 15]?
    let w₁₆ ← W[i - 16]?
    return s1 w₂ + w₇ + s0 w₁₅ + w₁₆

/-- `P (A[0], …, A[7], x, K)`, and the rotation of `A` after it. -/
def stepA (A : Vector UInt32 8) (x k : UInt32) : Vector UInt32 8 :=
  let temp1 := A[7] + s3 A[4] + f1 A[4] A[5] A[6] + k + x
  let temp2 := s2 A[0] + f0 A[0] A[1] A[2]
  let A := A.set 3 (A[3] + temp1)
  let A := A.set 7 (temp1 + temp2)
  let temp1 := A[7]
  let A := A.set 7 A[6]
  let A := A.set 6 A[5]
  let A := A.set 5 A[4]
  let A := A.set 4 A[3]
  let A := A.set 3 A[2]
  let A := A.set 2 A[1]
  let A := A.set 1 A[0]
  A.set 0 temp1

/-- `n` passes of the loop of `utils_sha256_process` from pass `i` on. -/
def processLoop (data : List Byte) : Nat → Nat → List UInt32 → Vector UInt32 8 → Option (Vector UInt32 8)
  | 0, _, _, A => some A
  | n + 1, i, W, A => do
    let w ← nextWord data i W
    let k ← K[i]?
    processLoop data n (i + 1) (W ++ [w]) (stepA A w k)

/-- `utils_sha256_process`. -/
def utilsSha256Process (ctx : Context) (data : List Byte) : Option Context := do
  let A ← processLoop data 64 0 [] ctx.state
  return { ctx with state := Vector.zipWith (· + ·) ctx.state A }

/-! ## Update -/

/-- The `while (ilen >= 64)` of `utils_sha256_update`. -/
def wholeBlocks (ctx : Context) (input : List Byte) (ilen : UInt32) :
    Option (Context × List Byte × UInt32) :=
  if _ : 64 ≤ ilen then do
    let ctx ← utilsSha256Process ctx input
    wholeBlocks ctx (input.drop 64) (ilen - 64)
  else some (ctx, input, ilen)
termination_by ilen.toNat
decreasing_by
  rename_i h
  have hle : 64 ≤ ilen.toNat := UInt32.le_iff_toNat_le.mp h
  rw [UInt32.toNat_sub_of_le _ _ h]
  exact Nat.sub_lt (by omega) (by decide)

/-- The `if (left && ilen >= fill)` of `utils_sha256_update`: the context,
`input`, `ilen` and `left` after it. -/
def fillBlock (ctx : Context) (input : List Byte) (ilen left : UInt32) :
    Option (Context × List Byte × UInt32 × UInt32) :=
  let fill := 64 - left.toNat
  if left ≠ 0 ∧ fill ≤ ilen.toNat then do
    let buffer ← ctx.buffer.memcpy left.toNat input fill
    let ctx ← utilsSha256Process { ctx with buffer } buffer.bytes
    return (ctx, input.drop fill, ilen - UInt32.ofNat fill, 0)
  else some (ctx, input, ilen, left)

/-- The `if (ilen > 0)` of `utils_sha256_update`. -/
def keepRest (ctx : Context) (input : List Byte) (ilen left : UInt32) : Option Context :=
  if 0 < ilen then do
    let buffer ← ctx.buffer.memcpy left.toNat input ilen.toNat
    return { ctx with buffer }
  else some ctx

/-- The counter of `utils_sha256_update`. -/
def addTotal (total : Vector UInt32 2) (ilen : UInt32) : Vector UInt32 2 :=
  let total := total.set 0 (total[0] + ilen)
  let total := total.set 0 (total[0] &&& 0xFFFFFFFF)
  if total[0] < ilen then total.set 1 (total[1] + 1) else total

/-- `utils_sha256_update`. -/
def utilsSha256Update (ctx : Context) (input : List Byte) (ilen : UInt32) : Option Context :=
  if ilen = 0 then some ctx
  else do
    let left := ctx.total[0] &&& 0x3F
    let ctx := { ctx with total := addTotal ctx.total ilen }
    let (ctx, input, ilen, left) ← fillBlock ctx input ilen left
    let (ctx, input, ilen) ← wholeBlocks ctx input ilen
    keepRest ctx input ilen left

/-! ## The digest -/

/-- `sha256_padding`. -/
def sha256Padding : List Byte := 0x80 :: zeros 63

/-- The eight `PUT_UINT32_BE` at the end of `utils_sha256_finish`. -/
def putState (ctx : Context) (output : Buf 32) : Option (Buf 32) := do
  let output ← putUint32Be ctx.state[0] output 0
  let output ← putUint32Be ctx.state[1] output 4
  let output ← putUint32Be ctx.state[2] output 8
  let output ← putUint32Be ctx.state[3] output 12
  let output ← putUint32Be ctx.state[4] output 16
  let output ← putUint32Be ctx.state[5] output 20
  let output ← putUint32Be ctx.state[6] output 24
  if ctx.is224 = 0 then putUint32Be ctx.state[7] output 28 else return output

/-- `padn`, from `last`. -/
def padn (last : UInt32) : UInt32 := if last < 56 then 56 - last else 120 - last

/-- `utils_sha256_finish`: the context and `output` after it. -/
def utilsSha256Finish (ctx : Context) (output : Buf 32) : Option (Context × Buf 32) := do
  let high := (ctx.total[0] >>> 29) ||| (ctx.total[1] <<< 3)
  let low := ctx.total[0] <<< 3
  let msglen ← putUint32Be high (Buf.zero 8) 0
  let msglen ← putUint32Be low msglen 4
  let last := ctx.total[0] &&& 0x3F
  let ctx ← utilsSha256Update ctx sha256Padding (padn last)
  let ctx ← utilsSha256Update ctx msglen.bytes 8
  let output ← putState ctx output
  return (ctx, output)

/-- `utils_sha256`, its local `ctx` holding anything at first: `output` after
it. -/
def utilsSha256 (ctx : Context) (input : List Byte) (ilen : UInt32) (output : Buf 32) :
    Option (Buf 32) := do
  let ctx := utilsSha256Starts (utilsSha256Init ctx)
  let ctx ← utilsSha256Update ctx input ilen
  let (_, output) ← utilsSha256Finish ctx output
  return output

/-! ## HMAC -/

/-- `SHA256_KEY_IOPAD_SIZE`. -/
abbrev sha256KeyIopadSize : Nat := 64
/-- `SHA256_DIGEST_SIZE`. -/
abbrev sha256DigestSize : Nat := 32

/-- `k_ipad` or `k_opad`: the key, zero-padded, with `pad` XORed to each byte. -/
def keyPad (key : List Byte) (keyLen : UInt32) (pad : Byte) : Option (Buf sha256KeyIopadSize) := do
  let k ← (Buf.zero sha256KeyIopadSize).memcpy 0 key keyLen.toNat
  return ⟨k.bytes.map (· ^^^ pad), by rw [List.length_map, k.length_eq]⟩

/-- One pass of `utils_hmac_sha256`: `context` and `output` after it. -/
def hmacPass (context : Context) (pad : Buf sha256KeyIopadSize) (msg : List Byte) (msgLen : UInt32)
    (output : Buf 32) : Option (Context × Buf 32) := do
  let context := utilsSha256Starts (utilsSha256Init context)
  let context ← utilsSha256Update context pad.bytes (UInt32.ofNat sha256KeyIopadSize)
  let context ← utilsSha256Update context msg msgLen
  utilsSha256Finish context output

/-- `utils_hmac_sha256`, none of its pointers `NULL` and its local `context`
holding anything at first: `output` after it. -/
def utilsHmacSha256 (context : Context) (msg : List Byte) (msgLen : UInt32) (key : List Byte)
    (keyLen : UInt32) (output : Buf 32) : Option (Buf 32) :=
  if UInt32.ofNat sha256KeyIopadSize < keyLen then some output
  else do
    let kIpad ← keyPad key keyLen 0x36
    let kOpad ← keyPad key keyLen 0x5c
    let (context, output) ← hmacPass context kIpad msg msgLen output
    let (_, output) ← hmacPass context kOpad output.bytes (UInt32.ofNat sha256DigestSize) output
    return output

end Linkkit.Impl.Sha256
