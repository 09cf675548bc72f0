import Linkkit.Framework.Absorb
import Linkkit.Framework.Int

/-!
# SHA-256

The hash function of FIPS 180-4 on strings of bytes: the functions and
constants of its sections 4.1.2, 4.2.2 and 5.3.3, the message schedule and the
64 rounds of section 6.2.2 (`compress`), the padding of section 5.1.1 (`pad`)
and the digest (`sha256`).
-/

namespace Linkkit.Spec.Sha256

/-! ## Functions on words -/

/-- `ROTR^n (x)`. -/
def rotr (n x : UInt32) : UInt32 := (x >>> n) ||| (x <<< (32 - n))

def ch (x y z : UInt32) : UInt32 := (x &&& y) ^^^ (~~~x &&& z)

def maj (x y z : UInt32) : UInt32 := (x &&& y) ^^^ (x &&& z) ^^^ (y &&& z)

/-- `Σ₀`. -/
def bigSigma0 (x : UInt32) : UInt32 := rotr 2 x ^^^ rotr 13 x ^^^ rotr 22 x

/-- `Σ₁`. -/
def bigSigma1 (x : UInt32) : UInt32 := rotr 6 x ^^^ rotr 11 x ^^^ rotr 25 x

/-- `σ₀`. -/
def smallSigma0 (x : UInt32) : UInt32 := rotr 7 x ^^^ rotr 18 x ^^^ (x >>> 3)

/-- `σ₁`. -/
def smallSigma1 (x : UInt32) : UInt32 := rotr 17 x ^^^ rotr 19 x ^^^ (x >>> 10)

/-! ## Constants -/

/-- The first 64 primes. -/
def primes : List Nat :=
  [2, 3, 5, 7, 11, 13, 17, 19, 23, 29, 31, 37, 41, 43, 47, 53,
    59, 61, 67, 71, 73, 79, 83, 89, 97, 101, 103, 107, 109, 113, 127, 131,
    137, 139, 149, 151, 157, 163, 167, 173, 179, 181, 191, 193, 197, 199, 211, 223,
    227, 229, 233, 239, 241, 251, 257, 263, 269, 271, 277, 281, 283, 293, 307, 311]

/-- The greatest `x` below `2 ^ n` with `le x`, bit by bit. -/
def greatest (le : Nat → Bool) : Nat → Nat → Nat
  | 0, x => x
  | n + 1, x => greatest le n (if le (x + 1 <<< n) then x + 1 <<< n else x)

/-- The first 32 bits of the fractional part of the cube root of `p`. -/
def cubeRootBits (p : Nat) : UInt32 :=
  UInt32.ofNat (greatest (fun x => x * x * x ≤ p <<< 96) 36 0)

/-- The first 32 bits of the fractional part of the square root of `p`. -/
def squareRootBits (p : Nat) : UInt32 :=
  UInt32.ofNat (greatest (fun x => x * x ≤ p <<< 64) 36 0)

/-- `K_t`, from the cube roots of the first 64 primes. -/
def constants : List UInt32 := primes.map cubeRootBits

/-! ## The hash computation -/

/-- The working variables, and the hash value. -/
structure Vars where
  a : UInt32
  b : UInt32
  c : UInt32
  d : UInt32
  e : UInt32
  f : UInt32
  g : UInt32
  h : UInt32
deriving DecidableEq

namespace Vars

/-- The sum of two hash values, word by word. -/
def add (v w : Vars) : Vars :=
  ⟨v.a + w.a, v.b + w.b, v.c + w.c, v.d + w.d, v.e + w.e, v.f + w.f, v.g + w.g, v.h + w.h⟩

def words (v : Vars) : List UInt32 := [v.a, v.b, v.c, v.d, v.e, v.f, v.g, v.h]

end Vars

/-- `H^(0)`, from the square roots of the first eight primes. -/
def initial : Vars :=
  ⟨squareRootBits 2, squareRootBits 3, squareRootBits 5, squareRootBits 7, squareRootBits 11,
    squareRootBits 13, squareRootBits 17, squareRootBits 19⟩

/-- `M_t`, the words of a block. -/
def word (block : List Byte) (t : Nat) : UInt32 := UInt32.ofNat (ofBe (slice block (4 * t) 4))

/-- The first `n` words of the message schedule, `W_0, …, W_(n-1)`. -/
def schedule (block : List Byte) : Nat → List UInt32
  | 0 => []
  | t + 1 =>
    let w := schedule block t
    w ++ [if t < 16 then word block t
      else smallSigma1 (w.getD (t - 2) 0) + w.getD (t - 7) 0 + smallSigma0 (w.getD (t - 15) 0) +
        w.getD (t - 16) 0]

/-- A round, with the constant `k` and the word `w` of the schedule. -/
def round (v : Vars) (k w : UInt32) : Vars :=
  let t₁ := v.h + bigSigma1 v.e + ch v.e v.f v.g + k + w
  let t₂ := bigSigma0 v.a + maj v.a v.b v.c
  ⟨t₁ + t₂, v.a, v.b, v.c, v.d + t₁, v.e, v.f, v.g⟩

/-- The first `n` rounds, on the words `w` of the schedule. -/
def rounds (w : List UInt32) (v : Vars) : Nat → Vars
  | 0 => v
  | t + 1 => round (rounds w v t) (constants.getD t 0) (w.getD t 0)

/-- `H^(i)` from `H^(i-1)` and the block `M^(i)`. -/
def compress (v : Vars) (block : List Byte) : Vars :=
  (rounds (schedule block 64) v 64).add v

/-- The number of zero bytes in the padding of a message of `n` bytes: as few
as make it whole blocks. -/
def padZeros (n : Nat) : Nat := (119 - n % 64) % 64

/-- A message with its padding. -/
def pad (m : List Byte) : List Byte :=
  m ++ 0x80 :: zeros (padZeros m.length) ++ beBytes 8 (8 * m.length)

theorem pad_blocks (m : List Byte) : 64 ∣ (pad m).length := by
  simp only [pad, padZeros, List.length_append, List.length_cons, List.length_replicate, length_beBytes]
  omega

/-- SHA-256. -/
def sha256 (m : List Byte) : List Byte :=
  (absorb 64 compress initial (pad m)).words.flatMap fun x => beBytes 4 x.toNat

example : sha256 (ascii "abc") =
    [0xba, 0x78, 0x16, 0xbf, 0x8f, 0x01, 0xcf, 0xea, 0x41, 0x41, 0x40, 0xde, 0x5d, 0xae, 0x22, 0x23,
      0xb0, 0x03, 0x61, 0xa3, 0x96, 0x17, 0x7a, 0x9c, 0xb4, 0x10, 0xff, 0x61, 0xf2, 0x00, 0x15, 0xad] := by
  decide +kernel

end Linkkit.Spec.Sha256
