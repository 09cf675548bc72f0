import Linkkit.Impl.Sha256
import Linkkit.Spec.Sha256

/-!
# The words of SHA-256

The macros of the code are the functions of the standard (`s0_eq`, …,
`f1_eq`), its table the constants (`K_eq`), and the words it reads and writes
are big-endian (`getUint32Be_eq`, `be32_eq`).
-/

namespace Linkkit.Proof.Sha256

open Impl.Sha256

/-! ## Functions and constants -/

theorem shr_eq (x n : UInt32) : shr x n = x >>> n := by
  have h : x &&& 0xFFFFFFFF = x := by
    apply UInt32.toNat_inj.mp
    rw [UInt32.toNat_and]
    exact (Nat.and_two_pow_sub_one_eq_mod x.toNat 32).trans (Nat.mod_eq_of_lt x.toNat_lt)
  rw [shr, h]

theorem rotr_eq (x n : UInt32) : rotr x n = Spec.Sha256.rotr n x := by
  rw [rotr, shr_eq, Spec.Sha256.rotr]

theorem s0_eq (x : UInt32) : s0 x = Spec.Sha256.smallSigma0 x := by
  simp only [s0, rotr_eq, shr_eq, Spec.Sha256.smallSigma0]

theorem s1_eq (x : UInt32) : s1 x = Spec.Sha256.smallSigma1 x := by
  simp only [s1, rotr_eq, shr_eq, Spec.Sha256.smallSigma1]

theorem s2_eq (x : UInt32) : s2 x = Spec.Sha256.bigSigma0 x := by
  simp only [s2, rotr_eq, Spec.Sha256.bigSigma0]

theorem s3_eq (x : UInt32) : s3 x = Spec.Sha256.bigSigma1 x := by
  simp only [s3, rotr_eq, Spec.Sha256.bigSigma1]

theorem f0_eq (x y z : UInt32) : f0 x y z = Spec.Sha256.maj x y z := by
  apply UInt32.eq_of_toBitVec_eq
  simp only [f0, Spec.Sha256.maj, UInt32.toBitVec_and, UInt32.toBitVec_or, UInt32.toBitVec_xor]
  ext i hi
  simp only [BitVec.getElem_or, BitVec.getElem_and, BitVec.getElem_xor]
  cases x.toBitVec[i] <;> cases y.toBitVec[i] <;> cases z.toBitVec[i] <;> rfl

theorem f1_eq (x y z : UInt32) : f1 x y z = Spec.Sha256.ch x y z := by
  apply UInt32.eq_of_toBitVec_eq
  simp only [f1, Spec.Sha256.ch, UInt32.toBitVec_and, UInt32.toBitVec_xor, UInt32.toBitVec_not]
  ext i hi
  simp only [BitVec.getElem_and, BitVec.getElem_xor, BitVec.getElem_not]
  cases x.toBitVec[i] <;> cases y.toBitVec[i] <;> cases z.toBitVec[i] <;> rfl

theorem K_eq : K = Spec.Sha256.constants := by decide +kernel

/-! ## Bytes -/

theorem or_byte (n : Nat) (b : Byte) : (n <<< 8) ||| b.toNat = 0x100 * n + b.toNat := by
  rw [← Nat.shiftLeft_add_eq_or_of_lt b.toNat_lt, Nat.shiftLeft_eq, Nat.mul_comm]

theorem toNat_shiftLeft_byte (b : Byte) {n : UInt32} (hn : n.toNat ≤ 24) :
    (b.toUInt32 <<< n).toNat = b.toNat <<< n.toNat := by
  have hb := b.toNat_lt
  have hp : 2 ^ n.toNat ≤ 2 ^ 24 := Nat.pow_le_pow_right (by decide) hn
  have hlt : b.toNat * 2 ^ n.toNat < 2 ^ 32 :=
    Nat.lt_of_lt_of_le (Nat.mul_lt_mul_of_lt_of_le hb hp (by decide)) (by decide)
  rw [UInt32.toNat_shiftLeft, UInt8.toNat_toUInt32, Nat.mod_eq_of_lt (show n.toNat < 32 by omega),
    Nat.shiftLeft_eq, Nat.mod_eq_of_lt hlt]

/-- Four bytes joined by shifts. -/
theorem join_bytes (b₀ b₁ b₂ b₃ : Byte) :
    (b₀.toUInt32 <<< 24) ||| (b₁.toUInt32 <<< 16) ||| (b₂.toUInt32 <<< 8) ||| b₃.toUInt32 =
      UInt32.ofNat (ofBe [b₀, b₁, b₂, b₃]) := by
  have h₀ := b₀.toNat_lt
  have h₁ := b₁.toNat_lt
  have h₂ := b₂.toNat_lt
  have h₃ := b₃.toNat_lt
  have hbe : ofBe [b₀, b₁, b₂, b₃] =
      0x100 * (0x100 * (0x100 * b₀.toNat + b₁.toNat) + b₂.toNat) + b₃.toNat := by
    simp only [ofBe, List.foldl_cons, List.foldl_nil, Nat.mul_zero, Nat.zero_add]
  apply UInt32.toNat_inj.mp
  rw [UInt32.toNat_ofNat_of_lt' (show _ < 4294967296 by rw [hbe]; omega), hbe, ← or_byte, ← or_byte, ← or_byte,
    Nat.shiftLeft_or_distrib, Nat.shiftLeft_or_distrib, Nat.shiftLeft_or_distrib]
  simp only [UInt32.toNat_or, toNat_shiftLeft_byte b₀ (show (24 : UInt32).toNat ≤ 24 by decide),
    toNat_shiftLeft_byte b₁ (show (16 : UInt32).toNat ≤ 24 by decide),
    toNat_shiftLeft_byte b₂ (show (8 : UInt32).toNat ≤ 24 by decide), UInt8.toNat_toUInt32,
    ← Nat.shiftLeft_add]
  rfl

/-- A word of a block that holds it. -/
theorem getUint32Be_eq {data : List Byte} {i : Nat} (h : i + 4 ≤ data.length) :
    getUint32Be data i = some (UInt32.ofNat (ofBe (slice data i 4))) := by
  have hs : slice data i 4 = [data[i], data[i + 1], data[i + 2], data[i + 3]] := by
    apply List.ext_getElem?
    intro k
    rw [slice]
    by_cases hk : k < 4
    · rw [List.getElem?_take_of_lt hk, List.getElem?_drop, List.getElem?_eq_getElem (by omega)]
      rcases (by omega : k = 0 ∨ k = 1 ∨ k = 2 ∨ k = 3) with rfl | rfl | rfl | rfl <;> rfl
    · rw [List.getElem?_take_eq_none (by omega), List.getElem?_eq_none (by simpa using hk)]
  rw [getUint32Be, List.getElem?_eq_getElem (by omega), List.getElem?_eq_getElem (by omega),
    List.getElem?_eq_getElem (by omega), List.getElem?_eq_getElem (by omega), hs, ← join_bytes]
  rfl

theorem be32_eq (n : UInt32) : be32 n = beBytes 4 n.toNat := by
  have hbyte : ∀ s : UInt32, s.toNat < 32 → (n >>> s).toUInt8 = UInt8.ofNat (n.toNat >>> s.toNat) :=
    fun s hs => by
      apply UInt8.toNat_inj.mp
      rw [UInt32.toNat_toUInt8, UInt32.toNat_shiftRight, Nat.mod_eq_of_lt hs, UInt8.toNat_ofNat']
  have h₃ : n.toUInt8 = UInt8.ofNat n.toNat := by
    apply UInt8.toNat_inj.mp
    rw [UInt32.toNat_toUInt8, UInt8.toNat_ofNat']
  rw [be32, hbyte 24 (by decide), hbyte 16 (by decide), hbyte 8 (by decide), h₃]
  rfl

end Linkkit.Proof.Sha256
