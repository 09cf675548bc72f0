import Linkkit.Framework.Int
import Mathlib.Algebra.Group.Nat.Defs
import Mathlib.Data.List.Induction

/-!
# Numerals of a fixed width

`numeral b w n` is the `w` last digits of `n` in base `b`, most significant
first. It is the numeral of `n` with zeros before it if `n` has no more than
`w` digits (`leftpad_toDigits`), and the digits in base `b * b` are two in base
`b` each (`numeral_mul_self`). The bytes of `ofBe` are its digits in base 256
(`numeral_ofBe`).
-/

namespace Linkkit

/-- The `w` last digits of `n` in base `b`. -/
def numeral (b : Nat) : Nat → Nat → List Nat
  | 0, _ => []
  | w + 1, n => numeral b w (n / b) ++ [n % b]

theorem numeral_succ (b w n : Nat) : numeral b (w + 1) n = numeral b w (n / b) ++ [n % b] := rfl

theorem numeral_zero (b w : Nat) : numeral b w 0 = List.replicate w 0 := by
  induction w with
  | zero => rfl
  | succ w ih => rw [numeral_succ, Nat.zero_div, Nat.zero_mod, ih, List.replicate_succ']

/-- A number of at most `w` digits, with zeros before them. -/
theorem leftpad_toDigits {b w n : Nat} (hb : 1 < b) (hw : 0 < w) (hn : n < b ^ w) :
    (Nat.toDigits b n).leftpad w '0' = (numeral b w n).map Nat.digitChar := by
  induction w generalizing n with
  | zero => omega
  | succ w ih =>
    rw [numeral_succ, List.map_append, List.map_singleton]
    by_cases h : n < b
    · rw [Nat.toDigits_of_lt_base h, Nat.div_eq_of_lt h, Nat.mod_eq_of_lt h, numeral_zero, List.map_replicate]
      rfl
    · have hdiv : n / b < b ^ w := Nat.div_lt_of_lt_mul (by rwa [Nat.mul_comm, ← Nat.pow_succ])
      have hpos : 0 < n / b := Nat.div_pos (Nat.le_of_not_lt h) (by omega)
      -- The numeral of `n / b` is not empty, so the width `w` is not zero.
      have hw : 0 < w := by
        rcases Nat.eq_zero_or_pos w with rfl | hw
        · rw [Nat.pow_zero] at hdiv
          omega
        · exact hw
      rw [← ih hw hdiv, Nat.toDigits_of_base_le hb (Nat.le_of_not_lt h), List.leftpad, List.leftpad,
        List.length_append, List.length_singleton, Nat.add_sub_add_right, List.append_assoc]

/-- Two digits for each digit in base `b * b`. -/
theorem numeral_mul_self (b w n : Nat) :
    numeral b (2 * w) n = (numeral (b * b) w n).flatMap fun d => [d / b, d % b] := by
  induction w generalizing n with
  | zero => rfl
  | succ w ih =>
    rw [Nat.mul_succ, numeral_succ, numeral_succ, numeral_succ, ih, List.flatMap_append, List.flatMap_singleton,
      Nat.div_div_eq_div_mul, Nat.mod_mul_right_div_self, Nat.mod_mul_left_mod, List.append_assoc]
    rfl

/-! ## Bytes -/

theorem ofBe_append_singleton (bs : List Byte) (b : Byte) : ofBe (bs ++ [b]) = 0x100 * ofBe bs + b.toNat := by
  rw [ofBe, List.foldl_append, List.foldl_cons, List.foldl_nil, ofBe]

theorem ofBe_lt (bs : List Byte) : ofBe bs < 0x100 ^ bs.length := by
  induction bs using List.reverseRecOn with
  | nil => decide
  | append_singleton bs b ih =>
    have hb := b.toNat_lt
    rw [ofBe_append_singleton, List.length_append, List.length_singleton, Nat.pow_succ]
    omega

/-- Bytes are the digits in base 256 of the number they denote. -/
theorem numeral_ofBe (bs : List Byte) : numeral 0x100 bs.length (ofBe bs) = bs.map UInt8.toNat := by
  induction bs using List.reverseRecOn with
  | nil => rfl
  | append_singleton bs b ih =>
    have hb := b.toNat_lt
    have hdiv : ofBe (bs ++ [b]) / 0x100 = ofBe bs := by rw [ofBe_append_singleton]; omega
    have hmod : ofBe (bs ++ [b]) % 0x100 = b.toNat := by rw [ofBe_append_singleton]; omega
    rw [List.length_append, List.length_singleton, numeral_succ, hdiv, hmod, ih, List.map_append,
      List.map_singleton]

end Linkkit
