import Linkkit.Framework.Buf

/-!
# C integers

`sizeT` is the conversion of an `int` to `size_t`; `le32` and `ofLe32` are the
four bytes of a 32-bit word in memory, least significant first, and `beBytes`
and `ofBe` the bytes of a number, most significant first.
-/

namespace Linkkit

/-- An `int` converted to `size_t`. -/
def sizeT (x : Int32) : Nat := (x.toInt % 0x10000000000000000).toNat

theorem sizeT_of_nonneg {x : Int32} (h : 0 ≤ x.toInt) : sizeT x = x.toInt.toNat := by
  have := x.toInt_lt
  rw [sizeT, Int.emod_eq_of_lt h (by omega)]

/-- The smaller of two integers. -/
theorem toInt_ite_lt (a b : Int32) : (if a < b then a else b).toInt = min a.toInt b.toInt := by
  split
  · rename_i h
    rw [Int32.lt_iff_toInt_lt] at h
    omega
  · rename_i h
    rw [Int32.lt_iff_toInt_lt] at h
    omega

/-- A 32-bit word in memory. -/
def le32 (x : UInt32) : List Byte :=
  [UInt8.ofNat x.toNat, UInt8.ofNat (x.toNat / 0x100), UInt8.ofNat (x.toNat / 0x10000),
    UInt8.ofNat (x.toNat / 0x1000000)]

/-- The 32-bit word at the start of an object. -/
def ofLe32 (bs : List Byte) : UInt32 :=
  UInt32.ofNat ((bs.getD 0 0).toNat + 0x100 * (bs.getD 1 0).toNat + 0x10000 * (bs.getD 2 0).toNat +
    0x1000000 * (bs.getD 3 0).toNat)

@[simp] theorem length_le32 (x : UInt32) : (le32 x).length = 4 := rfl

theorem ofLe32_le32 (x : UInt32) : ofLe32 (le32 x) = x := by
  have := x.toNat_lt
  apply UInt32.toNat_inj.mp
  simp only [ofLe32, le32, List.getD_cons_zero, List.getD_cons_succ, UInt8.toNat_ofNat', UInt32.toNat_ofNat']
  omega

theorem le32_ofLe32 {bs : List Byte} (h : bs.length = 4) : le32 (ofLe32 bs) = bs := by
  obtain ⟨a, b, c, d, rfl⟩ : ∃ a b c d, bs = [a, b, c, d] := by
    match bs, h with
    | [a, b, c, d], _ => exact ⟨a, b, c, d, rfl⟩
  have ha := a.toNat_lt
  have hb := b.toNat_lt
  have hc := c.toNat_lt
  have hd := d.toNat_lt
  simp only [ofLe32, le32, List.getD_cons_zero, List.getD_cons_succ, UInt32.toNat_ofNat',
    List.cons.injEq, and_true]
  refine ⟨?_, ?_, ?_, ?_⟩ <;>
  · apply UInt8.toNat_inj.mp
    rw [UInt8.toNat_ofNat']
    omega

/-! ## Most significant byte first -/

/-- The `k` bytes of a number, most significant first. -/
def beBytes (k n : Nat) : List Byte :=
  (List.range k).map fun i => UInt8.ofNat (n >>> (8 * (k - 1 - i)))

/-- The number that bytes denote, most significant first. -/
def ofBe (bs : List Byte) : Nat := bs.foldl (fun n b => 0x100 * n + b.toNat) 0

@[simp] theorem length_beBytes (k n : Nat) : (beBytes k n).length = k := by
  rw [beBytes, List.length_map, List.length_range]

/-- A number of 64 bits from its two words. -/
theorem beBytes_words (a : Nat) {b : Nat} (hb : b < 0x100000000) :
    beBytes 8 (0x100000000 * a + b) = beBytes 4 a ++ beBytes 4 b := by
  simp only [beBytes, show List.range 8 = [0, 1, 2, 3, 4, 5, 6, 7] from rfl,
    show List.range 4 = [0, 1, 2, 3] from rfl, List.map_cons, List.map_nil, List.cons_append,
    List.nil_append, List.cons.injEq, Nat.shiftRight_eq_div_pow]
  refine ⟨?_, ?_, ?_, ?_, ?_, ?_, ?_, ?_, trivial⟩ <;>
  · apply UInt8.toNat_inj.mp
    rw [UInt8.toNat_ofNat', UInt8.toNat_ofNat']
    omega

end Linkkit
