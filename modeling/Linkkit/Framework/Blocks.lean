import Linkkit.Framework.Buf
import Mathlib.Logic.Function.Basic

/-!
# Files of fixed-size blocks

A file is its bytes. `pwrite` stores bytes at an offset, as `write` does after
`lseek`. `blocks n b` is the file of the blocks `b 0, …, b (n - 1)`; if they
all have `w` bytes, reading block `i` gives `b i` (`slice_blocks`) and storing
a block there changes that block only (`splice_blocks`), so a file of `n`
blocks and the function of its blocks determine each other (`blocks_slice`).
-/

namespace Linkkit

/-- The bytes `data` stored at `off`, past the end of `f` if they reach there
(a hole reads as zeros). -/
def pwrite (f : List Byte) (off : Nat) (data : List Byte) : List Byte :=
  f.take off ++ zeros (off - f.length) ++ data ++ f.drop (off + data.length)

theorem pwrite_eq_splice {f data : List Byte} {off : Nat} (h : off ≤ f.length) :
    pwrite f off data = splice f off data := by
  simp [pwrite, splice, Nat.sub_eq_zero_of_le h]

theorem length_pwrite (f : List Byte) (off : Nat) (data : List Byte) :
    (pwrite f off data).length = max f.length (off + data.length) := by
  simp only [pwrite, List.length_append, List.length_take, List.length_replicate, List.length_drop]
  omega

/-- Bytes stored at the end of a file. -/
theorem pwrite_end (f data : List Byte) : pwrite f f.length data = f ++ data := by
  simp [pwrite]

theorem splice_eq_of_slice {f : List Byte} {off m : Nat} {old new : List Byte}
    (hs : slice f off m = old) (hl : new.length = m) (hm : off + m ≤ f.length) {n : Nat}
    (hd : new.drop n = old.drop n) : splice f off (new.take n) = splice f off new := by
  have ho : old.length = m := by rw [← hs]; exact length_slice hm
  apply List.ext_getElem?
  intro k
  rw [splice_getElem? (by rw [List.length_take]; omega), splice_getElem? (by omega), List.length_take]
  by_cases h₁ : off ≤ k ∧ k < off + min n new.length
  · rw [if_pos h₁, if_pos (by omega), List.getElem?_take_of_lt (by omega)]
  · rw [if_neg h₁]
    by_cases h₂ : off ≤ k ∧ k < off + new.length
    · -- past the stored bytes the file still holds `old`, which agrees with `new` there
      have e := congrArg (·[k - off - n]?) hd
      simp only [List.getElem?_drop, show n + (k - off - n) = k - off by omega] at e
      rw [if_pos h₂, e, ← hs, slice, List.getElem?_take_of_lt (by omega), List.getElem?_drop]
      congr 1; omega
    · rw [if_neg h₂]

/-- Bytes stored past or before a part of the file leave it alone. -/
theorem slice_splice_of_disjoint {f data : List Byte} {off i n : Nat} (h : off + data.length ≤ f.length)
    (hd : i + n ≤ off ∨ off + data.length ≤ i) : slice (splice f off data) i n = slice f i n := by
  apply List.ext_getElem?
  intro k
  simp only [slice]
  by_cases hk : k < n
  · rw [List.getElem?_take_of_lt hk, List.getElem?_take_of_lt hk, List.getElem?_drop,
      List.getElem?_drop, splice_getElem? h, if_neg (by omega)]
  · rw [List.getElem?_take_eq_none (by omega), List.getElem?_take_eq_none (by omega)]

/-- The file of the blocks `b 0, …, b (n - 1)`. -/
def blocks (n : Nat) (b : Nat → List Byte) : List Byte := (List.range n).flatMap b

section

variable {w : Nat} {b : Nat → List Byte}

theorem blocks_succ (n : Nat) (b : Nat → List Byte) : blocks (n + 1) b = blocks n b ++ b n := by
  simp [blocks, List.range_succ]

theorem blocks_congr {n : Nat} {b b' : Nat → List Byte} (h : ∀ i < n, b i = b' i) :
    blocks n b = blocks n b' := by
  simp only [blocks, List.flatMap]
  exact congrArg List.flatten (List.map_congr_left fun i hi => h i (List.mem_range.mp hi))

theorem length_blocks (hb : ∀ i, (b i).length = w) (n : Nat) : (blocks n b).length = n * w := by
  induction n with
  | zero => simp [blocks]
  | succ n ih => rw [blocks_succ, List.length_append, ih, hb, Nat.succ_mul]

/-- Reading a block. -/
theorem slice_blocks (hb : ∀ i, (b i).length = w) {i n : Nat} (hi : i < n) :
    slice (blocks n b) (i * w) w = b i := by
  induction n with
  | zero => omega
  | succ n ih =>
    have hl := length_blocks hb n
    rw [blocks_succ, slice]
    rcases Nat.lt_succ_iff_lt_or_eq.mp hi with h | rfl
    · have hle : i * w + w ≤ n * w := by rw [← Nat.succ_mul]; exact Nat.mul_le_mul_right w h
      rw [List.drop_append_of_le_length (by omega),
        List.take_append_of_le_length (by rw [List.length_drop]; omega)]
      exact ih h
    · rw [← hl, List.drop_left, List.take_of_length_le (Nat.le_of_eq (hb i))]

/-- Storing a block. -/
theorem splice_blocks (hb : ∀ i, (b i).length = w) {i n : Nat} (hi : i < n) {c : List Byte}
    (hc : c.length = w) : splice (blocks n b) (i * w) c = blocks n (Function.update b i c) := by
  induction n with
  | zero => omega
  | succ n ih =>
    have hl := length_blocks hb n
    rw [blocks_succ, blocks_succ]
    rcases Nat.lt_succ_iff_lt_or_eq.mp hi with h | rfl
    · have hle : i * w + w ≤ n * w := by rw [← Nat.succ_mul]; exact Nat.mul_le_mul_right w h
      rw [← ih h, Function.update_of_ne (Nat.ne_of_gt h), splice, splice,
        List.take_append_of_le_length (by omega), List.drop_append_of_le_length (by omega),
        List.append_assoc, List.append_assoc, List.append_assoc]
    · have hd : (blocks i b ++ b i).drop (i * w + c.length) = [] :=
        List.drop_of_length_le (Nat.le_of_eq (by rw [List.length_append, hl, hb, hc]))
      rw [splice, hd, ← hl, List.take_left, Function.update_self, List.append_nil]
      congr 1
      exact blocks_congr fun j hj => (Function.update_of_ne (Nat.ne_of_lt hj) _ _).symm

/-- Storing a block of the file, or the next one. -/
theorem pwrite_blocks (hb : ∀ i, (b i).length = w) {i n : Nat} (hi : i ≤ n) {c : List Byte}
    (hc : c.length = w) :
    pwrite (blocks n b) (i * w) c = blocks (max n (i + 1)) (Function.update b i c) := by
  have hl := length_blocks hb n
  rcases Nat.lt_or_eq_of_le hi with hlt | rfl
  · rw [Nat.max_eq_left hlt, ← splice_blocks hb hlt hc,
      pwrite_eq_splice (by rw [hl]; exact Nat.mul_le_mul_right w hi)]
  · rw [Nat.max_eq_right (Nat.le_succ i), ← hl, pwrite_end, blocks_succ, Function.update_self]
    congr 1
    exact blocks_congr fun j hj => (Function.update_of_ne (Nat.ne_of_lt hj) _ _).symm

/-- A file of `n` blocks is the file of the blocks it reads as. -/
theorem blocks_slice {f : List Byte} {n : Nat} (hf : f.length = n * w) :
    blocks n (fun i => slice f (i * w) w) = f := by
  have key : ∀ k ≤ n, blocks k (fun i => slice f (i * w) w) = f.take (k * w) := by
    intro k hk
    induction k with
    | zero => simp [blocks]
    | succ k ih => rw [blocks_succ, ih (by omega), slice, Nat.succ_mul, List.take_add]
  rw [key n (Nat.le_refl n), ← hf, List.take_length]

end

end Linkkit
