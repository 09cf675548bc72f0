import Mathlib.Data.List.Basic
import Mathlib.Tactic.Common

/-!
# Hashing block by block

A hash function over blocks of `w` elements: `absorb w f s m` is the state
after the whole blocks of `m`, from the state `s`, one step `f` for each. What
a streaming implementation keeps is that state and the elements after the last
whole block; `Absorbed w f s₀ m s t` says that `s` and `t` are these for `m`.

* `Absorbed.append`, `Absorbed.block`: more elements, that stay pending, or
  that fill the pending block;
* `Absorbed.eq`, `Absorbed.rest`: the state and the pending elements are
  determined by `m`;
* `absorb_eq_foldl`: the state is a fold over `fullBlocks w m`, the blocks of
  `m` one after the other.
-/

namespace Linkkit

variable {σ α : Type*} (w : Nat) (f : σ → List α → σ)

/-- The state after the first `n` blocks of `m`. -/
def absorbN : Nat → σ → List α → σ
  | 0, s, _ => s
  | n + 1, s, m => absorbN n (f s (m.take w)) (m.drop w)

/-- The state after the whole blocks of `m`. -/
def absorb (s : σ) (m : List α) : σ := absorbN w f (m.length / w) s m

/-- The whole blocks of `m`, in order. -/
def fullBlocks (m : List α) : List (List α) :=
  (List.range (m.length / w)).map fun i => (m.drop (w * i)).take w

/-- `s` is the state after the whole blocks of `m`, from `s₀`, and `t` is what
is left of `m` after them. -/
structure Absorbed (s₀ : σ) (m : List α) (s : σ) (t : List α) : Prop where
  short : t.length < w
  split : ∃ b, m = b ++ t ∧ w ∣ b.length ∧ s = absorb w f s₀ b

variable {w f}

@[simp] theorem absorbN_zero (s : σ) (m : List α) : absorbN w f 0 s m = s := rfl

theorem absorbN_succ (n : Nat) (s : σ) (m : List α) :
    absorbN w f (n + 1) s m = absorbN w f n (f s (m.take w)) (m.drop w) := rfl

theorem absorbN_append (n : Nat) (s : σ) {b : List α} (hb : n * w ≤ b.length) (m : List α) :
    absorbN w f n s (b ++ m) = absorbN w f n s b := by
  induction n generalizing s b with
  | zero => rfl
  | succ n ih =>
    rw [Nat.succ_mul] at hb
    rw [absorbN_succ, absorbN_succ, List.take_append_of_le_length (by omega), List.drop_append_of_le_length (by omega),
      ih _ (by rw [List.length_drop]; omega)]

theorem absorbN_add (n k : Nat) (s : σ) (m : List α) :
    absorbN w f (n + k) s m = absorbN w f k (absorbN w f n s m) (m.drop (n * w)) := by
  induction n generalizing s m with
  | zero => simp
  | succ n ih =>
    rw [Nat.add_right_comm, absorbN_succ, absorbN_succ, ih, List.drop_drop, Nat.succ_mul, Nat.add_comm w]

@[simp] theorem absorb_nil (s : σ) : absorb w f s [] = s := by
  rw [absorb, List.length_nil, Nat.zero_div, absorbN_zero]

/-! ## Block after block -/

theorem absorbN_eq_foldl (n : Nat) (s : σ) (m : List α) :
    absorbN w f n s m = ((List.range n).map fun i => (m.drop (w * i)).take w).foldl f s := by
  induction n generalizing s m with
  | zero => rfl
  | succ n ih =>
    have hnext : ∀ i, ((m.drop w).drop (w * i)).take w = (m.drop (w * (i + 1))).take w := by
      intro i
      rw [List.drop_drop, Nat.mul_succ, Nat.add_comm]
    rw [absorbN_succ, ih, List.range_succ_eq_map, List.map_cons, List.foldl_cons, List.map_map, Nat.mul_zero,
      List.drop_zero]
    simp only [hnext, Function.comp_def]

theorem absorb_eq_foldl (s : σ) (m : List α) : absorb w f s m = (fullBlocks w m).foldl f s :=
  absorbN_eq_foldl _ s m

theorem length_of_mem_fullBlocks {m b : List α} (hb : b ∈ fullBlocks w m) : b.length = w := by
  obtain ⟨i, hi, rfl⟩ := List.mem_map.mp hb
  have hm : w * (i + 1) ≤ m.length :=
    Nat.le_trans (Nat.mul_le_mul_left w (List.mem_range.mp hi)) (Nat.mul_div_le m.length w)
  rw [Nat.mul_succ] at hm
  rw [List.length_take, List.length_drop]
  omega

/-! ## In pieces -/

section

variable (hw : 0 < w)

include hw

/-- Whole blocks, then one more. -/
theorem absorb_append_block (s : σ) {b c : List α} (hb : w ∣ b.length) (hc : c.length = w) :
    absorb w f s (b ++ c) = f (absorb w f s b) c := by
  obtain ⟨n, hn⟩ := hb
  have hl : (b ++ c).length / w = n + 1 := by
    rw [List.length_append, hn, hc, ← Nat.mul_succ, Nat.mul_div_cancel_left _ hw]
  have hb : b.length / w = n := by rw [hn, Nat.mul_div_cancel_left _ hw]
  have hnw : n * w = b.length := by rw [hn, Nat.mul_comm]
  rw [absorb, hl, absorbN_add, hnw, List.drop_left, absorbN_append n s (Nat.le_of_eq hnw), absorb, hb,
    absorbN_succ, absorbN_zero, List.take_of_length_le (Nat.le_of_eq hc)]

theorem Absorbed.nil (s₀ : σ) : Absorbed w f s₀ [] s₀ [] :=
  ⟨hw, [], rfl, Nat.dvd_zero w, (absorb_nil s₀).symm⟩

variable {s₀ s : σ} {m t c : List α}

/-- Elements that fill the pending block. -/
theorem Absorbed.block (h : Absorbed w f s₀ m s t) (hc : t.length + c.length = w) :
    Absorbed w f s₀ (m ++ c) (f s (t ++ c)) [] := by
  obtain ⟨-, b, rfl, hb, rfl⟩ := h
  have hl : (t ++ c).length = w := by rw [List.length_append, hc]
  refine ⟨hw, b ++ (t ++ c), by simp, ?_, (absorb_append_block hw s₀ hb hl).symm⟩
  rw [List.length_append, hl]
  exact Nat.dvd_add hb (Nat.dvd_refl w)

theorem Absorbed.eq (h : Absorbed w f s₀ m s t) : s = absorb w f s₀ m ∧ t.length = m.length % w := by
  obtain ⟨hs, b, rfl, ⟨n, hn⟩, rfl⟩ := h
  have hb : b.length / w = n := by rw [hn, Nat.mul_div_cancel_left _ hw]
  have hl : (b ++ t).length / w = n := by
    rw [List.length_append, hn, Nat.mul_add_div hw, Nat.div_eq_of_lt hs, Nat.add_zero]
  constructor
  · rw [absorb, absorb, hb, hl, absorbN_append n s₀ (Nat.le_of_eq (by rw [hn, Nat.mul_comm]))]
  · rw [List.length_append, hn, Nat.mul_add_mod, Nat.mod_eq_of_lt hs]

/-- The pending elements are those after the last whole block. -/
theorem Absorbed.rest (h : Absorbed w f s₀ m s t) : t = m.drop (w * (m.length / w)) := by
  obtain ⟨hs, b, rfl, ⟨n, hn⟩, -⟩ := h
  have hl : (b ++ t).length / w = n := by
    rw [List.length_append, hn, Nat.mul_add_div hw, Nat.div_eq_of_lt hs, Nat.add_zero]
  rw [hl, ← hn, List.drop_left]

end

/-- Elements that leave the block pending. -/
theorem Absorbed.append {s₀ s : σ} {m t c : List α} (h : Absorbed w f s₀ m s t)
    (hc : t.length + c.length < w) : Absorbed w f s₀ (m ++ c) s (t ++ c) := by
  obtain ⟨-, b, rfl, hb, rfl⟩ := h
  exact ⟨by rw [List.length_append]; exact hc, b, by simp, hb, rfl⟩

end Linkkit
