import Linkkit.Proof.Sha256.Words

/-!
# One block

`utils_sha256_process` extends the schedule `W` while it runs the rounds, and
moves the working variables by shifting the array `A`. After `i` passes of its
loop `W` is the first `i` words of the schedule and `A` the working variables
after `i` rounds (`processLoop_eq`), so the state after it is that of
`compress` (`process_eq`, and `process_compress` for a block in an array).
-/

namespace Linkkit.Proof.Sha256

open Impl.Sha256
open Spec.Sha256 (Vars word schedule rounds compress)

/-- The array `A`, or the state, as working variables. -/
def vars (A : Vector UInt32 8) : Vars :=
  ⟨A.get 0, A.get 1, A.get 2, A.get 3, A.get 4, A.get 5, A.get 6, A.get 7⟩

theorem eq_words (A : Vector UInt32 8) :
    A = #v[A.get 0, A.get 1, A.get 2, A.get 3, A.get 4, A.get 5, A.get 6, A.get 7] := by
  apply Vector.ext
  intro i hi
  rcases (by omega : i = 0 ∨ i = 1 ∨ i = 2 ∨ i = 3 ∨ i = 4 ∨ i = 5 ∨ i = 6 ∨ i = 7) with
    rfl | rfl | rfl | rfl | rfl | rfl | rfl | rfl <;> rfl

theorem vars_injective : Function.Injective vars := by
  intro A B h
  simp only [vars, Vars.mk.injEq] at h
  obtain ⟨h₀, h₁, h₂, h₃, h₄, h₅, h₆, h₇⟩ := h
  rw [eq_words A, eq_words B, h₀, h₁, h₂, h₃, h₄, h₅, h₆, h₇]

/-- The macro `P` and the rotation of the array. -/
theorem stepA_mk (a b c d e f g h x k : UInt32) : stepA #v[a, b, c, d, e, f, g, h] x k =
    #v[h + s3 e + f1 e f g + k + x + (s2 a + f0 a b c), a, b, c, d + (h + s3 e + f1 e f g + k + x), e, f, g] := rfl

/-- They are a round. -/
theorem vars_stepA (A : Vector UInt32 8) (x k : UInt32) :
    vars (stepA A x k) = Spec.Sha256.round (vars A) k x := by
  rw [eq_words A]
  generalize A.get 0 = a, A.get 1 = b, A.get 2 = c, A.get 3 = d, A.get 4 = e, A.get 5 = f, A.get 6 = g, A.get 7 = h
  rw [stepA_mk, s2_eq, s3_eq, f0_eq, f1_eq]
  rfl

theorem get_zipWith (s A : Vector UInt32 8) (i : Fin 8) :
    (Vector.zipWith (· + ·) s A).get i = s.get i + A.get i :=
  Vector.getElem_zipWith i.isLt

theorem vars_add (s A : Vector UInt32 8) : vars (Vector.zipWith (· + ·) s A) = (vars A).add (vars s) := by
  simp only [vars, Vars.add, get_zipWith, UInt32.add_comm]

/-! ## The schedule -/

/-- `W_t`. -/
def scheduleWord (b : List Byte) (t : Nat) : UInt32 :=
  if t < 16 then word b t
  else Spec.Sha256.smallSigma1 ((schedule b t).getD (t - 2) 0) + (schedule b t).getD (t - 7) 0 +
    Spec.Sha256.smallSigma0 ((schedule b t).getD (t - 15) 0) + (schedule b t).getD (t - 16) 0

theorem schedule_succ (b : List Byte) (t : Nat) : schedule b (t + 1) = schedule b t ++ [scheduleWord b t] := rfl

@[simp] theorem length_schedule (b : List Byte) (n : Nat) : (schedule b n).length = n := by
  induction n with
  | zero => rfl
  | succ n ih => rw [schedule_succ, List.length_append, ih, List.length_singleton]

/-- The words of the schedule do not change as it grows. -/
theorem getElem?_schedule (b : List Byte) {t n : Nat} (h : t < n) :
    (schedule b n)[t]? = some (scheduleWord b t) := by
  induction n with
  | zero => omega
  | succ n ih =>
    rw [schedule_succ]
    rcases Nat.lt_succ_iff_lt_or_eq.mp h with h | rfl
    · rw [List.getElem?_append_left (by rw [length_schedule]; exact h), ih h]
    · rw [List.getElem?_append_right (Nat.le_of_eq (length_schedule b t)), length_schedule,
        Nat.sub_self]
      rfl

theorem getD_schedule (b : List Byte) {t n : Nat} (h : t < n) : (schedule b n).getD t 0 = scheduleWord b t := by
  rw [List.getD_eq_getElem?_getD, getElem?_schedule b h, Option.getD_some]

section

variable {data : List Byte} (hd : 64 ≤ data.length)

include hd

/-- The next word of the schedule, from the words before it. -/
theorem nextWord_eq (i : Nat) :
    nextWord data i (schedule (data.take 64) i) = some (scheduleWord (data.take 64) i) := by
  by_cases hi : i < 16
  · have hs : slice (data.take 64) (4 * i) 4 = slice data (4 * i) 4 := by
      rw [slice, slice, List.drop_take, List.take_take, Nat.min_eq_left (by omega)]
    rw [nextWord, if_pos hi, getUint32Be_eq (by omega), scheduleWord, if_pos hi, word, hs]
  · simp only [nextWord, scheduleWord, hi, if_false, s0_eq, s1_eq,
      getElem?_schedule (data.take 64) (show i - 2 < i by omega),
      getElem?_schedule (data.take 64) (show i - 7 < i by omega),
      getElem?_schedule (data.take 64) (show i - 15 < i by omega),
      getElem?_schedule (data.take 64) (show i - 16 < i by omega),
      getD_schedule (data.take 64) (show i - 2 < i by omega),
      getD_schedule (data.take 64) (show i - 7 < i by omega),
      getD_schedule (data.take 64) (show i - 15 < i by omega),
      getD_schedule (data.take 64) (show i - 16 < i by omega)]
    rfl

/-- The loop from pass `i` on, when `i` rounds are done. -/
theorem processLoop_eq (v : Vars) (n i : Nat) (hn : i + n = 64) {A : Vector UInt32 8}
    (hA : vars A = rounds (schedule (data.take 64) 64) v i) :
    ∃ A', processLoop data n i (schedule (data.take 64) i) A = some A' ∧
      vars A' = rounds (schedule (data.take 64) 64) v 64 := by
  induction n generalizing i A with
  | zero =>
    obtain rfl : i = 64 := hn
    exact ⟨A, rfl, hA⟩
  | succ n ih =>
    have hi : i < K.length := by rw [show K.length = 64 from rfl]; omega
    have hk : K.getD i 0 = K[i] := by rw [List.getD_eq_getElem?_getD, List.getElem?_eq_getElem hi]; rfl
    have hA' : vars (stepA A (scheduleWord (data.take 64) i) K[i]) =
        rounds (schedule (data.take 64) 64) v (i + 1) := by
      rw [vars_stepA, hA, rounds, getD_schedule _ (by omega), ← K_eq, hk]
    obtain ⟨A', h, hv⟩ := ih (i + 1) (by omega) hA'
    refine ⟨A', ?_, hv⟩
    rw [processLoop, nextWord_eq hd, List.getElem?_eq_getElem hi]
    exact h

/-- `utils_sha256_process` reads the first 64 bytes of `data`, and changes the
state as `compress` does. -/
theorem process_eq (ctx : Context) : ∃ state, utilsSha256Process ctx data = some { ctx with state } ∧
    vars state = compress (vars ctx.state) (data.take 64) := by
  obtain ⟨A, h, hv⟩ := processLoop_eq hd (vars ctx.state) 64 0 rfl (A := ctx.state) rfl
  refine ⟨Vector.zipWith (· + ·) ctx.state A, ?_, by rw [vars_add, hv, compress]⟩
  rw [utilsSha256Process, show [] = schedule (data.take 64) 0 from rfl, h]
  rfl

end

/-- `utils_sha256_process` is the compression function, on every state and every
block, whatever follows the block in memory. -/
theorem process_compress (ctx : Context) (block : Buf 64) (rest : List Byte) :
    ∃ state, utilsSha256Process ctx (block.bytes ++ rest) = some { ctx with state } ∧
      vars state = compress (vars ctx.state) block.bytes := by
  have hd : 64 ≤ (block.bytes ++ rest).length := by
    rw [List.length_append, block.length_eq]
    exact Nat.le_add_right 64 _
  obtain ⟨state, hs, hv⟩ := process_eq hd ctx
  rw [List.take_left' block.length_eq] at hv
  exact ⟨state, hs, hv⟩

end Linkkit.Proof.Sha256
