import Mathlib.Data.List.Basic
import Mathlib.Tactic.Common

/-!
# Words that commute, and pairs of words joined twice

A text built from two words `p` and `d` without lengths or escapes determines
them or not depending on the separators and on the order in which they are
repeated:

* `parallel_inj`: if both halves have `d` before `p`, after separators that
  begin with different letters, the text determines both words;
* `crossed_iff`: if the second half has them in the other order, it does not,
  and `Crossed` says which pairs give the same text.

The second rests on what two words that commute look like (`commute`): they
are powers of one word, `pow r m` and `pow r n`.
-/

namespace Linkkit.Words

variable {α : Type*}

/-- The word `r`, `n` times. -/
def pow (r : List α) (n : ℕ) : List α := (List.replicate n r).flatten

@[simp] theorem pow_zero (r : List α) : pow r 0 = [] := rfl

theorem pow_succ (r : List α) (n : ℕ) : pow r (n + 1) = r ++ pow r n := by
  rw [pow, List.replicate_succ, List.flatten_cons, pow]

theorem pow_add (r : List α) (m n : ℕ) : pow r (m + n) = pow r m ++ pow r n := by
  rw [pow, List.replicate_add, List.flatten_append, pow, pow]

@[simp] theorem pow_one (r : List α) : pow r 1 = r := by
  rw [pow_succ, pow_zero, List.append_nil]

theorem mem_of_mem_pow {x : α} {r : List α} {n : ℕ} (h : x ∈ pow r n) : x ∈ r := by
  obtain ⟨l, hl, hx⟩ := List.mem_flatten.mp h
  rwa [← List.eq_of_mem_replicate hl]

theorem mem_pow {x : α} {r : List α} {n : ℕ} (hn : 0 < n) (h : x ∈ r) : x ∈ pow r n :=
  List.mem_flatten.mpr ⟨r, List.mem_replicate.mpr ⟨Nat.ne_of_gt hn, rfl⟩, h⟩

/-- A product of two words turned round. -/
theorem pow_rotate (a b : List α) (n : ℕ) : pow (a ++ b) n ++ a = a ++ pow (b ++ a) n := by
  induction n with
  | zero => simp
  | succ n ih =>
    rw [pow_succ, pow_succ, List.append_assoc, ih]
    simp only [List.append_assoc]

/-- Words that commute are powers of one word. -/
theorem commute {x y : List α} (h : x ++ y = y ++ x) : ∃ r m n, x = pow r m ∧ y = pow r n := by
  obtain ⟨k, hk⟩ : ∃ k, x.length + y.length ≤ k := ⟨_, Nat.le_refl _⟩
  -- the shorter word is a prefix of the longer one, and commutes with what is left of it
  induction k generalizing x y with
  | zero =>
    have hx : x.length = 0 := by omega
    have hy : y.length = 0 := by omega
    exact ⟨[], 0, 0, List.length_eq_zero_iff.mp hx, List.length_eq_zero_iff.mp hy⟩
  | succ k ih =>
    by_cases hx : x = []
    · exact ⟨y, 0, 1, hx, (pow_one y).symm⟩
    by_cases hy : y = []
    · exact ⟨x, 1, 0, (pow_one x).symm, hy⟩
    have lx := List.length_pos_iff.mpr hx
    have ly := List.length_pos_iff.mpr hy
    rcases List.append_eq_append_iff.mp h with ⟨z, rfl, -⟩ | ⟨z, rfl, -⟩
    · have hz : x ++ z = z ++ x := List.append_cancel_left (by rw [h, List.append_assoc])
      rw [List.length_append] at hk
      obtain ⟨r, m, n, rfl, rfl⟩ := ih hz (by omega)
      exact ⟨r, m, m + n, rfl, (pow_add r m n).symm⟩
    · have hz : z ++ y = y ++ z := List.append_cancel_left (by rw [← h, List.append_assoc])
      rw [List.length_append] at hk
      obtain ⟨r, m, n, rfl, rfl⟩ := ih hz (by omega)
      exact ⟨r, n + m, n, (pow_add r n m).symm, rfl⟩

/-- A power cut in two: the cut falls into one of its factors. -/
theorem pow_eq_append {r x y : List α} {n : ℕ} (hn : 0 < n) (h : pow r n = x ++ y) :
    ∃ a b i j, r = a ++ b ∧ x = pow r i ++ a ∧ y = b ++ pow r j := by
  induction n generalizing x with
  | zero => omega
  | succ n ih =>
    rw [pow_succ] at h
    rcases List.append_eq_append_iff.mp h with ⟨z, rfl, hz⟩ | ⟨b, hr, rfl⟩
    · by_cases h₀ : n = 0
      · subst h₀
        obtain ⟨rfl, rfl⟩ := List.append_eq_nil_iff.mp (show z ++ y = [] from hz.symm)
        exact ⟨r, [], 0, 0, by simp, by simp, by simp⟩
      · obtain ⟨a, b, i, j, hr, rfl, rfl⟩ := ih (Nat.pos_of_ne_zero h₀) hz
        refine ⟨a, b, i + 1, j, hr, ?_, rfl⟩
        rw [pow_succ, List.append_assoc]
    · exact ⟨x, b, 0, n, hr, by simp, rfl⟩

/-- What two words that are conjugate by `x` one way and by `y` the other way
look like. -/
theorem conjugate {u w x y : List α} (hx : u ++ x = x ++ w) (hy : w ++ y = y ++ u) (hu : u ≠ [])
    (hne : x ≠ []) : ∃ a b i j m, 0 < m ∧ u = pow (a ++ b) m ∧ w = pow (b ++ a) m ∧
      x = pow (a ++ b) i ++ a ∧ y = pow (b ++ a) j ++ b := by
  have hcomm : u ++ (x ++ y) = (x ++ y) ++ u := by
    rw [← List.append_assoc, hx, List.append_assoc, hy, List.append_assoc]
  obtain ⟨r, m, n, hum, hxy⟩ := commute hcomm
  have hm : 0 < m := Nat.pos_of_ne_zero fun h => hu (by rw [hum, h, pow_zero])
  have hn : 0 < n := Nat.pos_of_ne_zero fun h => by
    rw [h, pow_zero] at hxy
    exact hne (List.append_eq_nil_iff.mp hxy).1
  obtain ⟨a, b, i, j, rfl, rfl, rfl⟩ := pow_eq_append hn hxy.symm
  refine ⟨a, b, i, j, m, hm, hum, ?_, rfl, (pow_rotate b a j).symm⟩
  apply (List.append_right_inj (pow (a ++ b) i ++ a)).mp
  rw [← hx, hum, ← List.append_assoc, ← pow_add, Nat.add_comm, pow_add, List.append_assoc,
    List.append_assoc, pow_rotate]

/-- Such words are conjugate. -/
theorem pow_conjugate (a b : List α) (i m : ℕ) :
    pow (a ++ b) m ++ (pow (a ++ b) i ++ a) = pow (a ++ b) i ++ a ++ pow (b ++ a) m := by
  rw [← List.append_assoc, ← pow_add, Nat.add_comm, pow_add, List.append_assoc, List.append_assoc,
    pow_rotate]

/-! ## Two words joined twice -/

section

variable {p d p' d' s t c : List α}

/-- `d` before `p` in both halves, with `t` between them. -/
theorem parallel_inj {a b : α} (hs : s.head? = some a) (hc : c.head? = some b) (hab : a ≠ b)
    (h : d ++ s ++ p ++ (t ++ (d ++ c ++ p)) = d' ++ s ++ p' ++ (t ++ (d' ++ c ++ p'))) :
    p = p' ∧ d = d' := by
  have hlen := congrArg List.length h
  simp only [List.length_append] at hlen
  obtain ⟨h₁, h₂⟩ := List.append_inj h (by simp only [List.length_append]; omega)
  rw [List.append_cancel_left_eq] at h₂
  rw [List.append_assoc, List.append_assoc] at h₁ h₂
  -- what one `d` has more than the other begins like both separators
  have key : ∀ {p d p' w : List α}, d ++ (s ++ p) = d ++ w ++ (s ++ p') →
      d ++ (c ++ p) = d ++ w ++ (c ++ p') → w = [] := fun {p d p' w} h₁ h₂ => by
    rw [List.append_assoc, List.append_cancel_left_eq] at h₁ h₂
    have h₁ := congrArg List.head? h₁
    have h₂ := congrArg List.head? h₂
    cases w with
    | nil => rfl
    | cons e w =>
      rw [List.head?_append, hs] at h₁
      rw [List.head?_append, hc] at h₂
      cases h₁
      cases h₂
      exact absurd rfl hab
  rcases List.append_eq_append_iff.mp h₁ with ⟨w, rfl, -⟩ | ⟨w, rfl, -⟩
  · obtain rfl := key h₁ h₂
    rw [List.append_nil, List.append_cancel_left_eq, List.append_cancel_left_eq] at h₁
    exact ⟨h₁, (List.append_nil d).symm⟩
  · obtain rfl := key h₁.symm h₂.symm
    rw [List.append_nil, List.append_cancel_left_eq, List.append_cancel_left_eq] at h₁
    exact ⟨h₁, List.append_nil d'⟩

/-- The pair of `p` and `d` has in `p` what that of `p'` and `d'` has in `d'`,
so that the two give the same text. -/
def Crossed (s c p d p' d' : List α) : Prop :=
  ∃ a b i j m, 0 < m ∧ c ++ p' = pow (a ++ b) i ++ a ∧ s ++ d = pow (b ++ a) j ++ b ∧
    p = p' ++ pow (b ++ a) m ∧ d' = d ++ pow (a ++ b) m

/-- The longer `p` has the letters of the separator before `d`. -/
theorem Crossed.mem {x : α} (h : Crossed s c p d p' d') (hx : x ∈ s) : x ∈ p := by
  obtain ⟨a, b, i, j, m, hm, -, hs, rfl, -⟩ := h
  have hmem : x ∈ pow (b ++ a) j ++ b := hs ▸ List.mem_append_left d hx
  have hba : x ∈ b ++ a := by
    rcases List.mem_append.mp hmem with h | h
    · exact mem_of_mem_pow h
    · exact List.mem_append_left a h
  exact List.mem_append_right p' (mem_pow hm hba)

theorem Crossed.halves_eq (h : Crossed s c p d p' d') :
    p ++ s ++ d = p' ++ s ++ d' ∧ d ++ c ++ p = d' ++ c ++ p' := by
  obtain ⟨a, b, i, j, m, -, hc, hs, rfl, rfl⟩ := h
  have h₁ := pow_conjugate a b i m
  have h₂ := pow_conjugate b a j m
  rw [← hc] at h₁
  rw [← hs] at h₂
  simp only [List.append_assoc] at h₁ h₂ ⊢
  rw [h₁, h₂]
  exact ⟨rfl, rfl⟩

/-- Halves that agree, where `p` is the longer one. -/
theorem crossed_of_longer {w : List α} (hc : c ≠ []) (hw : w ≠ [])
    (h₁ : p' ++ w ++ s ++ d = p' ++ s ++ d') (h₂ : d ++ c ++ (p' ++ w) = d' ++ c ++ p') :
    Crossed s c (p' ++ w) d p' d' := by
  have hlen := congrArg List.length h₂
  simp only [List.length_append] at hlen
  obtain ⟨u, rfl⟩ : ∃ u, d' = d ++ u := by
    rw [List.append_assoc, List.append_assoc] at h₂
    rcases List.append_eq_append_iff.mp h₂ with ⟨u, hu, -⟩ | ⟨u, rfl, -⟩
    · exact ⟨u, hu⟩
    · -- then `d` would be the longer one too
      rw [List.length_append] at hlen
      have := List.length_pos_iff.mpr hw
      omega
  have hx : u ++ (c ++ p') = c ++ p' ++ w := by
    simp only [List.append_assoc, List.append_cancel_left_eq] at h₂ ⊢
    exact h₂.symm
  have hy : w ++ (s ++ d) = s ++ d ++ u := by
    simp only [List.append_assoc, List.append_cancel_left_eq] at h₁ ⊢
    exact h₁
  have hu : u ≠ [] := fun h => hw <| by
    rw [h, List.nil_append] at hx
    exact List.append_right_eq_self.mp hx.symm
  obtain ⟨a, b, i, j, m, hm, rfl, rfl, hi, hj⟩ :=
    conjugate hx hy hu fun h => hc (List.append_eq_nil_iff.mp h).1
  exact ⟨a, b, i, j, m, hm, hi, hj, rfl, rfl⟩

/-- `p` before `d` in one half and `d` before `p` in the other, with `t` between
them. -/
theorem crossed_iff (hc : c ≠ []) :
    p ++ s ++ d ++ (t ++ (d ++ c ++ p)) = p' ++ s ++ d' ++ (t ++ (d' ++ c ++ p')) ↔
      (p = p' ∧ d = d') ∨ Crossed s c p d p' d' ∨ Crossed s c p' d' p d := by
  constructor
  · intro h
    have hlen := congrArg List.length h
    simp only [List.length_append] at hlen
    obtain ⟨h₁, h₂⟩ := List.append_inj h (by simp only [List.length_append]; omega)
    rw [List.append_cancel_left_eq] at h₂
    have h₃ := h₁
    rw [List.append_assoc, List.append_assoc] at h₃
    rcases List.append_eq_append_iff.mp h₃ with ⟨w, rfl, -⟩ | ⟨w, rfl, -⟩
    · by_cases hw : w = []
      · rw [hw, List.append_nil, List.append_cancel_left_eq] at h₁
        exact .inl ⟨by rw [hw, List.append_nil], h₁⟩
      · exact .inr (.inr (crossed_of_longer hc hw h₁.symm h₂.symm))
    · by_cases hw : w = []
      · rw [hw, List.append_nil, List.append_cancel_left_eq] at h₁
        exact .inl ⟨by rw [hw, List.append_nil], h₁⟩
      · exact .inr (.inl (crossed_of_longer hc hw h₁ h₂))
  · rintro (⟨rfl, rfl⟩ | h | h)
    · rfl
    · obtain ⟨h₁, h₂⟩ := h.halves_eq
      rw [h₁, h₂]
    · obtain ⟨h₁, h₂⟩ := h.halves_eq
      rw [h₁, h₂]

end

end Linkkit.Words
