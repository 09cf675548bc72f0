import Mathlib.Data.List.Basic

/-!
# Loops over a script

A loop whose turns depend on answers from outside, such as those of system
calls, is run on the list of the answers: `loop body turns s` makes the turns
until one ends the loop or the list ends, and says which. `loop_inv` gives
what holds while it runs and what holds once it has ended. `steps` are the turns
that are made, each with the state before it; the last of them ends a loop that
ends (`loop_last`). A loop over a list that it goes through to its end is
`List.foldlM`; `foldlM_prefix` is its invariant, about the elements done so far.
-/

namespace Linkkit

variable {σ τ : Type*}

/-- The turns of a loop, `body` saying whether it goes on: whether one of them
ended it, and the state after the last one. -/
def loop (body : τ → σ → Bool × σ) : List τ → σ → Bool × σ
  | [], s => (false, s)
  | t :: ts, s =>
    match body t s with
    | (true, s') => loop body ts s'
    | (false, s') => (true, s')

/-- The turns that a loop makes, each with the state it is made in. -/
def steps (body : τ → σ → Bool × σ) : List τ → σ → List (τ × σ)
  | [], _ => []
  | t :: ts, s =>
    (t, s) :: match body t s with
      | (true, s') => steps body ts s'
      | (false, _) => []

variable {body : τ → σ → Bool × σ}

@[simp] theorem loop_nil (s : σ) : loop body [] s = (false, s) := rfl

theorem loop_cons (t : τ) (ts : List τ) (s : σ) : loop body (t :: ts) s =
    if (body t s).1 then loop body ts (body t s).2 else (true, (body t s).2) := by
  rw [loop]
  split
  · rename_i s' h
    rw [h]; rfl
  · rename_i s' h
    rw [h]; rfl

/-- A turn that goes on keeps `Inv`, one that ends the loop gives `Done`. -/
theorem loop_inv {Inv Done : σ → Prop} (hgo : ∀ t s, Inv s → (body t s).1 = true → Inv (body t s).2)
    (hend : ∀ t s, Inv s → (body t s).1 = false → Done (body t s).2) (ts : List τ) {s : σ} (h : Inv s) :
    if (loop body ts s).1 then Done (loop body ts s).2 else Inv (loop body ts s).2 := by
  induction ts generalizing s with
  | nil => exact h
  | cons t ts ih =>
    rw [loop_cons]
    by_cases hb : (body t s).1 = true
    · rw [if_pos hb]
      exact ih (hgo t s h hb)
    · rw [if_neg hb]
      exact hend t s h (Bool.eq_false_iff.mpr hb)

/-- A turn that ends the loop from any state. -/
theorem loop_ends {t : τ} {ts : List τ} (ht : t ∈ ts) (h : ∀ s, (body t s).1 = false) (s : σ) :
    (loop body ts s).1 = true := by
  induction ts generalizing s with
  | nil => cases ht
  | cons u ts ih =>
    rw [loop_cons]
    by_cases hb : (body u s).1 = true
    · rw [if_pos hb]
      rcases List.mem_cons.mp ht with rfl | ht
      · rw [h s] at hb
        cases hb
      · exact ih ht _
    · rw [if_neg hb]

/-- What every turn keeps holds after the loop. -/
theorem loop_keeps {Inv : σ → Prop} (hbody : ∀ t s, Inv s → Inv (body t s).2) (ts : List τ) {s : σ}
    (h : Inv s) : Inv (loop body ts s).2 := by
  have hinv := loop_inv (fun t s h _ => hbody t s h) (fun t s h _ => hbody t s h) ts h
  rwa [ite_self] at hinv

/-! ## The turns made -/

theorem steps_cons (t : τ) (ts : List τ) (s : σ) : steps body (t :: ts) s =
    (t, s) :: if (body t s).1 then steps body ts (body t s).2 else [] := by
  rw [steps]
  split
  · rename_i s' h
    rw [h]; rfl
  · rename_i s' h
    rw [h]; rfl

theorem fst_mem_of_mem_steps {ts : List τ} {s : σ} {p : τ × σ} (hp : p ∈ steps body ts s) : p.1 ∈ ts := by
  induction ts generalizing s with
  | nil => cases hp
  | cons t ts ih =>
    rw [steps_cons] at hp
    rcases List.mem_cons.mp hp with rfl | hp
    · exact List.mem_cons_self
    · split at hp
      · exact List.mem_cons_of_mem _ (ih hp)
      · cases hp

/-- What a turn that goes on keeps holds before every turn. -/
theorem steps_keeps (Inv : σ → Prop) {ts : List τ}
    (hgo : ∀ t ∈ ts, ∀ s, Inv s → (body t s).1 = true → Inv (body t s).2) {s : σ} (h : Inv s) :
    ∀ p ∈ steps body ts s, Inv p.2 := by
  induction ts generalizing s with
  | nil => exact fun p hp => absurd hp List.not_mem_nil
  | cons t ts ih =>
    obtain ⟨ht, hgo⟩ := List.forall_mem_cons.mp hgo
    rw [steps_cons, List.forall_mem_cons]
    refine ⟨h, fun p hp => ?_⟩
    split at hp
    · rename_i hb
      exact ih hgo (ht s h hb) p hp
    · cases hp

/-- What every turn adds to a list. -/
theorem loop_appends {α : Type*} (acc : σ → List α) {new : τ × σ → List α}
    (hbody : ∀ t s, acc (body t s).2 = acc s ++ new (t, s)) (ts : List τ) (s : σ) :
    acc (loop body ts s).2 = acc s ++ (steps body ts s).flatMap new := by
  induction ts generalizing s with
  | nil => exact (List.append_nil _).symm
  | cons t ts ih =>
    rw [loop_cons, steps_cons, List.flatMap_cons, ← List.append_assoc, ← hbody]
    split
    · exact ih _
    · exact (List.append_nil _).symm

/-- A loop that ends makes a last turn, which ends it; the others go on. -/
theorem loop_last {ts : List τ} {s : σ} (h : (loop body ts s).1 = true) :
    ∃ pre t s', steps body ts s = pre ++ [(t, s')] ∧ body t s' = (false, (loop body ts s).2) ∧
      ∀ p ∈ pre, (body p.1 p.2).1 = true := by
  induction ts generalizing s with
  | nil => cases h
  | cons t ts ih =>
    rw [loop_cons] at h ⊢
    rw [steps_cons]
    by_cases hb : (body t s).1 = true
    · rw [if_pos hb] at h ⊢
      rw [if_pos hb]
      obtain ⟨pre, u, s', hs, hl, hgo⟩ := ih h
      exact ⟨(t, s) :: pre, u, s', by rw [hs]; rfl, hl, List.forall_mem_cons.mpr ⟨hb, hgo⟩⟩
    · rw [if_neg hb, if_neg hb]
      exact ⟨[], t, s, rfl, Prod.ext (Bool.eq_false_iff.mpr hb) rfl, fun p hp => absurd hp List.not_mem_nil⟩

/-! ## Through a list -/

/-- A loop that has a value in each turn, from the invariant after the elements
`p` to that after `p` and one more. -/
theorem foldlM_prefix {f : σ → τ → Option σ} {P : List τ → σ → Prop} {l : List τ}
    (hf : ∀ p, ∀ a ∈ l, ∀ s, P p s → ∃ s', f s a = some s' ∧ P (p ++ [a]) s') {p : List τ} {s : σ}
    (h : P p s) : ∃ s', l.foldlM f s = some s' ∧ P (p ++ l) s' := by
  induction l generalizing p s with
  | nil => exact ⟨s, rfl, by rwa [List.append_nil]⟩
  | cons a l ih =>
    obtain ⟨s₁, hs₁, h₁⟩ := hf p a List.mem_cons_self s h
    obtain ⟨s₂, hs₂, h₂⟩ := ih (fun p b hb => hf p b (List.mem_cons_of_mem a hb)) h₁
    refine ⟨s₂, ?_, by rwa [List.append_assoc] at h₂⟩
    rw [List.foldlM_cons, hs₁]
    exact hs₂

end Linkkit
