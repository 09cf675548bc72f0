import Linkkit.Proof.Wait
import Linkkit.Spec.Semaphore

/-!
# No post is lost

A timed wait returns 0 exactly if it takes a post (`ret_eq_zero_iff`); one for ever
returns 0 always. So every post is still there or was taken by a wait that returned
0, over a whole run, exactly if no wait for ever is interrupted and no post meets a
full semaphore (`conserved_iff`).
-/

namespace Linkkit.Proof.Semaphore

open Impl.Semaphore Impl.Wait Spec.Semaphore

section

variable {platformWaitInfinite timeoutMs : UInt32} {semWait ret : Int32} {turns : List SemTurn}

/-- The last turn of the loop decides, and the others are interrupted. -/
theorem ret_eq_zero_iff (hne : platformWaitInfinite ≠ timeoutMs)
    (h : (halSemaphoreWait platformWaitInfinite timeoutMs turns).1 = some ret) :
    ret = 0 ↔ takes platformWaitInfinite timeoutMs semWait turns = true := by
  rw [halSemaphoreWait, if_neg hne] at h
  rw [takes, if_neg hne]
  split at h
  · cases h
  rename_i st hl
  cases h
  obtain ⟨pre, t, s', hsteps, hlast, hgo⟩ := @loop_last _ _ (semTurn timeoutMs) _ _ (congrArg Prod.fst hl)
  rw [hl] at hlast
  have hpre : ∀ p ∈ pre, ¬ (p.1.now.isSome = true ∧ p.1.timedwait.val = 0) := by
    rintro p hp ⟨hnow, hval⟩
    have hb := hgo p hp
    obtain ⟨ts, hts⟩ := Option.isSome_iff_exists.mp hnow
    simp only [semTurn, hts, hval] at hb
    simp at hb
  rw [hsteps, List.any_append, List.any_eq_false.mpr fun p hp => by simpa using hpre p hp, Bool.false_or]
  simp only [List.any_cons, List.any_nil, Bool.or_false, decide_eq_true_eq]
  have hret : st.ret = if t.now.isSome = true ∧ t.timedwait.val = 0 then 0 else -1 := by
    rw [← show (semTurn timeoutMs t s').2 = st from congrArg Prod.snd hlast, semTurn]
    cases t.now <;> simp
  rw [hret]
  split
  · rename_i ht
    exact iff_of_true rfl ht
  · rename_i ht
    exact iff_of_false (by decide) ht

end

/-! ## Runs -/

section

variable {platformWaitInfinite : UInt32} {s s' : State} {hist : List (Call × Reply)} {c : Call} {r : Reply}
  {e : Call × Reply} {sem sem' : UInt64} {value : Nat}

theorem tally_append_singleton (sem : UInt64) (hist : List (Call × Reply)) (e : Call × Reply) :
    tally sem (hist ++ [e]) = count sem (tally sem hist) e := by
  rw [tally, tally, List.foldl_append]
  rfl

/-- What a run keeps. -/
structure Inv (s : State) (hist : List (Call × Reply)) : Prop where
  conserved : Conserved s hist
  nodup : s.held.Nodup
  null : 0 ∉ s.held

theorem inv_noSems : Inv noSems [] where
  conserved := ⟨fun sem => by simp [noSems], fun sem hm => absurd hm List.not_mem_nil⟩
  nodup := List.nodup_nil
  null := List.not_mem_nil

/-- An event that changes nothing, and counts for no semaphore that is held. -/
theorem Inv.same (h : Inv s hist) (hc : ∀ sem ∈ s.held, ∀ n, count sem n e = n) : Inv s (hist ++ [e]) := by
  refine ⟨⟨h.conserved.1, fun sem hm => ?_⟩, h.nodup, h.null⟩
  rw [tally_append_singleton, hc sem hm]
  exact h.conserved.2 sem hm

/-- An event that sets the value of a semaphore, and counts for no other. -/
theorem Inv.set (h : Inv s hist) (hm : sem ∈ s.held) (hself : count sem (tally sem hist) e = value)
    (hother : ∀ sem' ≠ sem, ∀ n, count sem' n e = n) : Inv ⟨s.sems.connect sem value, s.held⟩ (hist ++ [e]) := by
  refine ⟨⟨fun sem' => ?_, fun sem' hm' => ?_⟩, h.nodup, h.null⟩
  · rw [Descriptors.isOpen_connect, h.conserved.1]
    exact or_iff_right_of_imp fun he => he ▸ hm
  · by_cases he : sem' = sem
    · rw [he, tally_append_singleton, hself]
      exact ⟨value, Descriptors.connect_self, rfl⟩
    · obtain ⟨v, hv, ht⟩ := h.conserved.2 sem' hm'
      rw [tally_append_singleton, hother sem' he]
      exact ⟨v, (Descriptors.connect_of_ne he).trans hv, ht⟩

theorem Inv.create (h : Inv s hist) {sys : CreateSys} (hne : sem ≠ 0) (hfree : ¬ s.sems.IsOpen sem) :
    Inv ⟨s.sems.connect sem 0, sem :: s.held⟩ (hist ++ [(.create sys, .handle sem)]) := by
  have hnew : sem ∉ s.held := fun hm => hfree ((h.conserved.1 sem).mpr hm)
  refine ⟨⟨fun sem' => ?_, List.forall_mem_cons.mpr ⟨?_, fun sem' hm => ?_⟩⟩, List.nodup_cons.mpr ⟨hnew, h.nodup⟩, ?_⟩
  · rw [Descriptors.isOpen_connect, h.conserved.1, List.mem_cons]
  · rw [tally_append_singleton, count, if_pos rfl]
    exact ⟨0, Descriptors.connect_self, rfl⟩
  · have he : sem' ≠ sem := fun he => hnew (he ▸ hm)
    obtain ⟨v, hv, ht⟩ := h.conserved.2 sem' hm
    rw [tally_append_singleton, count, if_neg he.symm]
    exact ⟨v, (Descriptors.connect_of_ne he).trans hv, ht⟩
  · exact fun hm => (List.mem_cons.mp hm).elim (fun he => hne he.symm) h.null

theorem Inv.destroy (h : Inv s hist) (sem : UInt64) :
    Inv ⟨s.sems.close sem, s.held.erase sem⟩ (hist ++ [(.destroy sem, .none)]) := by
  have hmem {sem'} : sem' ∈ s.held.erase sem ↔ sem' ≠ sem ∧ sem' ∈ s.held := h.nodup.mem_erase_iff
  refine ⟨⟨fun sem' => ?_, fun sem' hm => ?_⟩, h.nodup.erase sem, fun h₀ => h.null (hmem.mp h₀).2⟩
  · rw [Descriptors.isOpen_close, h.conserved.1, hmem]
  · obtain ⟨hne, hm⟩ := hmem.mp hm
    obtain ⟨v, hv, ht⟩ := h.conserved.2 sem' hm
    rw [tally_append_singleton]
    exact ⟨v, (Descriptors.close_of_ne hne).trans hv, ht⟩

/-- What a post does to the value. -/
theorem post_cases (hv : s.sems sem = some (some value)) (h : step platformWaitInfinite s (.post sem) = some (s', r)) :
    sem ∈ s.held ∧ r = .none ∧ s' = ⟨s.sems.connect sem (semPost value).2, s.held⟩ := by
  rw [step] at h
  split at h
  · rename_i hm
    rw [halSemaphorePost, hv] at h
    cases h
    exact ⟨hm, rfl, rfl⟩
  · cases h

theorem destroy_cases (h : step platformWaitInfinite s (.destroy sem) = some (s', r)) :
    r = .none ∧ s' = ⟨s.sems.close sem, s.held.erase sem⟩ := by
  rw [step] at h
  split at h
  · obtain ⟨sems, hd, h⟩ := Option.bind_eq_some_iff.mp h
    obtain ⟨v, -, hd⟩ := Option.bind_eq_some_iff.mp hd
    cases hd
    cases h
    exact ⟨rfl, rfl⟩
  · cases h

/-- A wait has a value to take if it takes one. -/
theorem wait_cases {timeoutMs : UInt32} {semWait : Int32} {turns : List SemTurn} (hv : s.sems sem = some (some value))
    (h : step platformWaitInfinite s (.wait sem timeoutMs semWait turns) = some (s', r)) : sem ∈ s.held ∧
      ∃ ret, (halSemaphoreWait platformWaitInfinite timeoutMs turns).1 = some ret ∧ r = .ret ret ∧
        if takes platformWaitInfinite timeoutMs semWait turns = true then
          ∃ v, value = v + 1 ∧ s' = ⟨s.sems.connect sem v, s.held⟩
        else s' = s := by
  rw [step] at h
  split at h
  · rename_i hm
    obtain ⟨ret, hret, h⟩ := Option.bind_eq_some_iff.mp h
    refine ⟨hm, ret, hret, ?_⟩
    split at h
    · rename_i ht
      rw [hv] at h
      cases value with
      | zero => cases h
      | succ v =>
        cases h
        exact ⟨rfl, by rw [if_pos ht]; exact ⟨v, rfl, rfl⟩⟩
    · rename_i ht
      cases h
      exact ⟨rfl, by rw [if_neg ht]⟩
  · cases h

theorem mem_held_of_step (hc : c = .post sem ∨ ∃ timeoutMs semWait turns, c = .wait sem timeoutMs semWait turns)
    (h : step platformWaitInfinite s c = some (s', r)) : sem ∈ s.held := by
  by_contra hm
  rcases hc with rfl | ⟨timeoutMs, semWait, turns, rfl⟩ <;> rw [step, if_neg hm] at h <;> cases h

theorem Inv.step (h : Inv s hist) (hc : Undisturbed platformWaitInfinite s c)
    (hs : Spec.Semaphore.step platformWaitInfinite s c = some (s', r)) : Inv s' (hist ++ [(c, r)]) := by
  cases c with
  | create sys =>
    obtain ⟨⟨ret, sems⟩, hcreate, hs⟩ := Option.bind_eq_some_iff.mp hs
    cases hs
    rcases Descriptors.create_cases 0 hcreate with ⟨rfl, rfl⟩ | ⟨hne, hfree, rfl⟩
    · rw [if_pos rfl]
      exact h.same fun sem hm n => if_neg (show (0 : UInt64) ≠ sem from fun he => h.null (he ▸ hm))
    · rw [if_neg hne]
      exact h.create hne hfree
  | post sem =>
    have hm := mem_held_of_step (.inl rfl) hs
    obtain ⟨v, hv, ht⟩ := h.conserved.2 sem hm
    obtain ⟨-, rfl, rfl⟩ := post_cases hv hs
    have hroom : v ≠ semValueMax := fun he => hc (he ▸ hv)
    rw [semPost, if_neg hroom]
    refine h.set hm ?_ fun sem' hne n => if_neg hne.symm
    rw [← ht]
    exact if_pos rfl
  | wait sem timeoutMs semWait turns =>
    have hm := mem_held_of_step (.inr ⟨_, _, _, rfl⟩) hs
    obtain ⟨v, hv, ht⟩ := h.conserved.2 sem hm
    obtain ⟨-, ret, hret, rfl, hcase⟩ := wait_cases hv hs
    -- It returns 0 exactly if it takes a post.
    have hzero : ret = 0 ↔ takes platformWaitInfinite timeoutMs semWait turns = true := by
      by_cases hi : platformWaitInfinite = timeoutMs
      · rw [halSemaphoreWait, if_pos hi] at hret
        cases hret
        rw [takes, if_pos hi, hc hi]
        decide
      · exact ret_eq_zero_iff hi hret
    split at hcase
    · rename_i htakes
      obtain ⟨v, rfl, rfl⟩ := hcase
      refine h.set hm ?_ fun sem' hne n => if_neg fun hc => hne hc.1.symm
      rw [← ht]
      exact (if_pos ⟨rfl, hzero.mpr htakes⟩).trans (by push_cast; omega)
    · rename_i htakes
      rw [hcase]
      exact h.same fun sem' _ n => if_neg fun hc => htakes (hzero.mp hc.2)
  | destroy sem =>
    obtain ⟨rfl, rfl⟩ := destroy_cases hs
    exact h.destroy sem

/-- A post that meets a full semaphore is lost, and an interrupted wait for ever
makes one up. -/
theorem step_breaks (h : Inv s hist) (hc : ¬ Undisturbed platformWaitInfinite s c)
    (hs : Spec.Semaphore.step platformWaitInfinite s c = some (s', r)) : ¬ Conserved s' (hist ++ [(c, r)]) := by
  cases c with
  | create sys => exact absurd trivial hc
  | post sem =>
    have hfull : s.sems sem = some (some semValueMax) := Classical.byContradiction hc
    obtain ⟨hm, rfl, rfl⟩ := post_cases hfull hs
    obtain ⟨v, hv, ht⟩ := h.conserved.2 sem hm
    rw [hfull] at hv
    cases hv
    intro hcon
    obtain ⟨v', hv', ht'⟩ := hcon.2 sem hm
    rw [semPost, if_pos rfl] at hv'
    obtain rfl : semValueMax = v' := Option.some.inj (Option.some.inj (Descriptors.connect_self.symm.trans hv'))
    have hcount : count sem (tally sem hist) (.post sem, .none) = tally sem hist + 1 := if_pos rfl
    rw [tally_append_singleton, hcount] at ht'
    omega
  | wait sem timeoutMs semWait turns =>
    obtain ⟨hi, hw⟩ := Classical.not_imp.mp hc
    have hm := mem_held_of_step (.inr ⟨_, _, _, rfl⟩) hs
    obtain ⟨v, hv, ht⟩ := h.conserved.2 sem hm
    obtain ⟨-, ret, hret, rfl, hcase⟩ := wait_cases hv hs
    rw [halSemaphoreWait, if_pos hi] at hret
    cases hret
    rw [takes, if_pos hi, if_neg (by simpa using hw)] at hcase
    intro hcon
    rw [hcase] at hcon
    obtain ⟨v', hv', ht'⟩ := hcon.2 sem hm
    obtain rfl : v = v' := Option.some.inj (Option.some.inj (hv.symm.trans hv'))
    have hcount : count sem (tally sem hist) (.wait sem timeoutMs semWait turns, .ret 0) = tally sem hist - 1 :=
      if_pos ⟨rfl, rfl⟩
    rw [tally_append_singleton, hcount] at ht'
    omega
  | destroy sem => exact absurd trivial hc

/-- After every part of a run no semaphore has lost a post or made one up, exactly
if no wait for ever is interrupted and every post finds room. -/
theorem conserved_iff {calls : List Call}
    (hr : run (Spec.Semaphore.step platformWaitInfinite) noSems calls = some (s, hist)) :
    (∀ cs s' hist', cs <+: calls → run (Spec.Semaphore.step platformWaitInfinite) noSems cs = some (s', hist') →
        Conserved s' hist') ↔
      Along (Spec.Semaphore.step platformWaitInfinite) (Undisturbed platformWaitInfinite) noSems calls :=
  run_iff (fun _ _ h => h.conserved) (fun _ _ _ _ _ h hc hs => Inv.step h hc hs)
    (fun _ _ _ _ _ h hc hs => step_breaks h hc hs) inv_noSems hr

end

/-- A wait for ever is interrupted, and returns as if it had taken the post that
another wait takes after it. -/
theorem conserved_iff_interrupted :
    let calls : List Call := [.create ⟨0x10, 0⟩, .wait 0x10 (-1) (-1) [], .post 0x10,
      .wait 0x10 500 0 [⟨some ⟨1, 0⟩, ⟨0, 0⟩⟩]]
    ∃ s hist, run (step (-1)) noSems calls = some (s, hist) ∧
      ((∀ cs s' hist', cs <+: calls → run (step (-1)) noSems cs = some (s', hist') → Conserved s' hist') ↔
        Along (step (-1)) (Undisturbed (-1)) noSems calls) := by
  intro calls
  have hr : run (step (-1)) noSems calls = some (_, _) := rfl
  exact ⟨_, _, hr, conserved_iff hr⟩

end Linkkit.Proof.Semaphore
