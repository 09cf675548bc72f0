import Linkkit.Spec.Mutex

/-!
# One thread at a time

While pthread neither fails to lock nor to unlock, the threads that count on a mutex
are the ones that have locked it (`Inv`, `excluded_iff`); a call that fails is not
noticed, and leaves a thread with a mutex that it has not locked, or another locked
for ever (`step_breaks`).
-/

namespace Linkkit.Proof.Mutex

open Impl.Mutex Spec.Mutex

section

variable {mutexes mutexes' : Mutexes} {mutex : UInt64} {errNum : Int32}

theorem destroy_cases (h : halMutexDestroy mutex mutexes = some mutexes') :
    (mutex = 0 ∧ mutexes' = mutexes) ∨ mutexes' = mutexes.close mutex := by
  rw [halMutexDestroy] at h
  split at h
  · rename_i hz
    cases h
    exact .inl ⟨hz, rfl⟩
  obtain ⟨owner, -, h⟩ := Option.bind_eq_some_iff.mp h
  split at h
  · cases h
    exact .inr rfl
  · cases h

/-- Where pthread does not fail, the mutex had the one owner, and has the other. -/
theorem handOver_cases {owner owner' : Option UInt64} (h : handOver mutex errNum owner owner' mutexes = some mutexes') :
    (errNum ≠ 0 ∧ mutexes' = mutexes) ∨
      (errNum = 0 ∧ mutexes mutex = some (some owner) ∧ mutexes' = mutexes.connect mutex owner') := by
  rw [handOver] at h
  obtain ⟨now, hnow, h⟩ := Option.bind_eq_some_iff.mp h
  split at h
  · rename_i he
    cases h
    exact .inl ⟨he, rfl⟩
  rename_i he
  split at h
  · rename_i howner
    rw [howner] at hnow
    cases h
    exact .inr ⟨not_not.mp he, Option.join_eq_some_iff.mp hnow, rfl⟩
  · cases h

end

/-! ## Runs -/

section

variable {s s' : State} {c : Call} {o : Option UInt64} {self mutex : UInt64}

/-- What a run keeps. -/
structure Inv (s : State) : Prop where
  owned : ∀ mutex, s.mutexes.IsOpen mutex ↔ mutex ∈ s.held
  locks : ∀ self mutex, (self, mutex) ∈ s.locked ↔ s.mutexes mutex = some (some (some self))
  nodup : s.held.Nodup
  once : s.locked.Nodup
  null : 0 ∉ s.held

theorem Inv.excluded (h : Inv s) : Excluded s where
  owned := h.owned
  locks := h.locks
  alone self self' mutex hs hs' := by
    have he := ((h.locks self mutex).mp hs).symm.trans ((h.locks self' mutex).mp hs')
    exact Option.some.inj (Option.some.inj (Option.some.inj he))

theorem inv_noMutex : Inv noMutex where
  owned _ := iff_of_false Descriptors.not_isOpen_none List.not_mem_nil
  locks _ _ := iff_of_false List.not_mem_nil (Option.some_ne_none _).symm
  nodup := List.nodup_nil
  once := List.nodup_nil
  null := List.not_mem_nil

/-- A mutex that is held passes to another owner, or to none. -/
theorem Inv.connect (h : Inv s) {owner : Option UInt64} {locked : List (UInt64 × UInt64)} (hm : mutex ∈ s.held)
    (hself : ∀ t, (t, mutex) ∈ locked ↔ owner = some t)
    (hother : ∀ t, ∀ m ≠ mutex, (t, m) ∈ locked ↔ (t, m) ∈ s.locked) (hnodup : locked.Nodup) :
    Inv { s with mutexes := s.mutexes.connect mutex owner, locked } where
  owned m := by
    rw [Descriptors.isOpen_connect, h.owned]
    exact or_iff_right_of_imp fun he => he ▸ hm
  locks t m := by
    show (t, m) ∈ locked ↔ s.mutexes.connect mutex owner m = some (some (some t))
    by_cases he : m = mutex
    · subst he
      rw [hself, Descriptors.connect_self, Option.some_inj, Option.some_inj]
    · rw [hother t m he, h.locks, Descriptors.connect_of_ne he]
  nodup := h.nodup
  once := hnodup
  null := h.null

theorem Inv.create (h : Inv s) (hne : mutex ≠ 0) (hfree : ¬ s.mutexes.IsOpen mutex) :
    Inv { s with mutexes := s.mutexes.connect mutex none, held := mutex :: s.held } where
  owned m := by rw [Descriptors.isOpen_connect, h.owned, List.mem_cons]
  locks t m := by
    show (t, m) ∈ s.locked ↔ s.mutexes.connect mutex none m = some (some (some t))
    rw [h.locks]
    by_cases he : m = mutex
    · subst he
      have hnone : s.mutexes m = none := by simpa [Descriptors.IsOpen] using hfree
      rw [hnone, Descriptors.connect_self]
      exact iff_of_false (Option.some_ne_none _).symm fun hc => by cases hc
    · rw [Descriptors.connect_of_ne he]
  nodup := List.nodup_cons.mpr ⟨fun hm => hfree ((h.owned mutex).mpr hm), h.nodup⟩
  once := h.once
  null hm := (List.mem_cons.mp hm).elim (fun he => hne he.symm) h.null

theorem Inv.destroy (h : Inv s) (hl : mutex ∉ s.locked.map Prod.snd) :
    Inv { s with mutexes := s.mutexes.close mutex, held := s.held.erase mutex } where
  owned m := by rw [Descriptors.isOpen_close, h.owned, h.nodup.mem_erase_iff]
  locks t m := by
    show (t, m) ∈ s.locked ↔ s.mutexes.close mutex m = some (some (some t))
    by_cases he : m = mutex
    · subst he
      refine iff_of_false (fun hm => hl (List.mem_map_of_mem hm)) fun hc => ?_
      rw [Descriptors.close, Function.update_self] at hc
      cases hc
    · rw [h.locks, Descriptors.close_of_ne he]
  nodup := h.nodup.erase mutex
  once := h.once
  null hm := h.null (h.nodup.mem_erase_iff.mp hm).2

theorem Inv.step (h : Inv s) (hc : c.Succeeds) (hs : Spec.Mutex.step s c = some (s', o)) : Inv s' := by
  cases c with
  | create sys =>
    obtain ⟨⟨ret, mutexes⟩, hcreate, hs⟩ := Option.bind_eq_some_iff.mp hs
    cases hs
    rcases Descriptors.create_cases none hcreate with ⟨rfl, rfl⟩ | ⟨hne, hfree, rfl⟩
    · exact h
    · rw [if_neg hne]
      exact h.create hne hfree
  | destroy mutex =>
    rw [Spec.Mutex.step] at hs
    split at hs
    · rename_i hl
      obtain ⟨mutexes, hdestroy, hs⟩ := Option.bind_eq_some_iff.mp hs
      cases hs
      rcases destroy_cases hdestroy with ⟨rfl, rfl⟩ | rfl
      · rw [List.erase_of_not_mem h.null]
        exact h
      · exact h.destroy hl.2
    · cases hs
  | lock self mutex errNum =>
    rw [Spec.Mutex.step] at hs
    split at hs
    · rename_i hl
      obtain ⟨mutexes, hlock, hs⟩ := Option.bind_eq_some_iff.mp hs
      cases hs
      rcases handOver_cases hlock with ⟨he, -⟩ | ⟨-, hfree, rfl⟩
      · exact absurd hc he
      -- No thread has locked what is free.
      have hnone (t : UInt64) : (t, mutex) ∉ s.locked := fun hm => by
        have he := hfree.symm.trans ((h.locks t mutex).mp hm)
        cases he
      refine h.connect hl.1 (fun t => ?_) (fun t m hm => ?_) (List.nodup_cons.mpr ⟨hl.2, h.once⟩)
      · rw [List.mem_cons, or_iff_left (hnone t), Prod.mk.injEq, and_iff_left rfl, Option.some_inj]
        exact eq_comm
      · rw [List.mem_cons, or_iff_right fun he => hm (congrArg Prod.snd he)]
    · cases hs
  | unlock self mutex errNum =>
    rw [Spec.Mutex.step] at hs
    split at hs
    · rename_i hl
      obtain ⟨mutexes, hunlock, hs⟩ := Option.bind_eq_some_iff.mp hs
      cases hs
      rcases handOver_cases hunlock with ⟨he, -⟩ | ⟨-, howner, rfl⟩
      · exact absurd hc he
      have hheld : mutex ∈ s.held := (h.owned mutex).mp (by rw [Descriptors.IsOpen, howner]; rfl)
      refine h.connect hheld (fun t => ?_) (fun t m hm => ?_) (h.once.erase _)
      · refine iff_of_false (fun hm => ?_) (Option.some_ne_none t).symm
        obtain ⟨hne, hm⟩ := h.once.mem_erase_iff.mp hm
        exact hne (congrArg (·, mutex) (h.excluded.alone t self mutex hm hl))
      · rw [h.once.mem_erase_iff, and_iff_right fun he => hm (congrArg Prod.snd he)]
    · cases hs

/-- A thread counts on a lock that pthread has refused, or has not given up one. -/
theorem step_breaks (h : Inv s) (hc : ¬ c.Succeeds) (hs : Spec.Mutex.step s c = some (s', o)) : ¬ Excluded s' := by
  intro hex
  cases c with
  | create sys => exact hc trivial
  | destroy mutex => exact hc trivial
  | lock self mutex errNum =>
    rw [Spec.Mutex.step] at hs
    split at hs
    · rename_i hl
      obtain ⟨mutexes, hlock, hs⟩ := Option.bind_eq_some_iff.mp hs
      cases hs
      rcases handOver_cases hlock with ⟨-, rfl⟩ | ⟨he, -⟩
      · exact hl.2 ((h.locks self mutex).mpr ((hex.locks self mutex).mp List.mem_cons_self))
      · exact hc he
    · cases hs
  | unlock self mutex errNum =>
    rw [Spec.Mutex.step] at hs
    split at hs
    · rename_i hl
      obtain ⟨mutexes, hunlock, hs⟩ := Option.bind_eq_some_iff.mp hs
      cases hs
      rcases handOver_cases hunlock with ⟨-, rfl⟩ | ⟨he, -⟩
      · exact (h.once.mem_erase_iff.mp ((hex.locks self mutex).mpr ((h.locks self mutex).mp hl))).1 rfl
      · exact hc he
    · cases hs

/-- After every part of a run the mutexes are locked by the threads that count on it,
one at a time, exactly if pthread never failed to lock or to unlock. -/
theorem excluded_iff {calls : List Call} {hist : List (Call × Option UInt64)}
    (hr : run Spec.Mutex.step noMutex calls = some (s, hist)) :
    (∀ cs s' hist', cs <+: calls → run Spec.Mutex.step noMutex cs = some (s', hist') → Excluded s') ↔
      ∀ c ∈ calls, c.Succeeds := by
  have hexcluded (s : State) (_ : List (Call × Option UInt64)) (h : Inv s) : Excluded s := h.excluded
  rw [← along_inputs_iff hr]
  exact run_iff hexcluded (fun _ _ _ _ _ h hc hs => h.step hc hs)
    (fun _ _ _ _ _ h hc hs => step_breaks h hc hs) inv_noMutex hr

end

/-- The thread 2 has to wait for the thread 1, and destroys the mutex. -/
def handedOver : List Call :=
  [.create ⟨0x10, -1⟩, .create ⟨0x10, 0⟩, .lock 1 0x10 0, .unlock 1 0x10 0, .lock 2 0x10 0, .unlock 2 0x10 0,
    .destroy 0x10, .destroy 0]

theorem excluded_iff_handedOver : ∃ s hist, run step noMutex handedOver = some (s, hist) ∧
    ((∀ cs s' hist', cs <+: handedOver → run step noMutex cs = some (s', hist') → Excluded s') ↔
      ∀ c ∈ handedOver, c.Succeeds) := by
  have hr : run step noMutex handedOver = some (_, _) := rfl
  exact ⟨_, _, hr, excluded_iff hr⟩

end Linkkit.Proof.Mutex
