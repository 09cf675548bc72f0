import Linkkit.Spec.Thread

/-!
# Which threads the system keeps

What each call does to a thread is said once (`create_cases`, `delete_cases`,
`exit_self`, `exit_of_ne`). In `Vendors/ubuntu` every thread is detached and in
`Vendors/Jabsco` none is (`Inv`), so that in every run the first keeps the threads
that run, and the second those that were not deleted; the first must not delete any
(`threads_kept`).
-/

namespace Linkkit.Proof.Thread

open Impl.Thread Spec.Thread
open Spec.Wait (Port)

/-- The thread runs. -/
def Alive (threads : Threads) (id : UInt64) : Prop := threads id = some none ∨ threads id = some (some .detached)

section

variable {threads threads' : Threads} {id id' : UInt64}

theorem exit_of_ne (h : id' ≠ id) : pthreadExit id threads id' = threads id' := by
  unfold pthreadExit
  rcases threads id with _ | _ | _ | _
  · rfl
  · exact Descriptors.connect_of_ne h
  · exact Descriptors.close_of_ne h
  · rfl

/-- A thread that ends: kept if it is joinable. -/
theorem exit_self : pthreadExit id threads id = match threads id with
    | some none => some (some .ended)
    | some (some .detached) => none
    | v => v := by
  unfold pthreadExit
  rcases hv : threads id with _ | _ | _ | _
  · exact hv
  · exact Descriptors.connect_self
  · exact Function.update_self ..
  · exact hv

theorem alive_exit : Alive (pthreadExit id threads) id' ↔ id' ≠ id ∧ Alive threads id' := by
  by_cases h : id' = id
  · subst h
    refine iff_of_false ?_ fun hn => hn.1 rfl
    rw [Alive, exit_self]
    rcases threads id' with _ | _ | _ | _ <;> simp
  · rw [Alive, exit_of_ne h, and_iff_right h, Alive]

/-- Joining takes a joinable thread away. -/
theorem join_cases (h : pthreadJoin id threads = some threads') :
    threads.IsOpen id ∧ threads id ≠ some (some .detached) ∧ threads' = threads.close id := by
  unfold pthreadJoin at h
  split at h
  · rename_i hv
    cases h
    exact ⟨by rw [Descriptors.IsOpen, hv]; rfl, by rw [hv]; simp, rfl⟩
  · rename_i hv
    cases h
    exact ⟨by rw [Descriptors.IsOpen, hv]; rfl, by rw [hv]; simp, rfl⟩
  · cases h

theorem alive_close : Alive (threads.close id) id' ↔ id' ≠ id ∧ Alive threads id' := by
  by_cases h : id' = id
  · subst h
    refine iff_of_false ?_ fun hn => hn.1 rfl
    simp [Alive, Descriptors.close]
  · rw [Alive, Descriptors.close_of_ne h, and_iff_right h, Alive]

/-- How a wrapper leaves a thread that it has created. -/
def created : Port → Option Mark
  | .ubuntu => some .detached
  | .jabsco => none

/-- A creation fails, or there is one thread more. -/
theorem create_cases {port : Port} {pthreadCreate ret : Int32}
    (h : threadCreate port pthreadCreate id threads = some (ret, threads')) :
    (pthreadCreate ≠ 0 ∧ ret ≠ 0 ∧ threads' = threads) ∨
      pthreadCreate = 0 ∧ ret = 0 ∧ ¬ threads.IsOpen id ∧ threads' = Function.update threads id (some (created port)) := by
  have hne : ((-1 : Int32) ≠ 0) := by decide
  by_cases hz : pthreadCreate ≠ 0
  · cases port with
    | ubuntu =>
      rw [threadCreate, Ubuntu.halThreadCreate, if_pos hz] at h
      cases h
      exact .inl ⟨hz, hne, rfl⟩
    | jabsco =>
      rw [threadCreate, Jabsco.halThreadCreate, if_pos hz] at h
      cases h
      exact .inl ⟨hz, hz, rfl⟩
  · refine .inr ⟨not_not.mp hz, ?_⟩
    cases port with
    | ubuntu =>
      rw [threadCreate, Ubuntu.halThreadCreate, if_neg hz] at h
      obtain ⟨opened, ho, h⟩ := Option.bind_eq_some_iff.mp h
      obtain ⟨hfree, rfl⟩ := Descriptors.opens_eq_some.mp ho
      cases h
      refine ⟨rfl, hfree, ?_⟩
      unfold pthreadDetach
      rw [Function.update_self]
      exact Function.update_idem ..
    | jabsco =>
      rw [threadCreate, Jabsco.halThreadCreate, if_neg hz] at h
      obtain ⟨opened, ho, h⟩ := Option.bind_eq_some_iff.mp h
      obtain ⟨hfree, rfl⟩ := Descriptors.opens_eq_some.mp ho
      cases h
      exact ⟨not_not.mp hz, hfree, rfl⟩

end

/-! ## Runs -/

section

variable {port : Port} {w w' : World} {hist : List (Call × Option Int32)} {c : Call} {o : Option Int32} {n : UInt64}

/-- The threads of a run. -/
structure Inv (port : Port) (w : World) (hist : List (Call × Option Int32)) : Prop where
  runs : ∀ n, Alive w.threads n ↔ Runs hist n
  mark : ∀ n v, w.threads n = some v → (v = some .detached ↔ port = .ubuntu)
  holds : port = .jabsco → Descriptors.Holds id id w.threads w.held
  null : 0 ∉ w.held

theorem inv_noThread : Inv port noThread [] where
  runs n := iff_of_false (by simp [Alive, noThread, Descriptors.none]) not_since_nil
  mark n v h := by cases h
  holds _ := Descriptors.Holds.none
  null := List.not_mem_nil

/-- An event in which no thread starts; those of `ended` end. -/
theorem runs_append {e : Call × Option Int32} (hn : ¬ Creates n e) :
    Runs (hist ++ [e]) n ↔ ¬ Ends n e ∧ Runs hist n := by
  rw [Runs, since_append_singleton, or_iff_right hn, and_comm]
  rfl

theorem Inv.create (h : Inv port w hist) {pthreadCreate ret : Int32} {threads : Threads} (hn : n ≠ 0)
    (hs : threadCreate port pthreadCreate n w.threads = some (ret, threads)) :
    Inv port ⟨threads, if ret = 0 then n :: w.held else w.held⟩ (hist ++ [(.create pthreadCreate n, some ret)]) := by
  rcases create_cases hs with ⟨-, hret, rfl⟩ | ⟨rfl, rfl, hfree, rfl⟩
  · rw [if_neg hret]
    refine ⟨fun m => ?_, h.mark, h.holds, h.null⟩
    have hc : ¬ Creates m (.create pthreadCreate n, some ret) := fun hc => hret (by cases hc; rfl)
    rw [runs_append hc, and_iff_right (show ¬ Ends m _ from id)]
    exact h.runs m
  · rw [if_pos rfl]
    have hself : Function.update w.threads n (some (created port)) n = some (created port) := Function.update_self ..
    have hother {m : UInt64} (hne : m ≠ n) : Function.update w.threads n (some (created port)) m = w.threads m :=
      Function.update_of_ne hne ..
    refine ⟨fun m => ?_, fun m v hv => ?_, fun hport => ?_, List.not_mem_cons_of_ne_of_not_mem (Ne.symm hn) h.null⟩
    · rw [Runs, since_append_singleton]
      show Alive (Function.update _ _ _) m ↔ _
      by_cases he : m = n
      · subst he
        refine iff_of_true ?_ (.inl rfl)
        rw [Alive, hself]
        cases port
        · exact .inr rfl
        · exact .inl rfl
      · rw [Alive, hother he, or_iff_right (show ¬ Creates m _ from fun hc => he (by cases hc; rfl)),
          and_iff_left (show ¬ Ends m _ from id)]
        exact h.runs m
    · dsimp only at hv
      by_cases he : m = n
      · rw [he, hself] at hv
        cases hv
        cases port <;> simp [created]
      · rw [hother he] at hv
        exact h.mark m v hv
    · subst hport
      refine (h.holds rfl).cons rfl hfree fun m => ?_
      show (Function.update w.threads n (some (created .jabsco)) m).isSome = true ↔ _
      by_cases he : m = n
      · rw [he, hself]
        exact iff_of_true rfl (.inl rfl)
      · rw [hother he, or_iff_right he]
        rfl

/-- A thread ends. -/
theorem Inv.exit (h : Inv port w hist) {e : Call × Option Int32} (hc : ∀ m, ¬ Creates m e)
    (he : ∀ m, Ends m e ↔ n = m) : Inv port ⟨pthreadExit n w.threads, w.held⟩ (hist ++ [e]) := by
  refine ⟨fun m => ?_, fun m v hv => ?_, fun hport => (h.holds hport).congr fun m => ?_, h.null⟩
  · rw [runs_append (hc m), he, ← h.runs, eq_comm]
    exact alive_exit
  · dsimp only at hv
    by_cases hm : m = n
    · subst hm
      rw [exit_self] at hv
      rcases hw : w.threads m with _ | _ | _ | _ <;> rw [hw] at hv <;> cases hv
      · rw [← h.mark m none hw]
        simp
      · exact h.mark m _ hw
    · rw [exit_of_ne hm] at hv
      exact h.mark m v hv
  · show (pthreadExit n w.threads m).isSome = true ↔ (w.threads m).isSome = true
    by_cases hm : m = n
    · subst hm
      rw [exit_self]
      rcases hw : w.threads m with _ | _ | _ | _
      · rfl
      · rfl
      · have := (h.mark m _ hw).mp rfl
        rw [hport] at this
        cases this
      · rfl
    · rw [exit_of_ne hm]

theorem Inv.delete (h : Inv port w hist) {self threadHandle : UInt64} {threads : Threads} (hne : threadHandle ≠ 0)
    (hm : threadHandle ∈ w.held) (hj : pthreadJoin threadHandle w.threads = some threads) :
    Inv port ⟨threads, w.held.erase threadHandle⟩ (hist ++ [(.delete self threadHandle, none)]) := by
  obtain ⟨-, -, rfl⟩ := join_cases hj
  refine ⟨fun m => ?_, fun m v hv => ?_, fun hport => (h.holds hport).erase hm, fun hz => h.null (List.mem_of_mem_erase hz)⟩
  · have hc : ¬ Creates m (.delete self threadHandle, none) := fun hc => by cases hc
    rw [runs_append hc, Ends, if_neg hne, ← h.runs, eq_comm]
    exact alive_close
  · dsimp only at hv
    by_cases he : m = threadHandle
    · rw [he, Descriptors.close, Function.update_self] at hv
      cases hv
    · rw [Descriptors.close_of_ne he] at hv
      exact h.mark m v hv

theorem Inv.step (h : Inv port w hist) (hs : step port w c = some (w', o)) : Inv port w' (hist ++ [(c, o)]) := by
  cases c with
  | create pthreadCreate n =>
    rw [Spec.Thread.step] at hs
    split at hs
    · cases hs
    · rename_i hn
      obtain ⟨⟨ret, threads⟩, hc, hs⟩ := Option.map_eq_some_iff.mp hs
      cases hs
      exact h.create hn hc
  | delete self threadHandle =>
    rw [Spec.Thread.step] at hs
    split at hs
    · rename_i hm
      obtain ⟨threads, hd, hs⟩ := Option.map_eq_some_iff.mp hs
      cases hs
      unfold halThreadDelete at hd
      split at hd
      · rename_i hz
        cases hd
        subst hz
        rw [List.erase_of_not_mem h.null]
        exact h.exit (fun m hc => by cases hc) fun m => Iff.rfl
      split at hd
      · cases hd
      · rename_i hz _
        exact h.delete hz (hm.resolve_left hz) hd
    · cases hs
  | exit n =>
    cases hs
    exact h.exit (fun m hc => by cases hc) fun m => Iff.rfl

variable {calls : List Call}

theorem run_keeps_inv (hr : run (Spec.Thread.step port) noThread calls = some (w, hist)) : Inv port w hist :=
  run_keeps (Inv port) (fun _ _ _ _ _ h hs => h.step hs) inv_noThread hr

/-- The system keeps the threads that run, in `Vendors/ubuntu`, or, in
`Vendors/Jabsco`, all that were not deleted. -/
theorem Inv.kept (h : Inv port w hist) : Kept port w hist := by
  intro n
  cases port with
  | ubuntu =>
    rw [← h.runs, Descriptors.IsOpen, Alive]
    cases hv : w.threads n with
    | none => simp
    | some v => simp [(h.mark n v hv).mpr rfl]
  | jabsco =>
    rw [(h.holds rfl).isOpen]
    simp

theorem create_isSome {pthreadCreate : Int32} (hfree : ¬ w.threads.IsOpen n) :
    (threadCreate port pthreadCreate n w.threads).isSome = true := by
  obtain ⟨threads, ho⟩ := Descriptors.opens_of_closed hfree
  cases port with
  | ubuntu =>
    rw [threadCreate, Ubuntu.halThreadCreate, ho]
    split <;> rfl
  | jabsco =>
    rw [threadCreate, Jabsco.halThreadCreate, ho]
    split <;> rfl

/-- A legal event has a value exactly if it joins no thread that is detached. -/
theorem step_isSome_iff (h : Inv port w hist) (hl : Legal w c) :
    (Spec.Thread.step port w c).isSome = true ↔ c.Joins port := by
  cases c with
  | create pthreadCreate n =>
    rw [Spec.Thread.step, if_neg hl.1, Option.isSome_map]
    exact iff_of_true (create_isSome hl.2) (by cases port <;> trivial)
  | delete self threadHandle =>
    have hm : threadHandle = 0 ∨ threadHandle ∈ w.held := hl.imp_right And.left
    rw [Spec.Thread.step, if_pos hm, Option.isSome_map, halThreadDelete]
    by_cases hz : threadHandle = 0
    · rw [if_pos hz]
      exact iff_of_true rfl (by cases port <;> trivial)
    obtain ⟨hmem, hself⟩ := hl.resolve_left hz
    rw [if_neg hz, if_neg hself]
    cases port with
    | ubuntu =>
      refine iff_of_false (fun hj => ?_) hz
      obtain ⟨threads, hj⟩ := Option.isSome_iff_exists.mp hj
      obtain ⟨ho, hmark, -⟩ := join_cases hj
      obtain ⟨v, hv⟩ := Option.isSome_iff_exists.mp ho
      exact hmark (by rw [hv, (h.mark _ v hv).mpr rfl])
    | jabsco =>
      refine iff_of_true ?_ trivial
      have ho := (h.holds rfl).isOpen_of_mem hmem
      obtain ⟨v, hv⟩ := Option.isSome_iff_exists.mp ho
      have hmark := h.mark _ v hv
      rw [pthreadJoin, show w.threads threadHandle = some v from hv]
      rcases v with _ | _ | _
      · rfl
      · cases hmark.mp rfl
      · rfl
  | exit n => exact iff_of_true rfl (by cases port <;> trivial)

/-- A run of legal events has a value exactly if no thread is deleted that the
wrapper has detached, and then the system keeps the threads that run, or all that
were not deleted. -/
theorem threads_kept (hl : Along (Spec.Thread.step port) Legal noThread calls) :
    ((run (Spec.Thread.step port) noThread calls).isSome = true ↔ ∀ c ∈ calls, c.Joins port) ∧
      ∀ w hist, run (Spec.Thread.step port) noThread calls = some (w, hist) → Kept port w hist :=
  ⟨run_isSome_iff (fun _ _ _ _ _ h hs => Inv.step h hs) (fun _ _ _ h hl => step_isSome_iff h hl) inv_noThread hl,
    fun _ _ hr => (run_keeps (Inv port) (fun _ _ _ _ _ h hs => h.step hs) inv_noThread hr).kept⟩

end

/-! ### A thread that ends by itself -/

/-- The thread 7 ends, its number is not given up, and the thread 8 is deleted. -/
def sniffers : List Call := [.create 0 7, .exit 7, .create 0 8, .delete 1 8]

theorem threads_kept_sniffers :
    ((run (step .jabsco) noThread sniffers).isSome = true ↔ ∀ c ∈ sniffers, c.Joins .jabsco) ∧
      ∀ w hist, run (step .jabsco) noThread sniffers = some (w, hist) → Kept .jabsco w hist := by
  refine threads_kept ((along_cons_of_step rfl).mpr ⟨⟨by decide, by decide⟩, (along_cons_of_step rfl).mpr ⟨trivial,
    (along_cons_of_step rfl).mpr ⟨⟨by decide, ?_⟩, .inr ⟨List.mem_cons_self, by decide⟩, fun _ _ _ => trivial⟩⟩⟩)
  decide

end Linkkit.Proof.Thread
