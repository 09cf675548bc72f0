import Linkkit.Proof.Wait
import Linkkit.Spec.Timer

/-!
# When the timers expire

A start hands the delay of its wrapper to `timer_settime`, which refuses negative
milliseconds (`settime_start`); every other call of a handle disarms its timer or
leaves it as it is. Over every run the blocks and the timers are those of the
handles held (`timers_owned`), and a timer can expire exactly when its delay has
passed since it was started, and was not set since (`expires_iff`).
-/

namespace Linkkit.Proof.Timer

open Impl.Timer Impl.Wait Spec.Timer
open Spec.Wait (NormalTimespec Port nsecs)

/-! ## Times -/

section

variable {ms k : Int32} {port : Port}

/-- What a start hands to `timer_settime` is taken if it is not negative. -/
theorem valid_start (hk : 0 < k.toInt) (hk' : k.toInt ≤ 1000000) :
    Valid ⟨(ms / 1000).toInt, (ms % 1000 * k).toInt⟩ ↔ 0 ≤ ms := by
  rw [Int32.le_iff_toInt_le, Int32.toInt_zero]
  by_cases h : 0 ≤ ms.toInt
  · obtain ⟨hge, hlt⟩ := Proof.Wait.rem_mul_mem ms (Int.le_of_lt hk) hk'
    simp only [Valid, NormalTimespec, Proof.Wait.toInt_div_thousand h,
      Proof.Wait.toInt_rem_mul h (Int.le_of_lt hk) hk']
    exact iff_of_true ⟨by omega, hge, hlt⟩ h
  refine iff_of_false (fun hv => ?_) h
  have hsec : 0 ≤ (ms / 1000).toInt := hv.1
  have hnsec : 0 ≤ (ms % 1000 * k).toInt := hv.2.1
  rw [Int32.toInt_div_of_ne_right ms 1000 (by decide)] at hsec
  have hquot : 0 ≤ ms.toInt.tdiv 1000 := hsec
  have hrem : ms.toInt.tmod 1000 = ms.toInt - 1000 * ms.toInt.tdiv 1000 := Int.tmod_def ..
  have hgt : -1000 < ms.toInt.tmod 1000 := Int.lt_tmod_of_pos _ (by decide)
  -- The quotient is 0, so the remainder is negative, and 32 bits hold its product with `k`.
  have hneg : ms.toInt.tmod 1000 < 0 := by omega
  have hprod : ms.toInt.tmod 1000 * k.toInt < 0 := Int.mul_neg_of_neg_of_pos hneg hk
  have hbound : -999 * 1000000 ≤ ms.toInt.tmod 1000 * k.toInt :=
    calc (-999 : Int) * 1000000 ≤ -999 * k.toInt := by omega
      _ ≤ ms.toInt.tmod 1000 * k.toInt := Int.mul_le_mul_of_nonneg_right (by omega) (Int.le_of_lt hk)
  rw [Int32.toInt_mul, Int32.toInt_mod] at hnsec
  have hmul : (ms.toInt.tmod (1000 : Int32).toInt * k.toInt).bmod (2 ^ 32) = ms.toInt.tmod 1000 * k.toInt :=
    Int.bmod_eq_of_le (show -(2 ^ 32 / 2) ≤ ms.toInt.tmod 1000 * k.toInt by omega)
      (show ms.toInt.tmod 1000 * k.toInt < (2 ^ 32 + 1) / 2 by omega)
  omega

theorem nsecs_start (h : 0 ≤ ms) (hk : 0 ≤ k.toInt) (hk' : k.toInt ≤ 1000000) :
    nsecs ⟨(ms / 1000).toInt, (ms % 1000 * k).toInt⟩ =
      ms.toInt / 1000 * 1000000000 + ms.toInt % 1000 * k.toInt := by
  rw [Int32.le_iff_toInt_le, Int32.toInt_zero] at h
  simp only [nsecs, Proof.Wait.toInt_div_thousand h, Proof.Wait.toInt_rem_mul h hk hk']

/-- A start asks for the delay of its wrapper, which is taken if it is not
negative. -/
theorem timerStart_asks (port : Port) (ms : Int32) : ∃ value, (∀ settime,
    Spec.Timer.timerStart port true ms settime = (settime, some ⟨⟨0, 0⟩, value⟩)) ∧ (Valid value ↔ 0 ≤ ms) ∧
      (0 ≤ ms → nsecs value = delay port ms) := by
  cases port with
  | ubuntu =>
    refine ⟨_, fun settime => rfl, valid_start (by decide) (by decide), fun h => ?_⟩
    have hmul : (1000000 : Int32).toInt = 1000000 := by decide
    rw [nsecs_start h (by decide) (by decide), delay, hmul]
    omega
  | jabsco => exact ⟨_, fun settime => rfl, valid_start (by decide) (by decide), fun h => nsecs_start h (by decide) (by decide)⟩

theorem delay_nonneg (port : Port) (h : 0 ≤ ms) : 0 ≤ delay port ms := by
  rw [Int32.le_iff_toInt_le, Int32.toInt_zero] at h
  cases port <;> rw [delay] <;> omega

end

/-! ## What a call does -/

section

variable {port : Port} {w w' : World} {r : Reply} {timer id : UInt64} {ms : Int32}

/-- A creation leaves everything as it was and returns NULL, or it stores a new
timer in a new block. -/
theorem create_cases {func : Bool} {sys : CreateSys} (h : step port w (.create func sys) = some (w', r)) :
    Returns (.create func sys, r) ∧ ((r = .handle 0 ∧ w' = w) ∨
      ∃ timer id, r = .handle timer ∧ timer ≠ 0 ∧ ¬ w.t.heap.IsOpen timer ∧ ¬ w.t.timers.IsOpen id ∧
        w' = ⟨w.now, ⟨w.t.heap.connect timer id, Function.update w.t.timers id (some none)⟩, timer :: w.held⟩) := by
  obtain ⟨checked, hc⟩ : ∃ checked, Spec.Timer.timerCreate port = Impl.Timer.timerCreate checked := by
    cases port
    · exact ⟨true, rfl⟩
    · exact ⟨false, rfl⟩
  obtain ⟨⟨ret, t⟩, ht, h⟩ := Option.bind_eq_some_iff.mp h
  cases h
  rw [hc, Impl.Timer.timerCreate] at ht
  have hnull {t' : Timers} (ht' : t = t') (he : t' = w.t) :
      (⟨w.now, t, if (0 : UInt64) = 0 then w.held else 0 :: w.held⟩ : World) = w := by rw [ht', he, if_pos rfl]
  cases func with
  | false =>
    cases ht
    exact ⟨rfl, .inl ⟨rfl, hnull rfl rfl⟩⟩
  | true =>
    simp only [Bool.not_true, Bool.false_eq_true, if_false] at ht
    split at ht
    · rename_i hm
      have hnone : ret = 0 ∧ t = w.t := by
        split at ht
        · cases ht
          exact ⟨rfl, rfl⟩
        · split at ht
          · cases ht
            exact ⟨rfl, rfl⟩
          · cases ht
      obtain ⟨rfl, rfl⟩ := hnone
      refine ⟨?_, .inl ⟨rfl, hnull rfl rfl⟩⟩
      rw [Returns, hm, ite_self]
    rename_i hm
    obtain ⟨heap, hopen, ht⟩ := Option.bind_eq_some_iff.mp ht
    cases hid : sys.timerCreate with
    | none =>
      rw [hid] at ht
      cases ht
      refine ⟨?_, .inl ⟨rfl, hnull rfl ?_⟩⟩
      · rw [Returns, hid, if_neg (fun hn => Bool.false_ne_true hn.2)]
      · rw [Descriptors.close_of_opens hopen]
    | some id =>
      rw [hid] at ht
      obtain ⟨timers, hopen', ht⟩ := Option.bind_eq_some_iff.mp ht
      cases ht
      obtain ⟨hfree, rfl⟩ := Descriptors.opens_eq_some.mp hopen'
      refine ⟨?_, .inr ⟨sys.malloc, id, rfl, hm, (Descriptors.opens_eq_some.mp hopen).1, hfree, ?_⟩⟩
      · rw [Returns, hid, if_pos ⟨rfl, rfl⟩]
      · rw [if_neg hm, Descriptors.connect_of_opens hopen]

theorem valid_zero : Valid ⟨0, 0⟩ := by decide

/-- A start of a handle arms its timer, or disarms it if there is no delay, and is
refused if it is negative. -/
theorem start_cases (hid : w.t.timerT timer = some id) (ho : w.t.timers.IsOpen id) (hne : timer ≠ 0)
    (h : step port w (.start timer ms) = some (w', r)) : (¬ 0 ≤ ms ∧ r = .ret (-1) ∧ w' = w) ∨
      (0 ≤ ms ∧ r = .ret 0 ∧ w' = w.arm id (if delay port ms = 0 then none else some ⟨w.now + delay port ms, 0⟩)) := by
  rw [step] at h
  split at h
  · obtain ⟨value, hasks, hvalid, hdelay⟩ := timerStart_asks port ms
    rw [decide_eq_true hne, World.settime, hasks 0, hid] at h
    simp only [Option.bind_eq_bind, Option.bind_some, hasks] at h
    cases h
    rw [World.timerSettime]
    by_cases hms : 0 ≤ ms
    · rw [if_pos ⟨ho, valid_zero, hvalid.mpr hms⟩, hdelay hms]
      exact .inr ⟨hms, rfl, rfl⟩
    · rw [if_neg fun hn => hms (hvalid.mp hn.2.2)]
      exact .inl ⟨hms, rfl, rfl⟩
  · cases h

/-- A stop of a handle disarms its timer. -/
theorem stop_cases (hid : w.t.timerT timer = some id) (ho : w.t.timers.IsOpen id) (hne : timer ≠ 0)
    (h : step port w (.stop timer) = some (w', r)) : r = .ret 0 ∧ w' = w.arm id none := by
  rw [step] at h
  split at h
  · rw [decide_eq_true hne, World.settime, hid] at h
    have hset : w.timerSettime id ⟨⟨0, 0⟩, ⟨0, 0⟩⟩ = (0, w.arm id none) := if_pos ⟨ho, valid_zero, valid_zero⟩
    simp only [halTimerStop, Bool.not_true, Bool.false_eq_true, if_false, Option.bind_eq_bind, Option.bind_some,
      hset] at h
    cases h
    exact ⟨rfl, rfl⟩
  · cases h

/-- A deletion of a handle deletes its timer and frees its block. -/
theorem delete_cases (hid : w.t.timerT timer = some id) (ho : w.t.timers.IsOpen id) (hne : timer ≠ 0)
    (h : step port w (.delete timer) = some (w', r)) : r = .ret 0 ∧
      w' = ⟨w.now, ⟨w.t.heap.close timer, w.t.timers.close id⟩, w.held.erase timer⟩ := by
  rw [step] at h
  split at h
  · rw [halTimerDelete, if_neg hne, hid] at h
    simp only [Option.bind_eq_bind, Option.bind_some, if_pos ho] at h
    cases h
    exact ⟨rfl, rfl⟩
  · cases h

/-- A call that is given NULL does nothing. -/
theorem null_cases {c : Call} (hc : (∃ ms, c = .start 0 ms) ∨ c = .stop 0 ∨ c = .delete 0)
    (hnull : 0 ∉ w.held) (h : step port w c = some (w', r)) : r = .ret (-1) ∧ w' = w := by
  rcases hc with ⟨ms, rfl⟩ | rfl | rfl
  · cases port <;> cases h <;> exact ⟨rfl, rfl⟩
  · cases h
    exact ⟨rfl, rfl⟩
  · cases h
    refine ⟨rfl, ?_⟩
    rw [List.erase_of_not_mem hnull]

/-- Only handles that are held are given. -/
theorem mem_held_of_step {c : Call} (hc : (∃ ms, c = .start timer ms) ∨ c = .stop timer ∨ c = .delete timer)
    (hne : timer ≠ 0) (h : step port w c = some (w', r)) : timer ∈ w.held := by
  by_contra hm
  have hn := not_or.mpr ⟨hne, hm⟩
  rcases hc with ⟨ms, rfl⟩ | rfl | rfl <;> rw [step, if_neg hn] at h <;> cases h

/-- An expiration is that of a timer whose time has come. -/
theorem expire_cases (h : step port w (.expire timer) = some (w', r)) : ∃ id armed, w.t.timerT timer = some id ∧
    w.t.timers id = some (some armed) ∧ armed.deadline ≤ w.now ∧ r = .none ∧
      w' = w.arm id (if armed.interval = 0 then none
        else some ⟨armed.deadline + armed.interval, armed.interval⟩) := by
  rw [step] at h
  obtain ⟨id, hid, h⟩ := Option.bind_eq_some_iff.mp h
  obtain ⟨armed, ha, h⟩ := Option.bind_eq_some_iff.mp h
  split at h
  · rename_i hle
    cases h
    exact ⟨id, armed, hid, Option.join_eq_some_iff.mp ha, hle, rfl, rfl⟩
  · cases h

end

/-! ## What the history says -/

section

variable {port : Port} {hist : List Event} {e : Event} {now : Int} {timer : UInt64} {ms : Int32} {a : Armed}

/-- The history has armed the timer so. -/
def Arms (port : Port) (hist : List Event) (now : Int) (timer : UInt64) (a : Armed) : Prop :=
  a.interval = 0 ∧ ∃ ms ns, SinceFor (Starts timer ms) (fun e => ¬ Sets timer e) Event.ns ns hist ∧
    0 < delay port ms ∧ a.deadline = now - ns + delay port ms

theorem sets_of_starts (h : Starts timer ms e) : Sets timer e := by
  rw [h]
  exact ⟨rfl, rfl⟩

/-- An event that does not set the timer, and the time that passes in it. -/
theorem arms_frame (h : ¬ Sets timer e) : Arms port (hist ++ [e]) (now + e.ns) timer a ↔ Arms port hist now timer a := by
  refine and_congr_right fun _ => exists_congr fun ms => ?_
  constructor
  · rintro ⟨ns, hs, hd⟩
    rcases sinceFor_append_singleton.mp hs with ⟨hp, -⟩ | ⟨-, m, hs', rfl⟩
    · exact absurd (sets_of_starts hp) h
    · exact ⟨m, hs', hd.1, by have := hd.2; push_cast at this; omega⟩
  · rintro ⟨ns, hs, hd⟩
    exact ⟨ns + e.ns, sinceFor_append_singleton.mpr (.inr ⟨h, ns, hs, rfl⟩), hd.1, by
      have := hd.2; push_cast; omega⟩

/-- An event that sets the timer, and is no start. -/
theorem not_arms_of_sets (h : Sets timer e) (hn : ∀ ms, ¬ Starts timer ms e) : ¬ Arms port (hist ++ [e]) now timer a := by
  rintro ⟨-, ms, ns, hs, -⟩
  rcases sinceFor_append_singleton.mp hs with ⟨hp, -⟩ | ⟨hn', -⟩
  · exact hn ms hp
  · exact hn' h

theorem arms_start : Arms port (hist ++ [(.start timer ms, .ret 0)]) now timer a ↔
    0 < delay port ms ∧ a = ⟨now + delay port ms, 0⟩ := by
  constructor
  · rintro ⟨hi, ms', ns, hs, hd, hdead⟩
    rcases sinceFor_append_singleton.mp hs with ⟨hp, rfl⟩ | ⟨hn, -⟩
    · cases hp
      refine ⟨hd, ?_⟩
      obtain ⟨deadline, interval⟩ := a
      dsimp only at hi hdead
      rw [hi, hdead, Int.ofNat_zero, Int.sub_zero]
    · exact absurd ⟨rfl, rfl⟩ hn
  · rintro ⟨hd, rfl⟩
    exact ⟨rfl, ms, 0, sinceFor_append_singleton.mpr (.inl ⟨rfl, rfl⟩), hd, by
      rw [Int.ofNat_zero, Int.sub_zero]⟩

end

/-! ## Runs -/

section

variable {port : Port} {w w' : World} {hist : List Event} {c : Call} {r : Reply} {e : Event} {timer timer' id : UInt64}

/-- What a run keeps. -/
structure Inv (port : Port) (w : World) (hist : List Event) : Prop where
  owned : Owned w
  nodup : w.held.Nodup
  null : 0 ∉ w.held
  armed : ∀ timer ∈ w.held, ∀ a, w.armed timer = some a ↔ Arms port hist w.now timer a
  returns : ∀ e ∈ hist, Returns e

theorem Inv.timerOf (h : Inv port w hist) (hm : timer ∈ w.held) :
    timer ≠ 0 ∧ ∃ id, w.t.timerT timer = some id ∧ w.t.timers.IsOpen id := by
  obtain ⟨id, hid⟩ := h.owned.stored timer hm
  exact ⟨fun h₀ => h.null (h₀ ▸ hm), id, hid, (h.owned.timers id).mpr ⟨timer, hm, hid⟩⟩

theorem timers_arm (w : World) (id : UInt64) (a : Option Armed) :
    (w.arm id a).t.timers = Function.update w.t.timers id (some a) := rfl

theorem armed_arm_self {a : Option Armed} (hid : w.t.timerT timer = some id) : (w.arm id a).armed timer = a := by
  have hid' : (w.arm id a).t.timerT timer = some id := hid
  rw [World.armed, hid', Option.bind_some, timers_arm, Function.update_self]
  rfl

theorem armed_arm_of_ne {a : Option Armed} (hne : w.t.timerT timer ≠ some id) :
    (w.arm id a).armed timer = w.armed timer := by
  have ht : (w.arm id a).t.timerT timer = w.t.timerT timer := rfl
  rw [World.armed, World.armed, ht]
  cases hid : w.t.timerT timer with
  | none => rfl
  | some id' =>
    rw [Option.bind_some, Option.bind_some, timers_arm, Function.update_of_ne fun he => hne (by rw [hid, he])]

/-- An event that sets no timer that is held. -/
theorem Inv.keep (h : Inv port w hist) (he : Returns e) (hsets : ∀ timer ∈ w.held, ¬ Sets timer e) :
    Inv port { w with now := w.now + e.ns } (hist ++ [e]) where
  owned := ⟨h.owned.blocks, h.owned.stored, h.owned.timers, h.owned.own⟩
  nodup := h.nodup
  null := h.null
  armed timer hm a := (h.armed timer hm a).trans (arms_frame (hsets timer hm)).symm
  returns := List.forall_mem_append.mpr ⟨h.returns, List.forall_mem_singleton.mpr he⟩

/-- An event that arms or disarms the timer of a handle, and sets no other. -/
theorem Inv.arm (h : Inv port w hist) (he : Returns e) (hns : e.ns = 0) (hm : timer ∈ w.held)
    (hid : w.t.timerT timer = some id) (hsets : ∀ timer', Sets timer' e ↔ timer' = timer) {a : Option Armed}
    (ha : ∀ b, a = some b ↔ Arms port (hist ++ [e]) w.now timer b) : Inv port (w.arm id a) (hist ++ [e]) where
  owned := by
    refine ⟨h.owned.blocks, h.owned.stored, fun id' => ?_, h.owned.own⟩
    have hopen : (w.arm id a).t.timers.IsOpen id' ↔ w.t.timers.IsOpen id' := by
      by_cases hi : id' = id
      · rw [hi]
        refine iff_of_true ?_ ((h.owned.timers id).mpr ⟨timer, hm, hid⟩)
        rw [timers_arm, Descriptors.IsOpen, Function.update_self]
        rfl
      · rw [timers_arm, Descriptors.IsOpen, Function.update_of_ne hi, Descriptors.IsOpen]
    rw [hopen]
    exact h.owned.timers id'
  nodup := h.nodup
  null := h.null
  armed timer' hm' b := by
    by_cases ht : timer' = timer
    · rw [ht, armed_arm_self hid]
      exact ha b
    · rw [armed_arm_of_ne fun hi => ht (h.owned.own timer' hm' timer hm (hi.trans hid.symm)), h.armed timer' hm' b,
        ← arms_frame (e := e) (mt (hsets timer').mp ht), hns, Int.ofNat_zero, Int.add_zero]
      rfl
  returns := List.forall_mem_append.mpr ⟨h.returns, List.forall_mem_singleton.mpr he⟩

theorem Inv.create (h : Inv port w hist) {func : Bool} {sys : CreateSys} (he : Returns (.create func sys, .handle timer))
    (hne : timer ≠ 0) (hheap : ¬ w.t.heap.IsOpen timer) (hfree : ¬ w.t.timers.IsOpen id) :
    Inv port ⟨w.now, ⟨w.t.heap.connect timer id, Function.update w.t.timers id (some none)⟩, timer :: w.held⟩
      (hist ++ [(.create func sys, .handle timer)]) := by
  generalize ht : (⟨w.t.heap.connect timer id, Function.update w.t.timers id (some none)⟩ : Timers) = t
  have hh : t.heap = w.t.heap.connect timer id := by rw [← ht]
  have htimers : t.timers = Function.update w.t.timers id (some none) := by rw [← ht]
  have hnew : timer ∉ w.held := fun hm => hheap ((h.owned.blocks timer).mpr hm)
  have hself : t.timerT timer = some id := by
    rw [Timers.timerT, hh, Descriptors.connect, Function.update_self]
    rfl
  have hother {timer'} (hm : timer' ∈ w.held) : t.timerT timer' = w.t.timerT timer' := by
    have hne' : timer' ≠ timer := fun he => hnew (he ▸ hm)
    rw [Timers.timerT, hh, Descriptors.connect, Function.update_of_ne hne', Timers.timerT]
  -- No handle has the new timer, which did not exist.
  have hid {timer'} (hm : timer' ∈ w.held) : w.t.timerT timer' ≠ some id := fun hi =>
    hfree ((h.owned.timers id).mpr ⟨timer', hm, hi⟩)
  refine ⟨⟨fun timer' => ?_, ?_, fun id' => ?_, ?_⟩, List.nodup_cons.mpr ⟨hnew, h.nodup⟩, ?_, ?_,
    List.forall_mem_append.mpr ⟨h.returns, List.forall_mem_singleton.mpr he⟩⟩
  · rw [hh, Descriptors.isOpen_connect, h.owned.blocks, List.mem_cons]
  · refine List.forall_mem_cons.mpr ⟨⟨id, hself⟩, fun timer' hm => ?_⟩
    rw [hother hm]
    exact h.owned.stored timer' hm
  · have hopen : t.timers.IsOpen id' ↔ id' = id ∨ w.t.timers.IsOpen id' := by
      by_cases hi : id' = id
      · rw [hi, Descriptors.IsOpen, htimers, Function.update_self]
        exact iff_of_true rfl (.inl rfl)
      · rw [Descriptors.IsOpen, htimers, Function.update_of_ne hi, or_iff_right hi, Descriptors.IsOpen]
    rw [hopen, List.exists_mem_cons_iff, hself, Option.some.injEq, h.owned.timers id']
    refine or_congr eq_comm (exists_congr fun timer' => and_congr_right fun hm => ?_)
    rw [hother hm]
  · refine List.forall_mem_cons.mpr ⟨?_, fun timer' hm => ?_⟩
    · refine List.forall_mem_cons.mpr ⟨fun _ => rfl, fun timer' hm hi => ?_⟩
      rw [hself, hother hm] at hi
      exact absurd hi.symm (hid hm)
    · refine List.forall_mem_cons.mpr ⟨fun hi => ?_, fun timer'' hm' hi => ?_⟩
      · rw [hself, hother hm] at hi
        exact absurd hi (hid hm)
      · rw [hother hm, hother hm'] at hi
        exact h.owned.own timer' hm timer'' hm' hi
  · exact fun hm => (List.mem_cons.mp hm).elim (fun he => hne he.symm) h.null
  · refine List.forall_mem_cons.mpr ⟨fun a => ?_, fun timer' hm a => ?_⟩
    · rw [World.armed, hself, Option.bind_some, htimers, Function.update_self]
      refine iff_of_false (Option.some_ne_none a).symm (not_arms_of_sets rfl fun ms hs => ?_)
      cases hs
    · have hn : ¬ Sets timer' (.create func sys, .handle timer) := fun hs => hnew (by cases hs; exact hm)
      have harmed := (h.armed timer' hm a).trans (arms_frame hn).symm
      refine Iff.trans (Eq.to_iff (congrArg (· = some a) ?_)) (by simpa [Event.ns] using harmed)
      rw [World.armed, World.armed, hother hm]
      cases hi : w.t.timerT timer' with
      | none => rfl
      | some id' =>
        rw [Option.bind_some, Option.bind_some, htimers, Function.update_of_ne fun he => hid hm (by rw [hi, he])]

theorem Inv.delete (h : Inv port w hist) (hm : timer ∈ w.held) (hid : w.t.timerT timer = some id) :
    Inv port ⟨w.now, ⟨w.t.heap.close timer, w.t.timers.close id⟩, w.held.erase timer⟩
      (hist ++ [(.delete timer, .ret 0)]) := by
  generalize ht : (⟨w.t.heap.close timer, w.t.timers.close id⟩ : Timers) = t
  have hh : t.heap = w.t.heap.close timer := by rw [← ht]
  have htimers : t.timers = w.t.timers.close id := by rw [← ht]
  have hmem {timer'} : timer' ∈ w.held.erase timer ↔ timer' ≠ timer ∧ timer' ∈ w.held := h.nodup.mem_erase_iff
  have hother {timer'} (hm : timer' ∈ w.held.erase timer) : t.timerT timer' = w.t.timerT timer' := by
    rw [Timers.timerT, hh, Descriptors.close, Function.update_of_ne (hmem.mp hm).1, Timers.timerT]
  have hne {timer'} (hm' : timer' ∈ w.held.erase timer) : w.t.timerT timer' ≠ some id := fun hi =>
    (hmem.mp hm').1 (h.owned.own timer' (hmem.mp hm').2 timer hm (hi.trans hid.symm))
  refine ⟨⟨fun timer' => ?_, fun timer' hm' => ?_, fun id' => ?_, fun timer' hm' timer'' hm'' hi => ?_⟩,
    h.nodup.erase timer, fun h₀ => h.null (hmem.mp h₀).2, fun timer' hm' a => ?_,
    List.forall_mem_append.mpr ⟨h.returns, List.forall_mem_singleton.mpr ?_⟩⟩
  · rw [hh, Descriptors.isOpen_close, h.owned.blocks, hmem]
  · rw [hother hm']
    exact h.owned.stored timer' (hmem.mp hm').2
  · have hopen : t.timers.IsOpen id' ↔ id' ≠ id ∧ w.t.timers.IsOpen id' := by
      rw [htimers, Descriptors.isOpen_close]
    rw [hopen, h.owned.timers id']
    constructor
    · rintro ⟨hi, timer', hm', he⟩
      have hm'' : timer' ∈ w.held.erase timer :=
        hmem.mpr ⟨fun hc => hi (Option.some.inj (he.symm.trans (hc ▸ hid))), hm'⟩
      exact ⟨timer', hm'', (hother hm'').trans he⟩
    · rintro ⟨timer', hm', he⟩
      rw [hother hm'] at he
      exact ⟨fun hi => hne hm' (hi ▸ he), timer', (hmem.mp hm').2, he⟩
  · rw [hother hm', hother hm''] at hi
    exact h.owned.own timer' (hmem.mp hm').2 timer'' (hmem.mp hm'').2 hi
  · have hn : ¬ Sets timer' (.delete timer, .ret 0) := fun hs => (hmem.mp hm').1 hs.symm
    have harmed := (h.armed timer' (hmem.mp hm').2 a).trans (arms_frame hn).symm
    refine Iff.trans (Eq.to_iff (congrArg (· = some a) ?_)) (by simpa [Event.ns] using harmed)
    rw [World.armed, World.armed, hother hm']
    cases hi : w.t.timerT timer' with
    | none => rfl
    | some id' =>
      rw [Option.bind_some, Option.bind_some, htimers, Descriptors.close,
        Function.update_of_ne fun he => hne hm' (by rw [hi, he])]
  · show _ = Reply.ret (if timer ≠ 0 then 0 else -1)
    rw [if_pos (h.timerOf hm).1]

theorem Inv.step (h : Inv port w hist) (hs : Spec.Timer.step port w c = some (w', r)) :
    Inv port w' (hist ++ [(c, r)]) := by
  -- An event in which no time passes, and that sets nothing.
  have hsame (hns : Event.ns (c, r) = 0) (he : Returns (c, r)) (hsets : ∀ timer ∈ w.held, ¬ Sets timer (c, r)) :
      Inv port w (hist ++ [(c, r)]) := by
    have hk := h.keep he hsets
    rw [hns, Int.ofNat_zero, Int.add_zero] at hk
    exact hk
  cases c with
  | create func sys =>
    obtain ⟨hret, ⟨rfl, rfl⟩ | ⟨timer, id, rfl, hne, hheap, hfree, rfl⟩⟩ := create_cases hs
    · exact hsame rfl hret fun timer hm he => h.null (by cases he; exact hm)
    · exact h.create hret hne hheap hfree
  | start timer ms =>
    by_cases hz : timer = 0
    · subst hz
      obtain ⟨rfl, rfl⟩ := null_cases (.inl ⟨ms, rfl⟩) h.null hs
      exact hsame rfl (by simp [Returns]) fun timer _ he => absurd he.2 (by decide)
    have hm := mem_held_of_step (.inl ⟨ms, rfl⟩) hz hs
    obtain ⟨-, id, hid, ho⟩ := h.timerOf hm
    rcases start_cases hid ho hz hs with ⟨hms, rfl, rfl⟩ | ⟨hms, rfl, rfl⟩
    · exact hsame rfl (by simp [Returns, hms]) fun timer _ he => absurd he.2 (by decide)
    · refine h.arm (by simp [Returns, hz, hms]) rfl hm hid (fun timer' => ?_) fun b => ?_
      · exact ⟨fun he => he.1.symm, fun he => ⟨he.symm, rfl⟩⟩
      · rw [arms_start]
        have hd := delay_nonneg port hms
        split
        · rename_i h₀
          exact iff_of_false (Option.some_ne_none b).symm fun hb => absurd hb.1 (by omega)
        · rename_i h₀
          rw [Option.some.injEq, eq_comm, and_iff_right (by omega)]
  | stop timer =>
    by_cases hz : timer = 0
    · subst hz
      obtain ⟨rfl, rfl⟩ := null_cases (.inr (.inl rfl)) h.null hs
      exact hsame rfl (by simp [Returns]) fun timer _ he => absurd he.2 (by decide)
    have hm := mem_held_of_step (.inr (.inl rfl)) hz hs
    obtain ⟨-, id, hid, ho⟩ := h.timerOf hm
    obtain ⟨rfl, rfl⟩ := stop_cases hid ho hz hs
    refine h.arm (by simp [Returns, hz]) rfl hm hid (fun timer' => ?_) fun b => ?_
    · exact ⟨fun he => he.1.symm, fun he => ⟨he.symm, rfl⟩⟩
    · exact iff_of_false (Option.some_ne_none b).symm (not_arms_of_sets ⟨rfl, rfl⟩ fun ms hs => by cases hs)
  | delete timer =>
    by_cases hz : timer = 0
    · subst hz
      obtain ⟨rfl, rfl⟩ := null_cases (.inr (.inr rfl)) h.null hs
      exact hsame rfl (by simp [Returns]) fun timer hm he => h.null (by cases he; exact hm)
    have hm := mem_held_of_step (.inr (.inr rfl)) hz hs
    obtain ⟨-, id, hid, ho⟩ := h.timerOf hm
    obtain ⟨rfl, rfl⟩ := delete_cases hid ho hz hs
    exact h.delete hm hid
  | tick ns =>
    cases hs
    exact h.keep (e := (.tick ns, .none)) rfl fun _ _ he => he
  | expire timer =>
    obtain ⟨id, armed, hid, harmed, -, rfl, rfl⟩ := expire_cases hs
    have hm : timer ∈ w.held := by
      rw [← h.owned.blocks, Descriptors.IsOpen]
      cases hb : w.t.heap timer with
      | none => rw [Timers.timerT, hb] at hid; cases hid
      | some v => rfl
    have ha : w.armed timer = some armed := by rw [World.armed, hid, Option.bind_some, harmed]; rfl
    rw [if_pos ((h.armed timer hm armed).mp ha).1]
    refine h.arm (e := (.expire timer, .none)) rfl rfl hm hid (fun timer' => ?_) fun b => ?_
    · exact eq_comm
    · exact iff_of_false (Option.some_ne_none b).symm (not_arms_of_sets rfl fun ms hs => by cases hs)

theorem inv_noTimer (now : Int) : Inv port (noTimer now) [] where
  owned := ⟨fun timer => by simp [noTimer], fun timer hm => absurd hm List.not_mem_nil,
    fun id => by simp [noTimer], fun timer hm => absurd hm List.not_mem_nil⟩
  nodup := List.nodup_nil
  null := List.not_mem_nil
  armed timer hm := absurd hm List.not_mem_nil
  returns e he := absurd he List.not_mem_nil

variable {now : Int} {calls : List Call}

theorem run_keeps_inv (hr : run (Spec.Timer.step port) (noTimer now) calls = some (w, hist)) : Inv port w hist :=
  run_keeps (Inv port) (fun _ _ _ _ _ h hs => h.step hs) (inv_noTimer now) hr

/-- After every run the blocks and the timers that exist are those of the handles
held, each handle's its own, and each call has returned what it should. -/
theorem timers_owned (hr : run (Spec.Timer.step port) (noTimer now) calls = some (w, hist)) :
    Owned w ∧ ∀ e ∈ hist, Returns e :=
  ⟨(run_keeps_inv hr).owned, (run_keeps_inv hr).returns⟩

theorem timerCreate_isSome {checked func : Bool} {sys : CreateSys} {t : Timers} (hheap : ¬ t.heap.IsOpen sys.malloc)
    (hfree : ∀ id ∈ sys.timerCreate, ¬ t.timers.IsOpen id) : (Impl.Timer.timerCreate checked func sys t).isSome = true ↔
      (checked = false → func = true → sys.timerCreate.isSome = true → sys.malloc ≠ 0) := by
  obtain ⟨heap, ho⟩ := Descriptors.opens_of_closed hheap
  rw [Impl.Timer.timerCreate]
  cases func with
  | false => exact iff_of_true rfl fun _ => nofun
  | true =>
    by_cases hm : sys.malloc = 0
    · cases checked <;> cases hid : sys.timerCreate <;> simp [hm]
    · rw [if_neg hm, ho]
      cases hid : sys.timerCreate with
      | none => exact iff_of_true rfl fun _ _ _ => hm
      | some id =>
        obtain ⟨timers, ho'⟩ := Descriptors.opens_of_closed (hfree id hid)
        simp only [Bool.not_true, Bool.false_eq_true, if_false, Option.bind_eq_bind, Option.bind_some, ho']
        exact iff_of_true rfl fun _ _ _ => hm

/-- A legal event has a value exactly if a creation stores its `timer_t` in a block. -/
theorem step_isSome_iff (h : Inv port w hist) (hl : Legal w c) :
    (Spec.Timer.step port w c).isSome = true ↔ c.Stores port := by
  have hmem {timer : UInt64} (hz : timer ≠ 0) (ho : timer = 0 ∨ timer ∈ w.held) :
      ∃ id, w.t.timerT timer = some id := h.owned.stored timer (ho.resolve_left hz)
  have hstores (hc : ∀ func sys, c ≠ .create func sys) : c.Stores port := by
    cases port <;> cases c <;> first | trivial | exact absurd rfl (hc _ _)
  cases c with
  | create func sys =>
    have hsome : (Spec.Timer.step port w (.create func sys)).isSome =
        (Spec.Timer.timerCreate port func sys w.t).isSome := by
      rw [Spec.Timer.step]
      cases Spec.Timer.timerCreate port func sys w.t <;> rfl
    rw [hsome]
    cases port with
    | ubuntu => exact (timerCreate_isSome hl.1 hl.2).trans (iff_of_true nofun trivial)
    | jabsco => exact (timerCreate_isSome hl.1 hl.2).trans (imp_iff_right rfl)
  | start timer ms =>
    refine iff_of_true ?_ (hstores nofun)
    by_cases hz : timer = 0
    · subst hz
      cases port <;> rfl
    obtain ⟨id, hid⟩ := hmem hz hl
    obtain ⟨value, hasks, -⟩ := timerStart_asks port ms
    rw [Spec.Timer.step, if_pos (show timer = 0 ∨ timer ∈ w.held from hl), decide_eq_true hz, World.settime, hasks 0, hid]
    rfl
  | stop timer =>
    refine iff_of_true ?_ (hstores nofun)
    by_cases hz : timer = 0
    · subst hz
      rfl
    obtain ⟨id, hid⟩ := hmem hz hl
    rw [Spec.Timer.step, if_pos (show timer = 0 ∨ timer ∈ w.held from hl), decide_eq_true hz, World.settime, hid]
    rfl
  | delete timer =>
    refine iff_of_true ?_ (hstores nofun)
    by_cases hz : timer = 0
    · subst hz
      rfl
    obtain ⟨id, hid⟩ := hmem hz hl
    rw [Spec.Timer.step, if_pos (show timer = 0 ∨ timer ∈ w.held from hl), halTimerDelete, if_neg hz, hid]
    rfl
  | tick ns => exact iff_of_true rfl (hstores nofun)
  | expire timer =>
    obtain ⟨armed, ha, hle⟩ := hl
    obtain ⟨id, hid, harmed⟩ := Option.bind_eq_some_iff.mp ha
    refine iff_of_true ?_ (hstores nofun)
    simp only [Spec.Timer.step, hid, harmed, Option.bind_eq_bind, Option.bind_some, if_pos hle]
    rfl

/-- After every run the timer of a handle can expire exactly if its delay has
passed since it was started, and was not set since; it then expires once. -/
theorem expires_iff (hr : run (Spec.Timer.step port) (noTimer now) calls = some (w, hist)) (hm : timer ∈ w.held) :
    (∃ w', Spec.Timer.step port w (.expire timer) = some (w', .none)) ↔
      ∃ ms ns, SinceFor (Starts timer ms) (fun e => ¬ Sets timer e) Event.ns ns hist ∧
        0 < delay port ms ∧ delay port ms ≤ ns := by
  have h := run_keeps_inv hr
  constructor
  · rintro ⟨w', hs⟩
    obtain ⟨id, armed, hid, harmed, hle, -⟩ := expire_cases hs
    have ha : w.armed timer = some armed := by rw [World.armed, hid, Option.bind_some, harmed]; rfl
    obtain ⟨-, ms, ns, hs, hd, hdead⟩ := (h.armed timer hm armed).mp ha
    exact ⟨ms, ns, hs, hd, by omega⟩
  · rintro ⟨ms, ns, hs, hd, hle⟩
    have ha := (h.armed timer hm ⟨w.now - ns + delay port ms, 0⟩).mpr ⟨rfl, ms, ns, hs, hd, rfl⟩
    obtain ⟨id, hid, harmed⟩ := Option.bind_eq_some_iff.mp ha
    refine ⟨w.arm id none, ?_⟩
    have hdue : w.now - ns + delay port ms ≤ w.now := by omega
    simp only [Spec.Timer.step, hid, harmed, Option.bind_eq_bind, Option.bind_some, if_pos hdue, if_true]
    rfl

/-- A run of legal events has a value exactly if each creation that stores a
`timer_t` has a block. -/
theorem timers_defined (hl : Along (Spec.Timer.step port) Legal (noTimer now) calls) :
    (run (Spec.Timer.step port) (noTimer now) calls).isSome = true ↔ ∀ c ∈ calls, c.Stores port :=
  run_isSome_iff (fun _ _ _ _ _ h hs => Inv.step h hs) (fun _ _ _ h hl => step_isSome_iff h hl) (inv_noTimer now) hl

end

/-! ### One timer -/

/-- A timer is stopped and another deleted before they expire; the first is started
again and expires, and is then started for a second and a half, and due before. -/
def early : List Call :=
  [.create true ⟨0x10, some 7⟩, .create true ⟨0x20, some 8⟩, .start 0x10 200, .start 0x20 200, .stop 0x10,
    .delete 0x20, .start 0x10 1, .tick 1000, .expire 0x10, .start 0x10 1500, .tick 1000500000]

theorem expires_iff_early : ∃ w hist, run (step .jabsco) (noTimer 0) early = some (w, hist) ∧
    ((∃ w', step .jabsco w (.expire 0x10) = some (w', .none)) ↔
      ∃ ms ns, SinceFor (Starts 0x10 ms) (fun e => ¬ Sets 0x10 e) Event.ns ns hist ∧
        0 < delay .jabsco ms ∧ delay .jabsco ms ≤ ns) := by
  have hr : run (step .jabsco) (noTimer 0) early = some (_, _) := rfl
  exact ⟨_, _, hr, expires_iff hr (List.mem_singleton_self _)⟩

theorem timers_owned_early : ∃ w hist, run (step .jabsco) (noTimer 0) early = some (w, hist) ∧
    Owned w ∧ ∀ e ∈ hist, Returns e := by
  have hr : run (step .jabsco) (noTimer 0) early = some (_, _) := rfl
  exact ⟨_, _, hr, timers_owned hr⟩

/-- A creation with no memory, which `Vendors/Jabsco` does not check. -/
theorem timers_defined_null :
    let calls : List Call := [.create true ⟨0x10, some 7⟩, .delete 0x10, .create true ⟨0, some 8⟩]
    (run (step .jabsco) (noTimer 0) calls).isSome = true ↔ ∀ c ∈ calls, c.Stores .jabsco := by
  refine timers_defined ((along_cons_of_step rfl).mpr ⟨⟨by decide, fun _ hid => ?_⟩, (along_cons_of_step rfl).mpr
    ⟨.inr (List.mem_singleton_self _), ⟨by decide, fun _ hid => ?_⟩, fun _ _ _ => trivial⟩⟩)
  all_goals
    cases hid
    decide

end Linkkit.Proof.Timer
