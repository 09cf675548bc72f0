import Linkkit.Spec.Wait

/-!
# What the waits do

* `semaphoreWait_iff`: each turn of `HAL_SemaphoreWait` adds the timeout to the
  time of that turn, so there is one deadline exactly if the clock reads the
  same in each;
* `tcpWaits_iff`: `HAL_TCP_Read` and `HAL_TCP_Write` take what is left of their
  timeout from the wall clock, so no wait is longer than it exactly if the clock
  does not read less than it did first;
* `exact_iff`: which of the other calls ask for the milliseconds they are given.
-/

namespace Linkkit.Proof.Wait

open Impl.Net Impl.Wait Spec.Net Spec.Wait

/-! ## Milliseconds in words -/

theorem toNat_div_thousand (x : UInt32) : (x / 1000).toNat = x.toNat / 1000 := UInt32.toNat_div ..

theorem toNat_rem_mul (x : UInt32) {n : UInt32} (hn : n.toNat ≤ 1000000) :
    (x % 1000 * n).toNat = x.toNat % 1000 * n.toNat := by
  rw [UInt32.toNat_mul, UInt32.toNat_mod]
  have hlt : x.toNat % 1000 < 1000 := Nat.mod_lt _ (by decide)
  have hle : x.toNat % 1000 * n.toNat ≤ 999 * 1000000 := Nat.mul_le_mul (by omega) hn
  exact Nat.mod_eq_of_lt (by simpa using by omega)

/-! ## Semaphores -/

section

variable {timeoutMs : UInt32} {ts : Timespec} {turns : List SemTurn}

theorem nsecs_addTimeout (timeoutMs : UInt32) (ts : Timespec) :
    nsecs (addTimeout timeoutMs ts) = nsecs ts + timeoutMs.toNat * 1000000 := by
  have hrem := toNat_rem_mul timeoutMs (n := 1000000) (by decide)
  have hdiv := toNat_div_thousand timeoutMs
  have hsucc : (timeoutMs / 1000 + 1).toNat = timeoutMs.toNat / 1000 + 1 := by
    rw [UInt32.toNat_add, hdiv]
    exact Nat.mod_eq_of_lt (by have := timeoutMs.toNat_lt; simp; omega)
  unfold addTimeout nsecs
  dsimp only
  rw [hrem]
  split
  · rw [hsucc]
    simp
    omega
  · rw [UInt32.add_zero, hdiv]
    simp
    omega

theorem normal_addTimeout (timeoutMs : UInt32) (h : NormalTimespec ts) : NormalTimespec (addTimeout timeoutMs ts) := by
  have hrem := toNat_rem_mul timeoutMs (n := 1000000) (by decide)
  obtain ⟨h₀, h₁⟩ := h
  unfold addTimeout NormalTimespec
  dsimp only
  rw [hrem]
  split
  · simp at *
    omega
  · simp at *
    omega

/-- A time that is read is waited for, with the timeout. -/
theorem semTurn_waits (timeoutMs : UInt32) (turn : SemTurn) (st : SemState) :
    (semTurn timeoutMs turn st).2.waits = st.waits ++ turn.now.toList.map (addTimeout timeoutMs) := by
  unfold semTurn
  cases turn.now with
  | none => exact (List.append_nil _).symm
  | some ts => rfl

theorem halSemaphoreWait_waits {platformWaitInfinite : UInt32} (hne : platformWaitInfinite ≠ timeoutMs)
    (turns : List SemTurn) : (halSemaphoreWait platformWaitInfinite timeoutMs turns).2 =
      (readings timeoutMs turns).map (addTimeout timeoutMs) := by
  have hw : (loop (semTurn timeoutMs) turns ⟨[], 0⟩).2.waits = [] ++
      (steps (semTurn timeoutMs) turns ⟨[], 0⟩).flatMap fun p => p.1.now.toList.map (addTimeout timeoutMs) :=
    loop_appends SemState.waits (semTurn_waits timeoutMs) turns ⟨[], 0⟩
  rw [List.nil_append] at hw
  rw [halSemaphoreWait, if_neg hne, readings, List.map_flatMap, ← hw]
  split
  · rename_i st hl
    rw [hl]
  · rename_i st hl
    rw [hl]

theorem normal_ext {ts' : Timespec} (h : NormalTimespec ts) (h' : NormalTimespec ts') : nsecs ts = nsecs ts' ↔ ts = ts' := by
  refine ⟨fun he => ?_, congrArg nsecs⟩
  obtain ⟨s, n⟩ := ts
  obtain ⟨s', n'⟩ := ts'
  simp only [NormalTimespec, nsecs, Timespec.mk.injEq] at *
  omega

/-- The waits have one deadline, the first time that is read and the timeout,
exactly if every turn reads that time. -/
theorem semaphoreWait_iff {platformWaitInfinite : UInt32} (hne : platformWaitInfinite ≠ timeoutMs)
    (hclock : ∀ turn ∈ turns, ∀ ts ∈ turn.now, NormalTimespec ts) :
    OneDeadline timeoutMs (readings timeoutMs turns) (halSemaphoreWait platformWaitInfinite timeoutMs turns).2 ↔
      ∀ first ∈ (readings timeoutMs turns).head?, ∀ ts ∈ readings timeoutMs turns, ts = first := by
  have hnormal : ∀ ts ∈ readings timeoutMs turns, NormalTimespec ts := by
    intro ts hts
    obtain ⟨p, hp, hnow⟩ := List.mem_flatMap.mp hts
    exact hclock p.1 (fst_mem_of_mem_steps hp) ts (Option.mem_toList.mp hnow)
  rw [halSemaphoreWait_waits hne, OneDeadline]
  refine forall₂_congr fun first hfirst => ?_
  rw [List.forall_mem_map]
  refine forall₂_congr fun ts hts => ?_
  rw [and_iff_right (normal_addTimeout timeoutMs (hnormal ts hts)), nsecs_addTimeout,
    ← normal_ext (hnormal ts hts) (hnormal first (List.mem_of_mem_head? hfirst))]
  omega

end

/-- A wait that is interrupted before the clock goes on. -/
theorem semaphoreWait_interrupted :
    let turns : List SemTurn := [⟨some ⟨100, 999000000⟩, ⟨-1, eintr⟩⟩, ⟨some ⟨100, 999000000⟩, ⟨0, 0⟩⟩]
    OneDeadline 1500 (readings 1500 turns) (halSemaphoreWait (-1) 1500 turns).2 ↔
      ∀ first ∈ (readings 1500 turns).head?, ∀ ts ∈ readings 1500 turns, ts = first :=
  semaphoreWait_iff (by decide) (by decide)

/-- A wait that is interrupted after a second goes on until a second after its
deadline. -/
theorem semaphoreWait_longer :
    let turns : List SemTurn := [⟨some ⟨100, 0⟩, ⟨-1, eintr⟩⟩, ⟨some ⟨101, 0⟩, ⟨-1, 110⟩⟩]
    (halSemaphoreWait (-1) 2000 turns).2 = [⟨102, 0⟩, ⟨103, 0⟩] ∧
      ¬ OneDeadline 2000 (readings 2000 turns) (halSemaphoreWait (-1) 2000 turns).2 := by
  refine ⟨rfl, fun h => ?_⟩
  have hlast := (h ⟨100, 0⟩ rfl ⟨103, 0⟩ (by decide)).2
  exact absurd hlast (by decide)

/-! ## Reading and writing -/

theorem lt_of_reading {t : UInt64} (h : Reading t) : t.toNat < 0x8000000000000000 := by
  obtain ⟨tv, h₀, hlt, ⟨hu, hu'⟩, rfl⟩ := h
  have hdiv : tv.tvUsec.tdiv 1000 = tv.tvUsec / 1000 := Int.tdiv_eq_ediv_of_nonneg hu
  have hnat : (linuxGetTimeMs tv).toNat = ((tv.tvSec * 1000 + tv.tvUsec.tdiv 1000) % 0x10000000000000000).toNat %
      0x10000000000000000 := UInt64.toNat_ofNat'
  rw [hdiv, Int.emod_eq_of_lt (by omega) (by omega)] at hnat
  omega

theorem toNat_linuxTimeLeft (tEnd tNow : UInt64) : (linuxTimeLeft tEnd tNow).toNat = tEnd.toNat - tNow.toNat := by
  unfold linuxTimeLeft
  split
  · rename_i h
    exact UInt64.toNat_sub_of_le _ _ (UInt64.le_of_lt h)
  · rename_i h
    rw [gt_iff_lt, UInt64.lt_iff_toNat_lt] at h
    exact (Nat.sub_eq_zero_of_le (Nat.not_lt.mp h)).symm

/-- A turn waits for no longer than the timeout exactly if it reads no time
before the first. -/
theorem selectTimeout_iff {now t : UInt64} (hnow : Reading now) (timeoutMs : UInt32) :
    (∀ tv ∈ selectTimeout (now + timeoutMs.toUInt64) t, Within timeoutMs tv) ↔ now ≤ t := by
  have hend : (now + timeoutMs.toUInt64).toNat = now.toNat + timeoutMs.toNat := by
    have := lt_of_reading hnow
    have := timeoutMs.toNat_lt
    rw [UInt64.toNat_add, UInt32.toNat_toUInt64]
    omega
  have hleft := toNat_linuxTimeLeft (now + timeoutMs.toUInt64) t
  rw [hend] at hleft
  rw [UInt64.le_iff_toNat_le, selectTimeout]
  generalize linuxTimeLeft (now + timeoutMs.toUInt64) t = tLeft at hleft ⊢
  split
  · rename_i h₀
    rw [← h₀, UInt64.toNat_zero] at hleft
    exact iff_of_true nofun (by omega)
  · rename_i h₀
    have hpos : tLeft.toNat ≠ 0 := fun h => h₀ (UInt64.toNat_inj.mp h.symm)
    have hrem : (tLeft % 1000 * 1000).toNat = tLeft.toNat % 1000 * 1000 := by
      rw [UInt64.toNat_mul, UInt64.toNat_mod]
      exact Nat.mod_eq_of_lt (by simp; omega)
    have hdiv : (tLeft / 1000).toNat = tLeft.toNat / 1000 := UInt64.toNat_div ..
    simp only [Option.mem_def, Option.some.injEq, forall_eq', Within, NormalTimeval, usecs, hrem, hdiv]
    simp
    omega

/-- No wait of `HAL_TCP_Read` and `HAL_TCP_Write` is longer than the timeout,
exactly if no turn that they make reads a time before the first. -/
theorem tcpWaits_iff (fd : UInt64) (buf : List Byte) (len timeoutMs : UInt32) {now : UInt64} (hnow : Reading now) :
    (∀ turns : List ReadTurn, (∀ tv ∈ readTimeouts fd buf len timeoutMs now turns, Within timeoutMs tv) ↔
      ∀ p ∈ readSteps fd buf len timeoutMs now turns, now ≤ p.1.now) ∧
    ∀ turns : List WriteTurn, (∀ tv ∈ writeTimeouts fd buf len timeoutMs now turns, Within timeoutMs tv) ↔
      ∀ p ∈ writeSteps fd buf len timeoutMs now turns, now ≤ p.1.now := by
  refine ⟨fun turns => ?_, fun turns => ?_⟩
  · rw [readTimeouts, List.forall_mem_filterMap]
    exact forall₂_congr fun p _ => selectTimeout_iff hnow timeoutMs
  · rw [writeTimeouts, List.forall_mem_filterMap]
    exact forall₂_congr fun p _ => selectTimeout_iff hnow timeoutMs

theorem tcpWaits_steady :
    (∀ turns : List ReadTurn,
      (∀ tv ∈ readTimeouts 3 [0, 0] 2 1000 (linuxGetTimeMs ⟨2000, 0⟩) turns, Within 1000 tv) ↔
        ∀ p ∈ readSteps 3 [0, 0] 2 1000 (linuxGetTimeMs ⟨2000, 0⟩) turns, linuxGetTimeMs ⟨2000, 0⟩ ≤ p.1.now) ∧
    ∀ turns : List WriteTurn,
      (∀ tv ∈ writeTimeouts 3 [0, 0] 2 1000 (linuxGetTimeMs ⟨2000, 0⟩) turns, Within 1000 tv) ↔
        ∀ p ∈ writeSteps 3 [0, 0] 2 1000 (linuxGetTimeMs ⟨2000, 0⟩) turns, linuxGetTimeMs ⟨2000, 0⟩ ≤ p.1.now :=
  tcpWaits_iff 3 [0, 0] 2 1000 ⟨⟨2000, 0⟩, by decide, by decide, by decide, rfl⟩

/-- The clock is set back by a quarter of an hour after the first reading, and
the wait for a second is as much longer. -/
theorem tcpWaits_set_back :
    readTimeouts 3 [0, 0] 2 1000 (linuxGetTimeMs ⟨2000, 0⟩)
        [⟨linuxGetTimeMs ⟨1100, 500000⟩, ⟨0, 0⟩, .closed⟩] = [⟨900, 500000⟩] ∧
      ¬ (∀ tv ∈ readTimeouts 3 [0, 0] 2 1000 (linuxGetTimeMs ⟨2000, 0⟩)
        [⟨linuxGetTimeMs ⟨1100, 500000⟩, ⟨0, 0⟩, .closed⟩], Within 1000 tv) ∧
      ¬ (∀ tv ∈ writeTimeouts 3 [0, 0] 2 1000 (linuxGetTimeMs ⟨2000, 0⟩)
        [⟨linuxGetTimeMs ⟨1100, 500000⟩, ⟨0, 0⟩, true, ⟨0, 0⟩, 0⟩], Within 1000 tv) := by
  decide

/-! ## Milliseconds -/

theorem usecs_timevalOf (timeoutMs : UInt32) :
    NormalTimeval (timevalOf timeoutMs) ∧ usecs (timevalOf timeoutMs) = timeoutMs.toNat * 1000 := by
  have hrem := toNat_rem_mul timeoutMs (n := 1000) (by decide)
  unfold timevalOf NormalTimeval usecs
  dsimp only
  rw [hrem, toNat_div_thousand]
  simp
  omega

/-- A timeout of `select` that is not NULL is the one given. -/
theorem for_timevalOf (timeoutMs : UInt32) : (Asked.select (some (timevalOf timeoutMs))).For timeoutMs.toNat :=
  usecs_timevalOf timeoutMs

/-- `usleep` is given 32 bits of the microseconds. -/
theorem sleepMs_iff (ms : UInt32) : (Asked.usleep (halSleepMs ms)).For ms.toNat ↔ ms.toNat ≤ 4294967 := by
  have hmul : (halSleepMs ms).toNat = 1000 * ms.toNat % 4294967296 := UInt32.toNat_mul ..
  rw [Asked.For, hmul]
  omega

theorem toInt_div_thousand {ms : Int32} (h : 0 ≤ ms.toInt) : (ms / 1000).toInt = ms.toInt / 1000 := by
  rw [Int32.toInt_div_of_ne_right ms 1000 (by decide)]
  exact Int.tdiv_eq_ediv_of_nonneg h

theorem toInt_mod_thousand {ms : Int32} (h : 0 ≤ ms.toInt) : (ms % 1000).toInt = ms.toInt % 1000 := by
  rw [Int32.toInt_mod]
  exact Int.tmod_eq_emod_of_nonneg h

theorem rem_mul_mem (ms : Int32) {k : Int32} (hk : 0 ≤ k.toInt) (hk' : k.toInt ≤ 1000000) :
    0 ≤ ms.toInt % 1000 * k.toInt ∧ ms.toInt % 1000 * k.toInt < 1000000000 := by
  have hpos : 0 ≤ ms.toInt % 1000 := Int.emod_nonneg _ (by decide)
  have hle : ms.toInt % 1000 ≤ 999 := Int.le_of_lt_add_one (Int.emod_lt_of_pos _ (by decide))
  have hmul : ms.toInt % 1000 * k.toInt ≤ 999 * 1000000 := Int.mul_le_mul hle hk' hk (by decide)
  exact ⟨Int.mul_nonneg hpos hk, by omega⟩

theorem toInt_rem_mul {ms k : Int32} (h : 0 ≤ ms.toInt) (hk : 0 ≤ k.toInt) (hk' : k.toInt ≤ 1000000) :
    (ms % 1000 * k).toInt = ms.toInt % 1000 * k.toInt := by
  obtain ⟨hge, hlt⟩ := rem_mul_mem ms hk hk'
  rw [Int32.toInt_mul, toInt_mod_thousand h]
  exact Int.bmod_eq_of_le (by omega) (by omega)

/-- A timer for which a millisecond counts `k` nanoseconds is set to the
milliseconds exactly if they are whole seconds or `k` is a million. -/
theorem timerStart_iff {k ms : Int32} (h : 0 ≤ ms.toInt) (hk : 0 ≤ k.toInt) (hk' : k.toInt ≤ 1000000)
    (timer : Bool) (settime : Int32) :
    (∀ ts ∈ (timerStart k timer ms settime).2, (Asked.timer ts.itValue).For ms.toInt) ↔
      (timer → ms % 1000 = 0 ∨ k.toInt = 1000000) := by
  cases timer with
  | false => exact iff_of_true nofun nofun
  | true =>
    obtain ⟨hge, hlt⟩ := rem_mul_mem ms hk hk'
    have hmod : ms % 1000 = 0 ↔ ms.toInt % 1000 = 0 := by
      rw [← Int32.toInt_inj, toInt_mod_thousand h, Int32.toInt_zero]
    have hexact : ms.toInt % 1000 * k.toInt = ms.toInt % 1000 * 1000000 ↔ ms.toInt % 1000 = 0 ∨ k.toInt = 1000000 := by
      by_cases h₀ : ms.toInt % 1000 = 0
      · exact iff_of_true (by rw [h₀, Int.zero_mul, Int.zero_mul]) (.inl h₀)
      · rw [or_iff_right h₀, Int.mul_eq_mul_left_iff h₀]
    simp only [timerStart, Bool.not_true, Bool.false_eq_true, if_false, Option.mem_def, Option.some.injEq,
      forall_eq', Asked.For, NormalTimespec, nsecs, toInt_div_thousand h, toInt_rem_mul h hk hk', hmod, ← hexact, true_imp_iff]
    generalize ms.toInt % 1000 * k.toInt = n at hge hlt ⊢
    omega

theorem readTimeout_iff (pSocket : Int64) (pData : Bool) (timeout : UInt32) (select : Ret) (read : Int32) :
    (∀ tv ∈ (halUdpReadTimeout pSocket pData timeout select read).2, (Asked.select tv).For timeout.toNat) ↔
      (0 < pSocket → pData → timeout ≠ 0) := by
  unfold halUdpReadTimeout
  split
  · rename_i hnull
    refine iff_of_true nofun fun hs hd => ?_
    rcases hnull with rfl | hnull
    · exact absurd hs (by decide)
    · rw [hd] at hnull
      cases hnull
  rename_i hnull
  rw [not_or, Bool.not_eq_true, Bool.not_eq_false'] at hnull
  split
  · rename_i hneg
    exact iff_of_true nofun fun hs => absurd hs (Int64.lt_asymm hneg)
  rename_i hneg
  have hpos : 0 < pSocket := Int64.lt_of_le_of_ne (Int64.not_lt.mp hneg) hnull.1
  rw [List.forall_mem_singleton, imp_iff_right hpos, imp_iff_right hnull.2]
  split
  · rename_i h₀
    exact iff_of_false id fun hne => hne h₀
  · rename_i h₀
    exact iff_of_true (for_timevalOf timeout) h₀

/-- A call asks for the milliseconds that it is given exactly if the way it
counts them fits them. -/
theorem exact_iff (c : Call) (hms : 0 ≤ c.ms) : c.Exact ↔ c.Fits := by
  have hselect (timeoutMs : UInt32) : ∀ a ∈ [some (timevalOf timeoutMs)].map Asked.select, a.For timeoutMs.toNat :=
    List.forall_mem_singleton.mpr (for_timevalOf timeoutMs)
  cases c with
  | sleepMs ms => exact List.forall_mem_singleton.trans (sleepMs_iff ms)
  | timerStart port timer ms settime =>
    have htimer {k : Int32} (hk : 0 ≤ k.toInt) (hk' : k.toInt ≤ 1000000) :
        (∀ a ∈ (timerStart k timer ms settime).2.toList.map fun ts => Asked.timer ts.itValue, a.For ms.toInt) ↔
          (timer → ms % 1000 = 0 ∨ k.toInt = 1000000) := by
      rw [List.forall_mem_map, ← timerStart_iff hms hk hk' timer settime]
      simp only [Option.mem_toList, Option.mem_def]
    cases port with
    | ubuntu => exact (htimer (by decide) (by decide)).trans (iff_of_true (fun _ => .inr rfl) trivial)
    | jabsco =>
      refine (htimer (by decide) (by decide)).trans ?_
      exact forall_congr' fun _ => or_iff_left (by decide)
  | udpReadTimeout pSocket pData timeout select read =>
    exact List.forall_mem_map.trans (readTimeout_iff pSocket pData timeout select read)
  | udpRecv timeoutMs select read => exact iff_of_true (hselect timeoutMs) trivial
  | udpRecvfrom timeoutMs select recvfrom => exact iff_of_true (hselect timeoutMs) trivial
  | udpSend timeoutMs select send => exact iff_of_true (hselect timeoutMs) trivial
  | udpSendto found timeoutMs select sendto =>
    cases found with
    | false => exact iff_of_true nofun trivial
    | true => exact iff_of_true (hselect timeoutMs) trivial

/-- A timer of half a second more than a minute, in `Vendors/Jabsco`. -/
theorem exact_timer : (Call.timerStart .jabsco true 60500 0).Exact ↔ (Call.timerStart .jabsco true 60500 0).Fits :=
  exact_iff _ (by decide)

/-- Half a second is half a millisecond for a timer of `Vendors/Jabsco`, 5000
seconds are less than 706 for `usleep`, and no wait is one for ever. -/
theorem not_exact : ¬ (Call.timerStart .jabsco true 500 0).Exact ∧ ¬ (Call.sleepMs 5000000).Exact ∧
    ¬ (Call.udpReadTimeout 3 true 0 ⟨0, 0⟩ 0).Exact := by
  refine ⟨fun h => ?_, fun h => ?_, fun h => h _ List.mem_cons_self⟩
  · have hns := (h _ List.mem_cons_self).2
    exact absurd hns (by decide)
  · have hus := h _ List.mem_cons_self
    exact absurd hus (by decide : ¬ (((halSleepMs 5000000).toNat : Int) = (5000000 : UInt32).toNat * 1000))

end Linkkit.Proof.Wait
