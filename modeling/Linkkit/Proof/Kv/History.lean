import Linkkit.Spec.Kv

/-!
# Current values, event by event

`current h` is the map of the keys to their current values after the history
`h`, one event at a time (`current_append`); it is what `Current` says
(`current_eq_some`), and it has no value of a `Deleted` key (`current_deleted`).
-/

namespace Linkkit.Proof.Kv

open Impl.Kv Spec.Kv

/-- The current values after one more event. -/
def valueStep (m : CString → Option (List Byte)) : Event → CString → Option (List Byte)
  | (.set k val len, .set ret) =>
    if ret = 0 then Function.update m k (some (val.take (min len.toInt.toNat itemMaxValLen))) else m
  | (.del k, _) => Function.update m k none
  | _ => m

/-- The current values after a history. -/
def current (h : List Event) : CString → Option (List Byte) := h.foldl valueStep fun _ => none

@[simp] theorem current_nil : current [] = fun _ => none := rfl

@[simp] theorem current_append (h : List Event) (e : Event) :
    current (h ++ [e]) = valueStep (current h) e := by
  simp [current]

variable {m : CString → Option (List Byte)} {h : List Event} {e : Event} {k : CString} {v : List Byte}

theorem setOk_iff : SetOk k e ↔ ∃ val len, e = (.set k val len, .set 0) := by
  obtain ⟨c, r⟩ := e
  constructor
  · rintro ⟨hc, hr⟩
    cases c with
    | set k' val len => cases hc; cases hr; exact ⟨val, len, rfl⟩
    | get => cases hc
    | del => cases hc
  · rintro ⟨val, len, he⟩
    cases he
    exact ⟨rfl, rfl⟩

/-- An event that neither sets nor deletes `k`. -/
theorem valueStep_other (hs : ¬ SetOk k e) (hd : ¬ e.1.Dels k) : valueStep m e k = m k := by
  obtain ⟨c, r⟩ := e
  cases c with
  | set k' val len =>
    cases r with
    | set ret =>
      by_cases hret : ret = 0
      · subst hret
        have hk : k ≠ k' := fun he => hs ⟨he.symm, rfl⟩
        simp only [valueStep, if_true, Function.update_of_ne hk]
      · simp only [valueStep, hret, if_false]
    | get => rfl
    | del => rfl
  | get => rfl
  | del k' =>
    have hk : k ≠ k' := fun he => hd he.symm
    cases r <;> exact Function.update_of_ne hk _ _

/-- A deleted key has no value. -/
theorem valueStep_del (hd : e.1.Dels k) : valueStep m e k = none := by
  obtain ⟨c, r⟩ := e
  cases c with
  | set => cases hd
  | get => cases hd
  | del k' => cases hd; cases r <;> exact Function.update_self ..

theorem valueStep_none (hs : ¬ SetOk k e) (hm : m k = none) : valueStep m e k = none := by
  by_cases hd : e.1.Dels k
  · exact valueStep_del hd
  · rw [valueStep_other hs hd, hm]

theorem valueStep_set (val : List Byte) (len : Int32) :
    valueStep m (.set k val len, .set 0) k = some (val.take (min len.toInt.toNat itemMaxValLen)) := by
  simp [valueStep]

theorem current_eq_some : current h k = some v ↔ Current h k v := by
  induction h using List.reverseRecOn with
  | nil => simp [Current]
  | append_singleton h e ih =>
    rw [current_append, Current, since_append_singleton, ← Current, ← ih]
    by_cases hs : SetOk k e
    · obtain ⟨val, len, rfl⟩ := setOk_iff.mp hs
      rw [valueStep_set]
      simp only [hs, not_true_eq_false, false_and, and_false, or_false, Option.some.injEq]
      constructor
      · exact fun he => ⟨val, len, rfl, he.symm⟩
      · rintro ⟨val', len', he, rfl⟩
        cases he; rfl
    · have hne : ¬ ∃ val len, e = (.set k val len, .set 0) ∧
          v = val.take (min len.toInt.toNat itemMaxValLen) :=
        fun ⟨val, len, he, _⟩ => hs (setOk_iff.mpr ⟨val, len, he⟩)
      rw [or_iff_right hne]
      by_cases hd : e.1.Dels k
      · simp [valueStep_del hd, hd]
      · simp [valueStep_other hs hd, hs, hd]

theorem current_eq_none : current h k = none ↔ ¬ Live h k := by
  rw [Option.eq_none_iff_forall_ne_some, Live, not_exists]
  exact forall_congr' fun v => not_congr current_eq_some

theorem current_isSome : (current h k).isSome ↔ Live h k := by
  rw [Option.isSome_iff_exists, Live]
  exact exists_congr fun v => current_eq_some

/-- Where every Set that fails is of a key without a value, the latest Set's
value is the current one. -/
theorem latestSet_append (hl : ∀ k v, LatestSet h k v ↔ current h k = some v) (hsmall : e.1.SmallValue)
    (hfail : ∀ k, e.1.Sets k → ¬ SetOk k e → current h k = none) (k : CString) (v : List Byte) :
    LatestSet (h ++ [e]) k v ↔ current (h ++ [e]) k = some v := by
  rw [LatestSet, since_append_singleton, ← LatestSet, hl, current_append]
  by_cases hok : SetOk k e
  · obtain ⟨val, len, rfl⟩ := setOk_iff.mp hok
    have hmin : min len.toInt.toNat itemMaxValLen = len.toInt.toNat := by
      have hs : len.toInt ≤ itemMaxValLen := hsmall
      omega
    rw [valueStep_set, hmin, Option.some.injEq, or_iff_left (fun hn => hn.2.1 hok.1)]
    exact ⟨fun ⟨val', len', he, hv⟩ => by cases he; exact hv.symm, fun hv => ⟨val, len, rfl, hv.symm⟩⟩
  · have hne : ¬ ∃ val len, e = (.set k val len, .set 0) ∧ v = val.take len.toInt.toNat :=
      fun ⟨val, len, he, _⟩ => hok (setOk_iff.mpr ⟨val, len, he⟩)
    rw [or_iff_right hne]
    by_cases hs : e.1.Sets k
    · simp [hs, valueStep_none hok (hfail k hs hok)]
    by_cases hd : e.1.Dels k
    · simp [hd, valueStep_del hd]
    · simp [hs, hd, valueStep_other hok hd]

theorem current_deleted (hd : Deleted h k) : current h k = none := by
  induction h using List.reverseRecOn with
  | nil => rfl
  | append_singleton h e ih =>
    rw [current_append]
    rcases hd with hd | hd
    · exact valueStep_none (hd e (by simp)) (ih (.inl fun e' he' => hd e' (by simp [he'])))
    · rcases since_append_singleton.mp hd with rfl | ⟨hd, hs⟩
      · exact Function.update_self ..
      · exact valueStep_none hs (ih (.inr hd))

end Linkkit.Proof.Kv
