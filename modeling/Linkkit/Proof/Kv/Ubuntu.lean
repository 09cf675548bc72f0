import Linkkit.Proof.Kv.Steps
import Mathlib.Data.Set.Finite.Lattice

/-!
# Runs without Del

The ubuntu port exports `HAL_Kv_Set` and `HAL_Kv_Get` only, so no slot is ever
emptied and the rows stay packed: the store is the map `RowMap`, call by call
(`rowMap_step`) and so run by run (`ubuntu_refines_rowMap`). `RowMap.finite`
says that the map is finite.
-/

namespace Linkkit.Proof.Kv

open Impl.Kv Spec.Kv

/-- A map with at most two keys of each hash value is finite. -/
theorem RowMap.finite (m : RowMap) : {k | (m.get k).isSome}.Finite := by
  refine Set.Finite.of_finite_fibers hashGen ?_ fun i _ => ?_
  · refine (Set.finite_lt_nat tableColSize).subset ?_
    rintro _ ⟨k, -, rfl⟩
    exact hashGen_lt k
  · by_contra hinf
    obtain ⟨l, hl, hcard⟩ := Set.Infinite.exists_subset_card_eq hinf 3
    obtain ⟨a, b, c, hab, hac, hbc, rfl⟩ := Finset.card_eq_three.mp hcard
    obtain ⟨⟨ha, hia⟩, ⟨hb, hib⟩, hc, hic⟩ :
        a ∈ _ ∧ b ∈ _ ∧ c ∈ _ := ⟨hl (by simp), hl (by simp), hl (by simp)⟩
    exact m.atMostTwo a ha ⟨b, c, hbc, hab.symm, hac.symm, hib.trans hia.symm, hic.trans hia.symm, hb, hc⟩

section

variable {s : KvState} {m : RowMap} {c : Call}

/-- The store holds exactly `m`, in packed rows. -/
def Refines (s : KvState) (m : RowMap) : Prop :=
  ∃ t, Repr s t ∧ Table.Exact hashGen t m.get ∧ ∀ i, Bucket.Packed (t i)

theorem fresh_refines (h : Fresh s) : Refines s RowMap.empty :=
  ⟨emptyTable, fresh_repr h, exact_emptyTable, packed_emptyTable⟩

/-- A call of the ubuntu port is the call on the map, with the same reply. -/
theorem rowMap_step (h : Refines s m) (hf : c.Fits) (hk : c.ShortKey) (hu : c.InUbuntu) (ha : c.Asks) :
    ∃ s', step s c = some (s', (m.step c).2) ∧ Refines s' (m.step c).1 := by
  obtain ⟨t, hr, he, hp⟩ := h
  obtain ⟨s', hs, hr'⟩ := step_repr hr hf
  refine ⟨s', ?_⟩
  cases c with
  | set k val len =>
    have hkey : storedKey k = k := storedKey_of_lt hk
    have hn := put_eq_none_iff he hr.wf k (stored val len)
    cases hput : Table.put hashGen t k (storedKey k) (stored val len) with
    | none =>
      obtain ⟨hm, h₂⟩ := hn.mp hput
      have hroom : ¬ m.Room k := fun h => h.elim (fun h => by simp [hm] at h) fun h => h h₂
      rw [tableStep_set_none hput] at hs hr'
      simp only [RowMap.step, hroom, dite_false]
      exact ⟨hs, t, hr', he, hp⟩
    | some t' =>
      have hroom : m.Room k := by
        by_contra h
        rw [RowMap.Room, not_or, not_not, Bool.not_eq_true, Option.isSome_eq_false_iff,
          Option.isNone_iff_eq_none] at h
        rw [hn.mpr h] at hput
        cases hput
      rw [tableStep_set_some hput] at hs hr'
      simp only [RowMap.step, hroom, dite_true]
      refine ⟨hs, t', hr', ?_, ?_⟩
      · rw [hkey] at hput
        exact he.put ((hp _).not_hidden k) hput
      · obtain ⟨b, hb, rfl⟩ := Table.put_eq_some hput
        exact Table.forall_bucket_update hp ((hp _).put hb)
  | get k buf n =>
    have hn : 0 < n.toInt := ha
    have hfind := he.find ((hp _).not_hidden k)
    simp only [tableStep, hn, if_true, hfind] at hs hr'
    cases hm : m.get k with
    | none =>
      simp only [hm] at hs hr'
      simp only [RowMap.step, hm]
      exact ⟨hs, t, hr', he, hp⟩
    | some v =>
      simp only [hm] at hs hr'
      simp only [RowMap.step, hm]
      exact ⟨hs, t, hr', he, hp⟩
  | del k => cases hu

/-- Every run of the ubuntu port from a fresh store, of keys of at most 127
bytes, has no fault and gives the replies of the map. -/
theorem ubuntu_refines_rowMap (hs : Fresh s) {calls : List Call}
    (hc : ∀ c ∈ calls, c.Fits ∧ c.ShortKey ∧ c.InUbuntu ∧ c.Asks) :
    ∃ s' m hist, run step s calls = some (s', hist) ∧
      run (fun m c => some (RowMap.step m c)) RowMap.empty calls = some (m, hist) ∧ Refines s' m := by
  refine run_sim ?_ (fresh_refines hs) hc
  exact fun s m c h hv => rowMap_step h hv.1 hv.2.1 hv.2.2.1 hv.2.2.2

end

/-- A Set and a Get of the empty key. -/
theorem ubuntu_refines_emptyKey : ∃ s m hist, run step ⟨false, (createHashFile {} none).2⟩
      [.set ⟨[], by simp⟩ [1, 2] 2, .get ⟨[], by simp⟩ [0] 1] = some (s, hist) ∧
    run (fun m c => some (RowMap.step m c)) RowMap.empty
      [.set ⟨[], by simp⟩ [1, 2] 2, .get ⟨[], by simp⟩ [0] 1] = some (m, hist) ∧ Refines s m :=
  ubuntu_refines_rowMap (by rw [Fresh]) (by decide)

end Linkkit.Proof.Kv
