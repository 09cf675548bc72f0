import Linkkit.Framework.Table

/-!
# Puts that are not atomic

Parties that each put one key into a shared table: a party reads the key's
bucket, puts the key into its copy, and writes the copy back; before that it
may clear buckets (`Puts.Step`). A step `Clobbers` if it clears the bucket that
another party has written, or reads the bucket that another one has read and
not written yet.

* `Sound.step`: without such a step every key that was written is found;
* `Lost.step`, `New.lost`: of two parties, such a step loses the key of one
  for good.
-/

namespace Linkkit

/-- How far a party is with its put. -/
inductive Phase where
  | before
  | writing
  | written
  | failed
deriving DecidableEq

/-- What a step of a party does. -/
inductive Act (ι : Type*) where
  | skip
  | clear (i : ι)
  | fail
  | read
  | write

/-- The table, and each party's phase and copy of its bucket. -/
structure Puts (τ ι κ ν : Type*) where
  phase : τ → Phase
  table : Table ι κ ν
  copy : τ → List (Slot κ ν)

namespace Puts

open Bucket

variable {τ ι κ ν : Type*} {p p' : Puts τ ι κ ν} {t : τ} {i : ι} {b : List (Slot κ ν)} {x : Phase}

section

variable [DecidableEq τ]

/-- Party `t` is in phase `x` now. -/
def moveTo (p : Puts τ ι κ ν) (t : τ) (x : Phase) : Puts τ ι κ ν :=
  { p with phase := Function.update p.phase t x }

/-- Party `t` has the copy `b` now. -/
def hold (p : Puts τ ι κ ν) (t : τ) (b : List (Slot κ ν)) : Puts τ ι κ ν :=
  { p with copy := Function.update p.copy t b }

@[simp] theorem moveTo_table : (p.moveTo t x).table = p.table := rfl
@[simp] theorem moveTo_copy : (p.moveTo t x).copy = p.copy := rfl
@[simp] theorem hold_phase : (p.hold t b).phase = p.phase := rfl
@[simp] theorem hold_table : (p.hold t b).table = p.table := rfl
@[simp] theorem hold_copy_self : (p.hold t b).copy t = b := Function.update_self ..

theorem hold_copy_of_ne {u : τ} (h : u ≠ t) : (p.hold t b).copy u = p.copy u :=
  Function.update_of_ne h ..

theorem phase_moveTo {u : τ} {y : Phase} :
    (p.moveTo t x).phase u = y ↔ u = t ∧ x = y ∨ u ≠ t ∧ p.phase u = y := by
  show Function.update p.phase t x u = y ↔ _
  rw [Function.update_apply]
  split <;> rename_i h <;> simp [h]

theorem moveTo_phase_eq : p.moveTo t (p.phase t) = p := by
  rw [moveTo, Function.update_eq_self]

theorem hold_copy_eq : p.hold t (p.copy t) = p := by
  rw [hold, Function.update_eq_self]

@[simp] theorem moveTo_phase_self : (p.moveTo t x).phase t = x := Function.update_self ..

theorem moveTo_phase_of_ne {u : τ} (h : u ≠ t) : (p.moveTo t x).phase u = p.phase u :=
  Function.update_of_ne h ..

/-- A party in another phase than the one that moved. -/
theorem phase_of_moveTo {u : τ} {y : Phase} (hu : (p.moveTo t x).phase u = y) (hy : y ≠ x) :
    u ≠ t ∧ p.phase u = y :=
  (phase_moveTo.mp hu).resolve_left fun he => hy he.2.symm

end

theorem ne_of_phase {u : τ} {y : Phase} (hu : p.phase u = y) (ht : p.phase t = x) (hy : y ≠ x) : u ≠ t :=
  fun he => hy (by rw [← hu, he, ht])

section

variable [DecidableEq ι]

/-- Bucket `i` is `b` now. -/
def store (p : Puts τ ι κ ν) (i : ι) (b : List (Slot κ ν)) : Puts τ ι κ ν :=
  { p with table := Function.update p.table i b }

@[simp] theorem store_phase : (p.store i b).phase = p.phase := rfl
@[simp] theorem store_copy : (p.store i b).copy = p.copy := rfl
@[simp] theorem store_table_self : (p.store i b).table i = b := Function.update_self ..

theorem store_table_of_ne {j : ι} (h : j ≠ i) : (p.store i b).table j = p.table j :=
  Function.update_of_ne h ..

end

variable [DecidableEq τ] [DecidableEq ι] [DecidableEq κ] (hash : κ → ι) (kept : κ → κ) (key : τ → κ)
  (val : τ → ν)

/-- A step of party `t`. -/
inductive Step (p : Puts τ ι κ ν) (t : τ) : Act ι → Puts τ ι κ ν → Prop where
  | skip : Step p t .skip p
  | clear (h : p.phase t = .before) (i : ι) (n : ℕ) : Step p t (.clear i) (p.store i (List.replicate n none))
  | fail (h : p.phase t = .before) : Step p t .fail (p.moveTo t .failed)
  | read (h : p.phase t = .before) {b : List (Slot κ ν)}
    (hb : put (key t) (kept (key t)) (val t) (p.table (hash (key t))) = some b) :
    Step p t .read ((p.hold t b).moveTo t .writing)
  | write (h : p.phase t = .writing) :
    Step p t .write ((p.store (hash (key t)) (p.copy t)).moveTo t .written)

/-- The step loses what another party has written, or will. -/
def Clobbers (p : Puts τ ι κ ν) (t : τ) : Act ι → Prop
  | .clear i => ∃ u, u ≠ t ∧ p.phase u = .written ∧ hash (key u) = i
  | .read => ∃ u, u ≠ t ∧ p.phase u = .writing ∧ hash (key u) = hash (key t)
  | _ => False

/-- Every key that was written is found, also after the writes to come. -/
structure Sound (p : Puts τ ι κ ν) : Prop where
  found : ∀ t, p.phase t = .written → Table.find hash p.table (key t) = some (val t)
  copied : ∀ t, p.phase t = .writing → find (key t) (p.copy t) = some (val t)
  seen : ∀ t u, p.phase t = .writing → p.phase u = .written → hash (key t) = hash (key u) →
    find (key u) (p.copy t) = some (val u)
  alone : ∀ t u, p.phase t = .writing → p.phase u = .writing → hash (key t) = hash (key u) → t = u

/-- Party `t` has not written, and not given up. -/
def Pending (p : Puts τ ι κ ν) (t : τ) : Prop := p.phase t = .before ∨ p.phase t = .writing

/-- The key of a pending party is in no bucket, and in no other party's
copy. -/
structure New (p : Puts τ ι κ ν) : Prop where
  table : ∀ t, p.Pending t → ∀ i, key t ∉ keys (p.table i)
  copy : ∀ t u, p.Pending t → u ≠ t → p.phase u = .writing → key t ∉ keys (p.copy u)

variable {hash kept key val} {a : Act ι}

/-! ## Steps that clobber nothing -/

omit [DecidableEq τ] in
theorem Sound.clear (h : Sound hash key val p) (hp : p.phase t = .before)
    (hc : ¬ Clobbers hash key p t (.clear i)) (b : List (Slot κ ν)) : Sound hash key val (p.store i b) where
  found u hu := by
    rw [Table.find, store_table_of_ne fun he => hc ⟨u, ne_of_phase hu hp (by decide), hu, he⟩]
    exact h.found u hu
  copied := h.copied
  seen := h.seen
  alone := h.alone

omit [DecidableEq ι] in
theorem Sound.fail (h : Sound hash key val p) : Sound hash key val (p.moveTo t .failed) where
  found u hu := h.found u (phase_of_moveTo hu nofun).2
  copied u hu := h.copied u (phase_of_moveTo hu nofun).2
  seen u v hu hv := h.seen u v (phase_of_moveTo hu nofun).2 (phase_of_moveTo hv nofun).2
  alone u v hu hv := h.alone u v (phase_of_moveTo hu nofun).2 (phase_of_moveTo hv nofun).2

omit [DecidableEq ι] in
theorem Sound.read (h : Sound hash key val p) (hkey : Function.Injective key)
    (hb : put (key t) (key t) (val t) (p.table (hash (key t))) = some b)
    (hc : ¬ Clobbers hash key p t .read) : Sound hash key val ((p.hold t b).moveTo t .writing) where
  found u hu := h.found u (phase_of_moveTo hu nofun).2
  copied u hu := by
    rw [moveTo_copy]
    obtain ⟨rfl, -⟩ | ⟨hut, hu⟩ := phase_moveTo.mp hu
    · rw [hold_copy_self]
      exact (found_after_put hb).1
    · rw [hold_copy_of_ne hut]
      exact h.copied u hu
  seen u v hu hv hh := by
    obtain ⟨hvt, hv⟩ := phase_of_moveTo hv nofun
    rw [moveTo_copy]
    obtain ⟨rfl, -⟩ | ⟨hut, hu⟩ := phase_moveTo.mp hu
    · have hf := h.found v hv
      rw [Table.find, ← hh] at hf
      rw [hold_copy_self]
      exact find_put_of_ne hb (hkey.ne hvt) hf
    · rw [hold_copy_of_ne hut]
      exact h.seen u v hu hv hh
  alone u v hu hv hh := by
    obtain ⟨rfl, -⟩ | ⟨hut, hu⟩ := phase_moveTo.mp hu
    · obtain ⟨rfl, -⟩ | ⟨hvt, hv⟩ := phase_moveTo.mp hv
      · rfl
      · exact absurd ⟨v, hvt, hv, hh.symm⟩ hc
    · obtain ⟨rfl, -⟩ | ⟨hvt, hv⟩ := phase_moveTo.mp hv
      · exact absurd ⟨u, hut, hu, hh⟩ hc
      · exact h.alone u v hu hv hh

theorem Sound.write (h : Sound hash key val p) (hp : p.phase t = .writing) :
    Sound hash key val ((p.store (hash (key t)) (p.copy t)).moveTo t .written) where
  found u hu := by
    rw [moveTo_table, Table.find]
    obtain ⟨rfl, -⟩ | ⟨hut, hu⟩ := phase_moveTo.mp hu
    · rw [store_table_self]
      exact h.copied u hp
    · by_cases hh : hash (key u) = hash (key t)
      · rw [hh, store_table_self]
        exact h.seen t u hp hu hh.symm
      · rw [store_table_of_ne hh]
        exact h.found u hu
  copied u hu := h.copied u (phase_of_moveTo hu nofun).2
  seen u v hu hv hh := by
    obtain ⟨hut, hu⟩ := phase_of_moveTo hu nofun
    obtain ⟨rfl, -⟩ | ⟨hvt, hv⟩ := phase_moveTo.mp hv
    · exact absurd (h.alone u v hu hp hh) hut
    · exact h.seen u v hu hv hh
  alone u v hu hv := h.alone u v (phase_of_moveTo hu nofun).2 (phase_of_moveTo hv nofun).2

/-- A step that clobbers nothing. -/
theorem Sound.step (h : Sound hash key val p) (hkey : Function.Injective key)
    (hkept : ∀ t, kept (key t) = key t) (hs : Step hash kept key val p t a p')
    (hc : ¬ Clobbers hash key p t a) : Sound hash key val p' := by
  cases hs with
  | skip => exact h
  | clear hp i n => exact h.clear hp hc _
  | fail => exact h.fail
  | read hp hb =>
    rw [hkept] at hb
    exact h.read hkey hb hc
  | write hp => exact h.write hp

/-! ## Keys that are lost -/

/-- The key of a party that wrote it is not found, or will not be. -/
inductive Lost (hash : κ → ι) (key : τ → κ) (p : Puts τ ι κ ν) : Prop where
  /-- `t`'s key is neither in its bucket nor in a copy of it. -/
  | gone (t : τ) (ht : p.phase t = .written) (hk : key t ∉ keys (p.table (hash (key t))))
    (hc : ∀ u, p.phase u = .writing → hash (key u) = hash (key t) → key t ∉ keys (p.copy u))
  /-- `u` will write a copy of `t`'s bucket without `t`'s key. -/
  | stale (t u : τ) (ht : p.phase t = .written) (hu : p.phase u = .writing)
    (hh : hash (key u) = hash (key t)) (hk : key t ∉ keys (p.copy u))
  /-- Both will, without each other's key. -/
  | crossed (t u : τ) (hne : t ≠ u) (ht : p.phase t = .writing) (hu : p.phase u = .writing)
    (hh : hash (key u) = hash (key t)) (hkt : key t ∉ keys (p.copy u)) (hku : key u ∉ keys (p.copy t))

/-- A party gave up. -/
def Failed (p : Puts τ ι κ ν) : Prop := ∃ t, p.phase t = .failed

omit [DecidableEq ι] [DecidableEq κ] in
theorem Pending.of_moveTo {u : τ} (hu : (p.moveTo t x).Pending u) (ht : p.Pending t) : p.Pending u := by
  by_cases hut : u = t
  · rwa [hut]
  · rwa [Pending, moveTo_phase_of_ne hut] at hu

theorem Failed.step (h : Failed p) (hs : Step hash kept key val p t a p') : Failed p' := by
  obtain ⟨u, hu⟩ := h
  -- the party that moves had not given up
  have hmove {q : Puts τ ι κ ν} {y : Phase} (hq : q.phase = p.phase) (ht : p.Pending t) :
      Failed (q.moveTo t y) := by
    have hut : u ≠ t := fun he => by
      rw [← he, Pending, hu] at ht
      rcases ht with ht | ht <;> cases ht
    exact ⟨u, by rw [moveTo_phase_of_ne hut, hq, hu]⟩
  cases hs with
  | skip => exact ⟨u, hu⟩
  | clear => exact ⟨u, hu⟩
  | fail ht => exact hmove rfl (.inl ht)
  | read ht => exact hmove rfl (.inl ht)
  | write ht => exact hmove rfl (.inr ht)

section

variable (hkey : Function.Injective key) (hkept : ∀ t, kept (key t) = key t)

include hkey hkept

omit [DecidableEq τ] in
/-- Another party's put does not store the key. -/
theorem not_mem_keys_put_of_ne {u : τ} (hu : u ≠ t) {b c : List (Slot κ ν)}
    (hb : put (key t) (kept (key t)) (val t) c = some b) (hn : key u ∉ keys c) : key u ∉ keys b := by
  rw [hkept] at hb
  exact not_mem_keys_put hb (hkey.ne hu) (hkey.ne hu) hn

theorem New.step (h : New key p) (hs : Step hash kept key val p t a p') : New key p' := by
  cases hs with
  | skip => exact h
  | clear ht i n =>
    refine ⟨fun u hu j => ?_, h.copy⟩
    by_cases hj : j = i
    · rw [hj, store_table_self, keys_replicate_none]
      exact List.not_mem_nil
    · rw [store_table_of_ne hj]
      exact h.table u hu j
  | fail ht =>
    exact ⟨fun u hu => h.table u (hu.of_moveTo (.inl ht)),
      fun u v hu hvu hv => h.copy u v (hu.of_moveTo (.inl ht)) hvu (phase_of_moveTo hv nofun).2⟩
  | read ht hb =>
    refine ⟨fun u hu => h.table u (hu.of_moveTo (.inl ht)), fun u v hu hvu hv => ?_⟩
    have hpu : p.Pending u := hu.of_moveTo (.inl ht)
    rw [moveTo_copy]
    obtain ⟨rfl, -⟩ | ⟨hvt, hv⟩ := phase_moveTo.mp hv
    · rw [hold_copy_self]
      exact not_mem_keys_put_of_ne hkey hkept hvu.symm hb (h.table u hpu _)
    · rw [hold_copy_of_ne hvt]
      exact h.copy u v hpu hvu hv
  | write ht =>
    refine ⟨fun u hu j => ?_, fun u v hu hvu hv => ?_⟩
    · have hut : u ≠ t := fun he => by
        rw [he, Pending, moveTo_phase_self] at hu
        rcases hu with hu | hu <;> cases hu
      have hpu : p.Pending u := hu.of_moveTo (.inr ht)
      rw [moveTo_table]
      by_cases hj : j = hash (key t)
      · rw [hj, store_table_self]
        exact h.copy u t hpu hut.symm ht
      · rw [store_table_of_ne hj]
        exact h.table u hpu j
    · exact h.copy u v (hu.of_moveTo (.inr ht)) hvu (phase_of_moveTo hv nofun).2

variable (htwo : ∀ t u v : τ, t = u ∨ t = v ∨ u = v)

include htwo

omit [DecidableEq τ] [DecidableEq ι] [DecidableEq κ] hkey hkept in
/-- Two parties that have read are all there are. -/
theorem not_third {u v : τ} (huv : u ≠ v) (hu : p.phase u ≠ .before) (hv : p.phase v ≠ .before)
    (ht : p.phase t = .before) : False := by
  rcases htwo t u v with he | he | he
  · exact hu (he ▸ ht)
  · exact hv (he ▸ ht)
  · exact huv he

/-- A step of one of two parties that clobbers a key loses one. -/
theorem New.lost (h : New key p) (hs : Step hash kept key val p t a p')
    (hc : Clobbers hash key p t a) : Lost hash key p' := by
  cases hs with
  | skip => exact hc.elim
  | fail => exact hc.elim
  | write => exact hc.elim
  | clear ht i n =>
    obtain ⟨u, hut, hu, rfl⟩ := hc
    refine .gone u hu ?_ fun v hv _ => ?_
    · rw [store_table_self, keys_replicate_none]
      exact List.not_mem_nil
    · rw [store_phase] at hv
      exact (not_third htwo (ne_of_phase hu hv nofun) (by rw [hu]; nofun) (by rw [hv]; nofun) ht).elim
  | read ht hb =>
    obtain ⟨u, hut, hu, hh⟩ := hc
    refine .crossed u t hut (phase_moveTo.mpr (.inr ⟨hut, hu⟩)) moveTo_phase_self hh.symm ?_ ?_
    · rw [moveTo_copy, hold_copy_self]
      exact not_mem_keys_put_of_ne hkey hkept hut hb (h.table u (.inr hu) _)
    · rw [moveTo_copy, hold_copy_of_ne hut]
      exact h.copy t u (.inl ht) hut hu

omit htwo in
theorem Lost.step_gone {u : τ} (hu : p.phase u = .written) (hk : key u ∉ keys (p.table (hash (key u))))
    (hc : ∀ v, p.phase v = .writing → hash (key v) = hash (key u) → key u ∉ keys (p.copy v))
    (hs : Step hash kept key val p t a p') : Lost hash key p' ∨ Failed p' := by
  cases hs with
  | skip => exact .inl (.gone u hu hk hc)
  | fail => exact .inr ⟨t, moveTo_phase_self⟩
  | clear ht i n =>
    refine .inl (.gone u hu ?_ hc)
    by_cases hi : hash (key u) = i
    · rw [hi, store_table_self, keys_replicate_none]
      exact List.not_mem_nil
    · rwa [store_table_of_ne hi]
  | read ht hb =>
    have hut : u ≠ t := ne_of_phase hu ht nofun
    refine .inl (.gone u (phase_moveTo.mpr (.inr ⟨hut, hu⟩)) hk fun v hv hh => ?_)
    rw [moveTo_copy]
    obtain ⟨rfl, -⟩ | ⟨hvt, hv⟩ := phase_moveTo.mp hv
    · rw [hold_copy_self]
      exact not_mem_keys_put_of_ne hkey hkept hut hb (by rwa [hh])
    · rw [hold_copy_of_ne hvt]
      exact hc v hv hh
  | write ht =>
    have hut : u ≠ t := ne_of_phase hu ht nofun
    refine .inl (.gone u (phase_moveTo.mpr (.inr ⟨hut, hu⟩)) ?_ fun v hv hh => ?_)
    · rw [moveTo_table]
      by_cases hh : hash (key u) = hash (key t)
      · rw [hh, store_table_self]
        exact hc t ht hh.symm
      · rwa [store_table_of_ne hh]
    · exact hc v (phase_of_moveTo hv nofun).2 hh

/-- A lost key stays lost. -/
theorem Lost.step (h : Lost hash key p) (hs : Step hash kept key val p t a p') :
    Lost hash key p' ∨ Failed p' := by
  cases h with
  | gone u hu hk hc => exact step_gone hkey hkept hu hk hc hs
  | stale u v hu hv hh hk =>
    have huv : u ≠ v := ne_of_phase hu hv nofun
    have hno : p.phase t ≠ .before := not_third htwo huv (by rw [hu]; nofun) (by rw [hv]; nofun)
    cases hs with
    | skip => exact .inl (.stale u v hu hv hh hk)
    | fail ht => exact (hno ht).elim
    | clear ht => exact (hno ht).elim
    | read ht => exact (hno ht).elim
    | write ht =>
      -- the step is that of `v`
      have hut : u ≠ t := ne_of_phase hu ht nofun
      obtain rfl : t = v := (htwo t u v).resolve_left hut.symm |>.resolve_right huv
      refine .inl (.gone u (phase_moveTo.mpr (.inr ⟨hut, hu⟩)) ?_ fun w hw _ => ?_)
      · rwa [moveTo_table, ← hh, store_table_self]
      · obtain ⟨hwt, hw⟩ := phase_of_moveTo hw nofun
        obtain rfl : u = w := (htwo u t w).resolve_left huv |>.resolve_right hwt.symm
        rw [store_phase, hu] at hw
        cases hw
  | crossed u v hne hu hv hh hku hkv =>
    have hno : p.phase t ≠ .before := not_third htwo hne (by rw [hu]; nofun) (by rw [hv]; nofun)
    cases hs with
    | skip => exact .inl (.crossed u v hne hu hv hh hku hkv)
    | fail ht => exact (hno ht).elim
    | clear ht => exact (hno ht).elim
    | read ht => exact (hno ht).elim
    | write ht =>
      rcases htwo t u v with rfl | rfl | he
      · exact .inl (.stale t v moveTo_phase_self (phase_moveTo.mpr (.inr ⟨hne.symm, hv⟩)) hh hku)
      · exact .inl (.stale t u moveTo_phase_self (phase_moveTo.mpr (.inr ⟨hne, hu⟩)) hh.symm hkv)
      · exact absurd he hne

end

omit [DecidableEq τ] [DecidableEq ι] in
/-- A key that is lost is not found after all have written. -/
theorem Lost.not_found (h : Lost hash key p) (hall : ∀ t, p.phase t = .written) :
    ∃ t, Table.find hash p.table (key t) = none := by
  cases h with
  | gone t ht hk => exact ⟨t, find_eq_none hk⟩
  | stale t u ht hu =>
    rw [hall u] at hu
    cases hu
  | crossed t u hne ht =>
    rw [hall t] at ht
    cases ht

end Puts

end Linkkit
