import Linkkit.Framework.Bucket

/-!
# Hash tables of buckets

A table is a bucket for every hash value. Three relations between a table and
a map `m` of the keys to their current values, from the weakest to the
strongest, each with what keeps it:

* `Live`: every slot belongs to a key of `m`, so a key that `m` does not have
  is not found (`Live.find_eq_none`);
* `Owned trunc`: every slot holds the value `m` gives to a key whose stored
  form `trunc` is the slot's, and no bucket has two slots of one stored key;
* `Exact`: the slots are exactly `m`, so `find` gives `m` for a key that is
  not hidden (`Exact.find`) and `put` fails only in a bucket full of other
  keys of `m` (`Exact.put_eq_none_iff`).
-/

namespace Linkkit

/-- A bucket for every hash value. -/
abbrev Table (ι κ ν : Type*) := ι → List (Slot κ ν)

namespace Table

open Bucket

variable {ι κ ν : Type*} [DecidableEq ι] [DecidableEq κ] (hash : κ → ι)

def find (t : Table ι κ ν) (k : κ) : Option ν := Bucket.find k (t (hash k))

def put (t : Table ι κ ν) (k kept : κ) (v : ν) : Option (Table ι κ ν) :=
  (Bucket.put k kept v (t (hash k))).map (Function.update t (hash k))

def remove (t : Table ι κ ν) (k : κ) : Table ι κ ν :=
  Function.update t (hash k) (Bucket.remove k (t (hash k)))

variable {hash} {t t' : Table ι κ ν} {m : κ → Option ν} {k kept : κ} {v : ν}

/-- What `put` does to the key's bucket; the other buckets are as before. -/
theorem put_eq_some (h : put hash t k kept v = some t') :
    ∃ b, Bucket.put k kept v (t (hash k)) = some b ∧ t' = Function.update t (hash k) b := by
  obtain ⟨b, hb, rfl⟩ := Option.map_eq_some_iff.mp h
  exact ⟨b, hb, rfl⟩

omit [DecidableEq κ] in
/-- A property of every slot, from the bucket that changed. -/
theorem forall_update {b : List (Slot κ ν)} {j : ι} {P : ι → κ → ν → Prop}
    (h : ∀ i k v, i ≠ j → some (k, v) ∈ t i → P i k v) (hb : ∀ k v, some (k, v) ∈ b → P j k v) :
    ∀ i k v, some (k, v) ∈ Function.update t j b i → P i k v := by
  intro i k v hv
  by_cases hi : i = j
  · subst hi
    rw [Function.update_self] at hv
    exact hb k v hv
  · rw [Function.update_of_ne hi] at hv
    exact h i k v hi hv

omit [DecidableEq κ] in
/-- A property of every bucket, from the one that changed. -/
theorem forall_bucket_update {b : List (Slot κ ν)} {j : ι} {P : List (Slot κ ν) → Prop}
    (h : ∀ i, P (t i)) (hb : P b) : ∀ i, P (Function.update t j b i) :=
  (Function.forall_update_iff t fun _ b => P b).mpr ⟨hb, fun i _ => h i⟩

/-! ## Only keys of the map -/

variable (hash) in
/-- Every slot belongs to a key of `m`, in that key's bucket. -/
def Live (t : Table ι κ ν) (m : κ → Option ν) : Prop :=
  ∀ i k v, some (k, v) ∈ t i → hash k = i ∧ (m k).isSome

theorem Live.put (h : Live hash t m) (hp : Table.put hash t k k v = some t') :
    Live hash t' (Function.update m k (some v)) := by
  obtain ⟨b, hb, rfl⟩ := put_eq_some hp
  have hm : ∀ k', (m k').isSome → (Function.update m k (some v) k').isSome := fun k' hk' => by
    by_cases he : k' = k
    · subst he; simp
    · rwa [Function.update_of_ne he]
  refine forall_update (fun i k' v' _ hv => ⟨(h i k' v' hv).1, hm k' (h i k' v' hv).2⟩) ?_
  intro k' v' hv
  rcases mem_of_mem_put hb hv with ⟨-, rfl | ⟨rfl, -⟩⟩ | hv
  · simp
  · simp
  · exact ⟨(h _ _ _ hv).1, hm _ (h _ _ _ hv).2⟩

theorem Live.remove (h : Live hash t m) (hh : ¬ Hidden k (t (hash k))) :
    Live hash (Table.remove hash t k) (Function.update m k none) := by
  have hm : ∀ i k' v', some (k', v') ∈ t i → k' ≠ k →
      hash k' = i ∧ (Function.update m k none k').isSome := fun i k' v' hv hne => by
    rw [Function.update_of_ne hne]; exact h i k' v' hv
  refine forall_update (fun i k' v' hi hv => hm i k' v' hv fun he => hi ?_) fun k' v' hv => ?_
  · rw [← (h i k' v' hv).1, he]
  · exact hm _ k' v' ((mem_remove_iff hh).mp hv).2 ((mem_remove_iff hh).mp hv).1

omit [DecidableEq ι] in
theorem Live.find_eq_none (h : Live hash t m) (hk : m k = none) : find hash t k = none := by
  refine Bucket.find_eq_none fun hm => ?_
  obtain ⟨v, hv⟩ := mem_keys.mp hm
  simpa [hk] using (h _ k v hv).2

/-! ## Values of the map under cut keys -/

variable (hash) in
/-- Every slot holds what `m` gives to a key stored there as `trunc` of it, and
stored keys are distinct. -/
structure Owned (trunc : κ → κ) (t : Table ι κ ν) (m : κ → Option ν) : Prop where
  distinct : ∀ i, Distinct (t i)
  owner : ∀ i k v, some (k, v) ∈ t i → ∃ k', hash k' = i ∧ trunc k' = k ∧ m k' = some v

section Owned

variable {trunc : κ → κ}

theorem Owned.put (h : Owned hash trunc t m) (hi : ∀ k, trunc (trunc k) = trunc k)
    (hm : ¬ Missed k (trunc k) (t (hash k))) (hp : Table.put hash t k (trunc k) v = some t') :
    Owned hash trunc t' (Function.update m k (some v)) := by
  obtain ⟨b, hb, rfl⟩ := put_eq_some hp
  have hk : k ∈ keys (t (hash k)) → trunc k = k := fun hk => by
    obtain ⟨w, hw⟩ := mem_keys.mp hk
    obtain ⟨k', -, rfl, -⟩ := h.owner _ k w hw
    exact hi k'
  obtain ⟨hd, hmem⟩ := mem_put_iff (h.distinct _) hm hk hb
  refine ⟨forall_bucket_update h.distinct hd, forall_update (fun i k' v' hi' hv => ?_) fun k' v' hv => ?_⟩
  · obtain ⟨o, ho, rfl, hmo⟩ := h.owner i k' v' hv
    exact ⟨o, ho, rfl, by rwa [Function.update_of_ne fun he => hi' (by rw [← ho, he])]⟩
  · rcases (hmem k' v').mp hv with ⟨rfl, rfl⟩ | ⟨hne, hv⟩
    · exact ⟨k, rfl, rfl, Function.update_self ..⟩
    · obtain ⟨o, ho, rfl, hmo⟩ := h.owner _ k' v' hv
      exact ⟨o, ho, rfl, by rwa [Function.update_of_ne fun he => hne (by rw [he])]⟩

theorem Owned.remove (h : Owned hash trunc t m) (hm : ¬ Missed k (trunc k) (t (hash k))) :
    Owned hash trunc (Table.remove hash t k) (Function.update m k none) := by
  simp only [Missed, not_or, not_and] at hm
  obtain ⟨hh, hc⟩ := hm
  refine ⟨forall_bucket_update h.distinct ((h.distinct _).remove k),
    forall_update (fun i k' v' hi hv => ?_) fun k' v' hv => ?_⟩
  · obtain ⟨o, ho, rfl, hmo⟩ := h.owner i k' v' hv
    exact ⟨o, ho, rfl, by rwa [Function.update_of_ne fun he => hi (by rw [← ho, he])]⟩
  · obtain ⟨o, ho, rfl, hmo⟩ := h.owner _ k' v' (mem_of_mem_remove hv)
    -- a slot that is still the removed key's own would be one the walk missed
    have hne : o ≠ k := by
      rintro rfl
      by_cases ht : trunc o = o
      · rw [ht] at hh hv
        exact not_mem_remove hh (mem_keys.mpr ⟨v', hv⟩)
      · exact hc ht (mem_keys.mpr ⟨v', mem_of_mem_remove hv⟩)
    exact ⟨o, ho, rfl, by rwa [Function.update_of_ne hne]⟩

end Owned

/-! ## Exactly the map -/

variable (hash) in
/-- The slots hold exactly `m`, each key once and in its own bucket. -/
structure Exact (t : Table ι κ ν) (m : κ → Option ν) : Prop where
  distinct : ∀ i, Distinct (t i)
  home : ∀ i k v, some (k, v) ∈ t i → hash k = i
  mem : ∀ k v, some (k, v) ∈ t (hash k) ↔ m k = some v

omit [DecidableEq ι] [DecidableEq κ] in
theorem Exact.empty (n : ℕ) : Exact hash (fun _ => List.replicate n none : Table ι κ ν) fun _ => none := by
  have hm : ∀ k v, some (k, v) ∉ (List.replicate n none : List (Slot κ ν)) := fun k v h => by
    cases (List.mem_replicate.mp h).2
  exact ⟨fun _ => by rw [Distinct, keys_replicate_none]; exact List.nodup_nil, fun _ k v h => absurd h (hm k v),
    fun k v => iff_of_false (hm k v) nofun⟩

omit [DecidableEq ι] [DecidableEq κ] in
theorem Exact.not_mem_keys (h : Exact hash t m) : k ∉ keys (t (hash k)) ↔ m k = none := by
  rw [mem_keys, Option.eq_none_iff_forall_ne_some, not_exists]
  exact forall_congr' fun v => not_congr (h.mem k v)

theorem Exact.put (h : Exact hash t m) (hh : ¬ Hidden k (t (hash k)))
    (hp : Table.put hash t k k v = some t') : Exact hash t' (Function.update m k (some v)) := by
  obtain ⟨b, hb, rfl⟩ := put_eq_some hp
  have hm : ¬ Missed k k (t (hash k)) := by simp [Missed, hh]
  obtain ⟨hd, hmem⟩ := mem_put_iff (h.distinct _) hm (fun _ => rfl) hb
  refine ⟨forall_bucket_update h.distinct hd, forall_update (fun i k' v' _ => h.home i k' v') ?_, ?_⟩
  · intro k' v' hv
    rcases (hmem k' v').mp hv with ⟨rfl, -⟩ | ⟨-, hv⟩
    · rfl
    · exact h.home _ _ _ hv
  · intro k' v'
    by_cases hk' : k' = k
    · subst hk'
      rw [Function.update_self, Function.update_self, hmem, Option.some.injEq]
      simp [eq_comm]
    · rw [Function.update_of_ne hk', ← h.mem]
      by_cases hj : hash k' = hash k
      · rw [hj, Function.update_self, hmem]
        simp [hk']
      · rw [Function.update_of_ne hj]

theorem Exact.remove (h : Exact hash t m) (hh : ¬ Hidden k (t (hash k))) :
    Exact hash (Table.remove hash t k) (Function.update m k none) := by
  refine ⟨forall_bucket_update h.distinct ((h.distinct _).remove k),
    forall_update (fun i k' v' _ => h.home i k' v') fun k' v' hv => h.home _ _ _ (mem_of_mem_remove hv),
    fun k' v' => ?_⟩
  by_cases hk' : k' = k
  · subst hk'
    rw [Table.remove, Function.update_self, Function.update_self, mem_remove_iff hh]
    simp
  · rw [Function.update_of_ne hk', ← h.mem, Table.remove]
    by_cases hj : hash k' = hash k
    · rw [hj, Function.update_self, mem_remove_iff hh]
      simp [hk']
    · rw [Function.update_of_ne hj]

omit [DecidableEq ι] in
theorem Exact.find (h : Exact hash t m) (hh : ¬ Hidden k (t (hash k))) : find hash t k = m k := by
  apply Option.ext
  intro v
  rw [Table.find, find_eq_some_iff (h.distinct _) hh, h.mem]

/-- `put` fails exactly for a key that is not there, in a bucket whose every
slot is taken by another key of the map. -/
theorem Exact.put_eq_none_iff (h : Exact hash t m) {n : ℕ} (hn : (t (hash k)).length = n) :
    Table.put hash t k kept v = none ↔ m k = none ∧
      ∃ l : List κ, l.Nodup ∧ l.length = n ∧ ∀ a ∈ l, a ≠ k ∧ hash a = hash k ∧ (m a).isSome := by
  have hkeys : ∀ a, a ∈ keys (t (hash k)) ↔ hash a = hash k ∧ (m a).isSome := fun a => by
    rw [mem_keys, Option.isSome_iff_exists]
    constructor
    · rintro ⟨w, hw⟩
      have hj := h.home _ a w hw
      exact ⟨hj, w, (h.mem a w).mp (by rwa [hj])⟩
    · rintro ⟨hj, w, hw⟩
      exact ⟨w, hj ▸ (h.mem a w).mpr hw⟩
  rw [Table.put, Option.map_eq_none_iff, Bucket.put_eq_none_iff, ← length_keys, h.not_mem_keys, hn,
    and_comm]
  refine and_congr_right fun hk => ⟨fun hl => ?_, ?_⟩
  · refine ⟨keys (t (hash k)), h.distinct _, hl, fun a ha => ⟨?_, (hkeys a).mp ha⟩⟩
    rintro rfl
    exact h.not_mem_keys.mpr hk ha
  · rintro ⟨l, hnd, hl, hall⟩
    have hsub : l ⊆ keys (t (hash k)) := fun a ha => (hkeys a).mpr (hall a ha).2
    have hle := (hnd.subperm hsub).length_le
    have hge : (keys (t (hash k))).length ≤ (t (hash k)).length := List.length_filterMap_le ..
    omega

end Table

end Linkkit
