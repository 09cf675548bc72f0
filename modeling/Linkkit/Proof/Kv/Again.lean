import Linkkit.Proof.Kv.Steps

/-!
# What a Set that returns 0 stored

`hash_table_put` stores a key of 128 bytes or more under its first 127, and the
walks compare with the whole key; so such a key is never found, while a
shorter one is, in every file that calls can leave (`set_found_again_iff`).
-/

namespace Linkkit.Proof.Kv

open Impl.Kv Spec.Kv

section

variable {s : KvState} {t : KvTable} {k : CString} {val : List Byte} {len : Int32}

theorem put_of_halKvSet (h : Repr s t) (h₀ : 0 < len.toInt) (hf : len.toInt ≤ val.length) {s₁ : KvState} :
    halKvSet .ok s (some k) (some val) len = some (s₁, 0) →
      ∃ t', Table.put hashGen t k (storedKey k) (stored val len) = some t' ∧ Repr s₁ t' := by
  intro hs
  obtain ⟨s', hs', hr⟩ := halKvSet_repr h k h₀ hf
  rw [hs] at hs'
  cases hp : Table.put hashGen t k (storedKey k) (stored val len) with
  | none =>
    rw [tableStep_set_none hp] at hs'
    cases hs'
  | some t' =>
    rw [tableStep_set_some hp] at hs' hr
    cases hs'
    exact ⟨t', rfl, hr⟩

theorem halKvSet_of_put (h : Repr s t) (h₀ : 0 < len.toInt) (hf : len.toInt ≤ val.length) {t' : KvTable}
    (hp : Table.put hashGen t k (storedKey k) (stored val len) = some t') :
    ∃ s₁, halKvSet .ok s (some k) (some val) len = some (s₁, 0) ∧ Repr s₁ t' := by
  obtain ⟨s', hs', hr⟩ := halKvSet_repr h k h₀ hf
  rw [tableStep_set_some hp] at hs' hr
  obtain ⟨⟨s₁, ret⟩, hs, he⟩ := Option.map_eq_some_iff.mp hs'
  cases he
  exact ⟨s₁, hs, hr⟩

theorem rowFull_iff (h : Repr s t) : RowFull s k ↔ ∀ x ∈ t (hashGen k), x.isSome := by
  rw [RowFull, rowOf_repr h (hashGen_lt k), List.forall_mem_map]
  exact forall₂_congr fun x hx => inUse_itemOf (h.wf _).slots hx

/-- No slot has a key of 128 bytes or more. -/
theorem Repr.not_mem_keys (h : Repr s t) (hk : ¬ k.bytes.length < itemMaxKeyLen) (i : ℕ) :
    k ∉ Bucket.keys (t i) := fun hm => by
  obtain ⟨v, hv⟩ := Bucket.mem_keys.mp hm
  exact hk ((h.wf i).slots k v hv).1

theorem foundAgain_of_short (h : Repr s t) (h₀ : 0 < len.toInt) (hf : len.toInt ≤ val.length)
    (hk : k.bytes.length < itemMaxKeyLen) : FoundAgain s k val len := by
  intro s₁ hs
  obtain ⟨t', hp, hr⟩ := put_of_halKvSet h h₀ hf hs
  have hp' := hp
  rw [storedKey_of_lt hk] at hp
  obtain ⟨b, hb, rfl⟩ := Table.put_eq_some hp
  obtain ⟨hfind, hput, hgone⟩ := Bucket.found_after_put hb
  refine ⟨fun buf hbuf => ?_, ?_, ?_⟩
  · have hlen : (stored val len).length = min len.toInt.toNat 512 := by
      rw [List.length_take]
      show min (min _ 512) _ = _
      omega
    obtain ⟨s₂, hg⟩ := gets_of_find (k := k) hr (by rw [Table.find, Function.update_self, hfind]) buf 512
      (by decide) (by rw [hbuf]; decide)
    refine ⟨s₂, ?_⟩
    have h512 : (512 : Int32).toInt.toNat = 512 := by decide
    have hmin : min 512 (min len.toInt.toNat itemMaxValLen) = min len.toInt.toNat 512 := by
      show min 512 (min _ 512) = _
      omega
    rw [hg, filled, h512, hlen, List.take_take, hmin, Nat.min_assoc, Nat.min_self]
  · have hput' : Table.put hashGen (Function.update t (hashGen k) b) k (storedKey k) (stored val len) =
        some (Function.update t (hashGen k) b) := by
      rw [storedKey_of_lt hk, Table.put, Function.update_self, hput, Option.map_some, Function.update_idem]
    obtain ⟨s₂, hs₂, hr₂⟩ := halKvSet_of_put hr h₀ hf hput'
    exact ⟨s₂, hs₂, by rw [hr₂.disk, hr.disk]⟩
  · obtain ⟨s₂, hs₂, hr₂⟩ := halKvDel_repr hr k
    refine ⟨s₂, 0, hs₂, misses_of_find hr₂ ?_⟩
    rw [Table.find, Table.remove, Function.update_self, Function.update_self, hgone]

theorem foundAgain_of_full (h : Repr s t) (h₀ : 0 < len.toInt) (hf : len.toInt ≤ val.length)
    (hk : ¬ k.bytes.length < itemMaxKeyLen) (hfull : RowFull s k) : FoundAgain s k val len := by
  intro s₁ hs
  obtain ⟨t', hp, -⟩ := put_of_halKvSet h h₀ hf hs
  obtain ⟨b, hb, -⟩ := Table.put_eq_some hp
  rw [Bucket.put_eq_none_iff.mpr ⟨(rowFull_iff h).mp hfull, h.not_mem_keys hk _⟩] at hb
  cases hb

/-- A key of 128 bytes or more that Set accepts is not found. -/
theorem missed_of_long (h : Repr s t) (h₀ : 0 < len.toInt) (hf : len.toInt ≤ val.length)
    (hk : ¬ k.bytes.length < itemMaxKeyLen) (hfull : ¬ RowFull s k) :
    ∃ s₁, halKvSet .ok s (some k) (some val) len = some (s₁, 0) ∧ Misses s₁ k := by
  have hn := h.not_mem_keys hk (hashGen k)
  rw [rowFull_iff h] at hfull
  have hsk : storedKey k ≠ k := fun he => hk (by rw [← he]; exact length_storedKey_lt k)
  cases hb : Bucket.put k (storedKey k) (stored val len) (t (hashGen k)) with
  | none => exact absurd (Bucket.put_eq_none_iff.mp hb).1 hfull
  | some b =>
    obtain ⟨s₁, hs, hr⟩ := halKvSet_of_put h h₀ hf (k := k) (by rw [Table.put, hb]; rfl)
    refine ⟨s₁, hs, misses_of_find hr ?_⟩
    rw [Table.find, Function.update_self]
    exact Bucket.not_found_after_put hb hsk hn

theorem not_foundAgain_of_misses {s₁ : KvState} (hs : halKvSet .ok s (some k) (some val) len = some (s₁, 0))
    (hm : Misses s₁ k) : ¬ FoundAgain s k val len := fun hfa => by
  obtain ⟨s₂, h₂⟩ := (hfa s₁ hs).1 (zeros 512) List.length_replicate
  obtain ⟨s₃, h₃⟩ := hm (zeros 512) 512 (by decide) (by rw [List.length_replicate]; decide)
  rw [h₂] at h₃
  cases h₃

/-- In a store with a file that calls on a fresh one left, a key that Set
accepts is found again exactly if it has at most 127 bytes, or Set does not
accept it since both slots of its row are in use. -/
theorem set_found_again_iff {s₀ s' : KvState} (hs : Fresh s₀) {calls : List Call}
    (hc : ∀ c ∈ calls, c.Fits) {hist : List Event} (hr : run step s₀ calls = some (s', hist))
    (hd : s.disk = s'.disk) (h₀ : 0 < len.toInt) (hf : len.toInt ≤ val.length) :
    FoundAgain s k val len ↔ k.bytes.length ≤ 127 ∨ RowFull s k := by
  obtain ⟨s'', t, hist', hr', -, ht⟩ := run_repr (fresh_repr hs) hc
  rw [hr] at hr'
  cases hr'
  have h : Repr s t := ⟨ht.wf, by rw [hd, ht.disk]⟩
  by_cases hk : k.bytes.length < itemMaxKeyLen
  · exact iff_of_true (foundAgain_of_short h h₀ hf hk) (.inl (Nat.le_of_lt_succ hk))
  have hk' : ¬ k.bytes.length ≤ 127 := fun hle => hk (Nat.lt_succ_of_le hle)
  rw [or_iff_right hk']
  by_cases hfull : RowFull s k
  · exact iff_of_true (foundAgain_of_full h h₀ hf hk hfull) hfull
  · obtain ⟨s₁, hs₁, hm⟩ := missed_of_long h h₀ hf hk hfull
    exact iff_of_false (not_foundAgain_of_misses hs₁ hm) hfull

end

/-- A key of 127 bytes and one of 128. -/
def keyAtLimit : CString := ⟨List.replicate 127 0x61, by decide⟩
def keyOverLimit : CString := ⟨List.replicate 128 0x61, by decide⟩

/-- The key of 127 bytes is found again after two other Sets. -/
theorem set_found_again_limit : ∃ s hist,
    run step freshStore [.set keyA [1] 1, .set keyOverLimit [2] 1] = some (s, hist) ∧
      (FoundAgain s keyAtLimit [3, 4] 2 ↔ keyAtLimit.bytes.length ≤ 127 ∨ RowFull s keyAtLimit) := by
  have hc : ∀ c ∈ [Call.set keyA [1] 1, .set keyOverLimit [2] 1], c.Fits := by decide
  obtain ⟨s, t, hist, hr, -, -⟩ := run_repr (fresh_repr fresh_freshStore) hc
  exact ⟨s, hist, hr, set_found_again_iff fresh_freshStore hc hr rfl (by decide) (by decide)⟩

/-- Set accepts the key of 128 bytes in a fresh store, and Get does not find
it. -/
theorem set_not_found_again : ∃ s, halKvSet .ok freshStore (some keyOverLimit) (some [1]) 1 = some (s, 0) ∧
    Misses s keyOverLimit ∧ ¬ FoundAgain freshStore keyOverLimit [1] 1 := by
  have h := fresh_repr fresh_freshStore
  have hfull : ¬ RowFull freshStore keyOverLimit := fun hfull => by
    cases (rowFull_iff h).mp hfull none (List.mem_replicate.mpr ⟨by decide, rfl⟩)
  have hlong : ¬ keyOverLimit.bytes.length < itemMaxKeyLen := by
    rw [keyOverLimit, List.length_replicate]
    decide
  have hpos : 0 < (1 : Int32).toInt := by decide
  have hfits : (1 : Int32).toInt ≤ ([1] : List Byte).length := by decide
  obtain ⟨s, hs, hm⟩ := missed_of_long h hpos hfits hlong hfull
  exact ⟨s, hs, hm, not_foundAgain_of_misses hs hm⟩

end Linkkit.Proof.Kv
