import Linkkit.Proof.Kv.Refine

/-!
# What one call keeps

The relations between a table and the current values of the keys, `Live`,
`Owned` and `Exact`, through one call (`live_tableStep`, `owned_tableStep`,
`exact_tableStep`): each is kept by every call that does not run into the
slots its hypothesis excludes. `gets_of_find` and `misses_of_find` say what a
Get of the store returns in terms of the table, and `run_repr` runs the two
side by side; `freshStore`, `keyA` and `keyB` are for concrete runs.
-/

namespace Linkkit.Proof.Kv

open Impl.Kv Spec.Kv

section

variable {t : KvTable} {m : CString → Option (List Byte)} {c : Call}

/-- The current values after a call that the table answers. -/
abbrev tableValues (m : CString → Option (List Byte)) (t : KvTable) (c : Call) :
    CString → Option (List Byte) := valueStep m (c, (tableStep t c).2)

theorem tableStep_set_some {key : CString} {val : List Byte} {len : Int32} {t' : KvTable}
    (h : Table.put hashGen t key (storedKey key) (stored val len) = some t') :
    tableStep t (.set key val len) = (t', .set 0) := by
  simp only [tableStep, h]

theorem tableStep_set_none {key : CString} {val : List Byte} {len : Int32}
    (h : Table.put hashGen t key (storedKey key) (stored val len) = none) :
    tableStep t (.set key val len) = (t, .set (-1)) := by
  simp only [tableStep, h]

@[simp] theorem tableStep_get_table (key : CString) (buf : List Byte) (n : Int32) :
    (tableStep t (.get key buf n)).1 = t := by
  rw [tableStep]
  split <;> rfl

@[simp] theorem tableStep_del (key : CString) :
    tableStep t (.del key) = (Table.remove hashGen t key, .del 0) := rfl

theorem tableValues_set_some {key : CString} {val : List Byte} {len : Int32} {t' : KvTable}
    (h : Table.put hashGen t key (storedKey key) (stored val len) = some t') :
    tableValues m t (.set key val len) = Function.update m key (some (stored val len)) := by
  rw [tableValues, tableStep_set_some h, valueStep, if_pos rfl]

theorem tableValues_set_none {key : CString} {val : List Byte} {len : Int32}
    (h : Table.put hashGen t key (storedKey key) (stored val len) = none) :
    tableValues m t (.set key val len) = m := by
  rw [tableValues, tableStep_set_none h, valueStep, if_neg (by decide)]

@[simp] theorem tableValues_get (key : CString) (buf : List Byte) (n : Int32) :
    tableValues m t (.get key buf n) = m := rfl

@[simp] theorem tableValues_del (key : CString) :
    tableValues m t (.del key) = Function.update m key none := rfl

/-- The cases of a call on a table: what becomes of the table and of the
current values. -/
theorem tableStep_cases {P : KvTable → (CString → Option (List Byte)) → Prop} (h₀ : P t m)
    (hset : ∀ key val len t', c = .set key val len →
      Table.put hashGen t key (storedKey key) (stored val len) = some t' →
      P t' (Function.update m key (some (stored val len))))
    (hdel : ∀ key, c = .del key → P (Table.remove hashGen t key) (Function.update m key none)) :
    P (tableStep t c).1 (tableValues m t c) := by
  cases c with
  | set key val len =>
    cases hp : Table.put hashGen t key (storedKey key) (stored val len) with
    | none => rwa [tableStep_set_none hp, tableValues_set_none hp]
    | some t' =>
      rw [tableStep_set_some hp, tableValues_set_some hp]
      exact hset key val len t' rfl hp
  | get key buf n => rwa [tableStep_get_table, tableValues_get]
  | del key => exact hdel key rfl

theorem live_tableStep (h : Table.Live hashGen t m) (hk : c.ShortKey)
    (hh : ¬ Deletes (fun k => Bucket.Hidden k (t (hashGen k))) c) :
    Table.Live hashGen (tableStep t c).1 (tableValues m t c) := by
  refine tableStep_cases h (fun key val len t' hc hp => ?_) fun key hc => ?_
  · subst hc
    rw [storedKey_of_lt (show key.bytes.length < itemMaxKeyLen from hk)] at hp
    exact h.put hp
  · subst hc
    exact h.remove hh

theorem exact_tableStep (h : Table.Exact hashGen t m) (hk : c.ShortKey)
    (hh : ¬ Writes (fun k => Bucket.Hidden k (t (hashGen k))) c) :
    Table.Exact hashGen (tableStep t c).1 (tableValues m t c) := by
  refine tableStep_cases h (fun key val len t' hc hp => ?_) fun key hc => ?_
  · subst hc
    rw [storedKey_of_lt (show key.bytes.length < itemMaxKeyLen from hk)] at hp
    exact h.put hh hp
  · subst hc
    exact h.remove hh

theorem owned_tableStep (h : Table.Owned hashGen storedKey t m)
    (hh : ¬ Writes (fun k => Bucket.Missed k (storedKey k) (t (hashGen k))) c) :
    Table.Owned hashGen storedKey (tableStep t c).1 (tableValues m t c) := by
  refine tableStep_cases h (fun key val len t' hc hp => ?_) fun key hc => ?_
  · subst hc
    exact h.put storedKey_storedKey hh hp
  · subst hc
    exact h.remove hh

/-- Rows without gaps stay so, but for a Del that opens one. -/
theorem packed_tableStep (h : ∀ i, Bucket.Packed (t i)) (hd : ∀ i, Bucket.Distinct (t i))
    (hg : ∀ key, c = .del key → ¬ Bucket.OpensGap key (t (hashGen key))) (i : ℕ) :
    Bucket.Packed ((tableStep t c).1 i) := by
  refine tableStep_cases (P := fun t _ => Bucket.Packed (t i)) (m := fun _ => none) (h i)
    (fun key val len t' hc hp => ?_) fun key hc => ?_
  · obtain ⟨b, hb, rfl⟩ := Table.put_eq_some hp
    exact Table.forall_bucket_update h ((h _).put hb) i
  · exact Table.forall_bucket_update h ((Bucket.packed_remove_iff (h _) (hd _)).mpr (hg key hc)) i

end

/-- Two other keys of a row, as a list. -/
theorem twoOthers_iff {P : CString → Prop} {k : CString} : TwoOthers P k ↔
    ∃ l : List CString, l.Nodup ∧ l.length = tableRowSize ∧ ∀ a ∈ l, a ≠ k ∧ hashGen a = hashGen k ∧ P a := by
  constructor
  · rintro ⟨a, b, hab, hak, hbk, ha, hb, hpa, hpb⟩
    refine ⟨[a, b], by simp [hab], rfl, ?_⟩
    simp only [List.forall_mem_cons, List.not_mem_nil, false_implies, implies_true, and_true]
    exact ⟨⟨hak, ha, hpa⟩, hbk, hb, hpb⟩
  · rintro ⟨l, hnd, hlen, hall⟩
    obtain ⟨a, b, rfl⟩ := List.length_eq_two.mp hlen
    obtain ⟨hak, ha, hpa⟩ := hall a (by simp)
    obtain ⟨hbk, hb, hpb⟩ := hall b (by simp)
    exact ⟨a, b, by simpa using hnd, hak, hbk, ha, hb, hpa, hpb⟩

/-- A Set of a store that holds exactly `m` fails if and only if the key is
not in `m` and two others of its row are. -/
theorem put_eq_none_iff {t : KvTable} {m : CString → Option (List Byte)} (h : Table.Exact hashGen t m)
    (hw : ∀ i, WfRow (t i)) (k : CString) (v : List Byte) :
    Table.put hashGen t k (storedKey k) v = none ↔ m k = none ∧ TwoOthers (fun a => (m a).isSome) k := by
  rw [h.put_eq_none_iff (hw _).len, twoOthers_iff]

/-! ## The store and its table side by side -/

section

variable {s : KvState} {t : KvTable} {k : CString}

theorem halKvGet_eq (h : Repr s t) {buf : List Byte} {n : Int32} (hn : 0 < n.toInt)
    (hb : n.toInt ≤ buf.length) : ∃ s', halKvGet .ok s (some k) (some buf) (some n) =
      some (match Table.find hashGen t k with
        | some v => (s', 0, some (filled v buf n), some (Int32.ofNat (min v.length n.toInt.toNat)))
        | none => (s', -1, some buf, some n)) := by
  obtain ⟨s', hs, -⟩ := halKvGet_repr h k hb
  refine ⟨s', ?_⟩
  rw [Option.map_eq_some_iff] at hs
  obtain ⟨⟨s'', ret, buf', n'⟩, hr, he⟩ := hs
  rw [hr]
  simp only [tableStep, hn, if_true] at he
  cases hf : Table.find hashGen t k with
  | none => simp only [hf] at he; cases he; rfl
  | some v => simp only [hf] at he; cases he; rfl

theorem gets_of_find (h : Repr s t) {v : List Byte} (hf : Table.find hashGen t k = some v) : Gets s k v := by
  intro buf n hn hb
  obtain ⟨s', hs⟩ := halKvGet_eq h (k := k) hn hb
  rw [hf] at hs
  exact ⟨s', hs⟩

theorem misses_of_find (h : Repr s t) (hf : Table.find hashGen t k = none) : Misses s k := by
  intro buf n hn hb
  obtain ⟨s', hs⟩ := halKvGet_eq h (k := k) hn hb
  rw [hf] at hs
  exact ⟨s', hs⟩

/-- No key both misses and has a value. -/
theorem not_gets_of_misses (h : Misses s k) (v : List Byte) : ¬ Gets s k v := fun hg => by
  obtain ⟨s₁, h₁⟩ := h [0] 1 (by decide) (by decide)
  obtain ⟨s₂, h₂⟩ := hg [0] 1 (by decide) (by decide)
  rw [h₁] at h₂
  cases h₂

/-- What a Get of the store returns is what the table has. -/
theorem gets_iff (h : Repr s t) {v : List Byte} : Gets s k v ↔ Table.find hashGen t k = some v := by
  refine ⟨fun hg => ?_, gets_of_find h⟩
  cases hf : Table.find hashGen t k with
  | none => exact absurd hg (not_gets_of_misses (misses_of_find h hf) v)
  | some w =>
    have hw : w.length ≤ itemMaxValLen := ((h.wf _).slots k w (Bucket.mem_of_find hf)).2.2
    -- one byte more than a value can have
    have h513 : (513 : Int32).toInt.toNat = 513 := by decide
    have hbuf : (513 : Int32).toInt ≤ (zeros 513).length := by rw [List.length_replicate]; decide
    obtain ⟨s₁, h₁⟩ := hg (zeros 513) 513 (by decide) hbuf
    obtain ⟨s₂, h₂⟩ := gets_of_find h hf (zeros 513) 513 (by decide) hbuf
    rw [h₁, h513] at h₂
    simp only [Option.some.injEq, Prod.mk.injEq, true_and] at h₂
    obtain ⟨-, hfill, hlen⟩ := h₂
    have hlen := congrArg Int32.toInt hlen
    rw [Int32.toInt_ofNat_of_lt (by omega), Int32.toInt_ofNat_of_lt (by omega)] at hlen
    have hle : (itemMaxValLen : ℕ) = 512 := rfl
    rw [filled, filled, h513, List.take_of_length_le (by omega), List.take_of_length_le (by omega)] at hfill
    rw [List.append_inj_left hfill (by omega)]

/-- The store and its table, run side by side. -/
theorem run_repr (h : Repr s t) {calls : List Call} (hc : ∀ c ∈ calls, c.Fits) :
    ∃ s' t' hist, run step s calls = some (s', hist) ∧
      run (fun t c => some (tableStep t c)) t calls = some (t', hist) ∧ Repr s' t' := by
  refine run_sim ?_ h hc
  exact fun s t c hr hf => step_repr hr hf

end

/-! ## A fresh store and two keys -/

/-- A fresh store, not opened yet. -/
def freshStore : KvState := ⟨false, (createHashFile {} none).2⟩

theorem fresh_freshStore : Fresh freshStore := by rw [Fresh, freshStore]

/-- Two keys of one row. -/
def keyA : CString := ⟨ascii "ab", by decide⟩
def keyB : CString := ⟨ascii "bA", by decide⟩

theorem hashGen_keyA : hashGen keyA = 227 := by decide
theorem hashGen_keyB : hashGen keyB = 227 := by decide
theorem keyA_ne_keyB : keyA ≠ keyB := by decide

/-- A run of concrete calls, from that of the table, and their row at its end. -/
theorem run_fresh {calls : List Call} (hc : ∀ c ∈ calls, c.Fits) {row : List KvSlot} {hist : List Event}
    (hr : ∃ t, run (fun t c => some (tableStep t c)) emptyTable calls = some (t, hist) ∧ t 227 = row) :
    ∃ s t, run step freshStore calls = some (s, hist) ∧ Repr s t ∧ t 227 = row := by
  obtain ⟨t, hr, ht⟩ := hr
  obtain ⟨s, t', hist', h₁, h₂, h₃⟩ := run_repr (fresh_repr fresh_freshStore) hc
  rw [hr] at h₂
  cases h₂
  exact ⟨s, t, h₁, h₃, ht⟩

end Linkkit.Proof.Kv
