import Linkkit.Proof.Kv.History
import Linkkit.Proof.Kv.Slots

/-!
# The store is a table of buckets

`Repr s t`: the file of `s` holds the slots of the table `t`, one bucket of
two slots for each row. `step_repr` says that a call, all system calls
succeeding, does to the file what `tableStep` does to the table, with the same
reply and without a fault; `fresh_repr` that a fresh file is the empty table.

The rest translates what the specification says about the rows of a state
into the words of buckets (`rowOf_repr`, `holds_itemOf`, `hiddenKey_iff`,
`missedKey_iff`, `opensGap_iff`).
-/

namespace Linkkit.Proof.Kv

open Impl.Kv Spec.Kv

/-- A bucket of slots for each row. -/
abbrev KvTable := Table ℕ CString (List Byte)

/-- The file of `s` holds the slots of `t`. -/
structure Repr (s : KvState) (t : KvTable) : Prop where
  wf : ∀ i, WfRow (t i)
  disk : s.disk = some (storeOf fun i => (t i).map itemOf)

/-- The table of a fresh file. -/
def emptyTable : KvTable := fun _ => List.replicate tableRowSize none

/-- The part of a Set's value that is stored. -/
abbrev stored (val : List Byte) (len : Int32) : List Byte := val.take (min len.toInt.toNat itemMaxValLen)

/-- What a call does to the table, and what it returns. -/
def tableStep (t : KvTable) : Call → KvTable × Reply
  | .set key val len =>
    match Table.put hashGen t key (storedKey key) (stored val len) with
    | some t' => (t', .set 0)
    | none => (t, .set (-1))
  | .get key buf n =>
    match if 0 < n.toInt then Table.find hashGen t key else none with
    | some v => (t, .get 0 (some (filled v buf n)) (some (Int32.ofNat (min v.length n.toInt.toNat))))
    | none => (t, .get (-1) (some buf) (some n))
  | .del key => (Table.remove hashGen t key, .del 0)

@[simp] theorem Sys.ok_mallocRow : Sys.ok.mallocRow = true := rfl
@[simp] theorem Sys.ok_read : Sys.ok.read = {} := rfl
@[simp] theorem Sys.ok_write : Sys.ok.write = {} := rfl

theorem WfRow.length_map {b : List KvSlot} (h : WfRow b) : (b.map itemOf).length = tableRowSize := by
  rw [List.length_map, h.len]

/-- The rows of the file have two items. -/
theorem Repr.rows {s : KvState} {t : KvTable} (h : Repr s t) (i : ℕ) :
    ((t i).map itemOf).length = tableRowSize := (h.wf i).length_map

/-! ## The empty table -/

theorem exact_emptyTable : Table.Exact hashGen emptyTable fun _ => none := Table.Exact.empty tableRowSize

theorem packed_emptyTable (i : ℕ) : Bucket.Packed (emptyTable i) := by
  rw [emptyTable, Bucket.Packed, List.pairwise_replicate]
  exact .inr id

/-- No slot of the empty table is in use. -/
theorem not_mem_emptyTable {i : ℕ} {e : CString × List Byte} : some e ∉ emptyTable i := fun h => by
  cases (List.mem_replicate.mp h).2

/-! ## Lengths -/

theorem not_le_zero {n : Int32} (h : 0 < n.toInt) : ¬ n ≤ 0 := by
  rw [Int32.le_iff_toInt_le, Int32.toInt_zero]; omega

/-- `value_len` cut to the size of the value field. -/
theorem valueArg_cut {val : List Byte} {len : Int32} (h₀ : 0 < len.toInt) (hf : len.toInt ≤ val.length)
    {n : Int32} (hn : n = if len > Int32.ofNat itemMaxValLen then Int32.ofNat itemMaxValLen else len) :
    ValueArg val n ∧ sizeT n = min len.toInt.toNat itemMaxValLen := by
  have hnat : (itemMaxValLen : Int) = 512 := rfl
  have key : n.toInt = min 512 len.toInt := by
    rw [hn]
    exact toInt_ite_lt (Int32.ofNat itemMaxValLen) len
  refine ⟨⟨by omega, by omega, by omega⟩, ?_⟩
  rw [sizeT_of_nonneg (by omega)]
  omega

/-- `*len` after a Get that found a value of `v.length` bytes. -/
theorem getLen {v : List Byte} (hv : v.length ≤ itemMaxValLen) {n : Int32} (hn : 0 < n.toInt) {m : Int32}
    (hm : m = if Int32.ofNat v.length < n then Int32.ofNat v.length else n) :
    m = Int32.ofNat (min v.length n.toInt.toNat) ∧ sizeT m = min v.length n.toInt.toNat := by
  have hlen := toInt_ofNat_length hv
  have hlt := n.toInt_lt
  have key : m.toInt = (min v.length n.toInt.toNat : Nat) := by
    rw [hm, toInt_ite_lt, hlen]
    omega
  refine ⟨Int32.toInt_inj.mp ?_, ?_⟩
  · rw [key, Int32.toInt_ofNat_of_lt (by omega)]
  · rw [sizeT_of_nonneg (by omega), key, Int.toNat_natCast]

/-- The bytes of a value copied to the start of the caller's buffer. -/
theorem memcpy_filled {v buf : List Byte} (hv : v.length ≤ itemMaxValLen) {n : Int32} (hn : 0 < n.toInt)
    (hb : n.toInt ≤ buf.length) : memcpy buf 0 (Buf.ofList itemMaxValLen v).bytes
      (min v.length n.toInt.toNat) = some (filled v buf n) := by
  have hl : (v.take n.toInt.toNat).length = min v.length n.toInt.toNat := by
    rw [List.length_take, Nat.min_comm]
  have hle : min v.length n.toInt.toNat ≤ v.length := Nat.min_le_left _ _
  have htake : (Buf.ofList itemMaxValLen v).bytes.take (min v.length n.toInt.toNat) =
      v.take n.toInt.toNat := by
    rw [Buf.bytes_ofList hv, List.take_append_of_le_length hle, Nat.min_comm, ← List.take_take,
      List.take_of_length_le (Nat.le_refl _)]
  rw [memcpy, if_pos ⟨by omega, by rw [Buf.length_eq]; omega⟩, htake, splice, filled, List.take_zero,
    List.nil_append, hl, Nat.zero_add]

/-! ## Calls -/

section

variable {s : KvState} {t : KvTable}

/-- A store that has a file is opened if the handle can be allocated. -/
theorem ensureOpen_malloc {sys : Sys} (hm : sys.mallocFile = true) {f : List Byte} (h : s.disk = some f) :
    ensureOpen sys s = ⟨true, some f⟩ := by
  obtain ⟨file, disk⟩ := s
  cases h
  cases file
  · simp [ensureOpen, kvOpen, hm]
  · rfl

theorem ensureOpen_ok {f : List Byte} (h : s.disk = some f) : ensureOpen .ok s = ⟨true, some f⟩ :=
  ensureOpen_malloc rfl h

/-- The store with the row of `b` in place of row `i`. -/
theorem Repr.update (h : Repr s t) {i : ℕ} {b : List KvSlot} (hb : WfRow b) :
    Repr ⟨true, some (storeOf (Function.update (fun i => (t i).map itemOf) i (b.map itemOf)))⟩
      (Function.update t i b) := by
  refine ⟨Table.forall_bucket_update h.wf hb, congrArg (fun r => some (storeOf r)) (funext fun j => ?_)⟩
  by_cases hj : j = i
  · subst hj; rw [Function.update_self, Function.update_self]
  · rw [Function.update_of_ne hj, Function.update_of_ne hj]

theorem Repr.opened (h : Repr s t) : Repr ⟨true, some (storeOf fun i => (t i).map itemOf)⟩ t := ⟨h.wf, rfl⟩

/-- The row after a Set. -/
theorem wfRow_put (h : Repr s t) {key : CString} {val : List Byte} {len : Int32} (h₀ : 0 < len.toInt)
    (hf : len.toInt ≤ val.length) {b : List KvSlot}
    (hp : Bucket.put key (storedKey key) (stored val len) (t (hashGen key)) = some b) : WfRow b := by
  have h512 : 0 < itemMaxValLen := by decide
  have hpos : 0 < (stored val len).length := by rw [List.length_take]; omega
  have hle : (stored val len).length ≤ itemMaxValLen := by rw [List.length_take]; omega
  exact (h.wf _).put hpos hle hp

theorem halKvSet_repr (h : Repr s t) (key : CString) {val : List Byte} {len : Int32}
    (h₀ : 0 < len.toInt) (hf : len.toInt ≤ val.length) :
    ∃ s', (halKvSet .ok s (some key) (some val) len).map (fun r => (r.1, Reply.set r.2)) =
      some (s', (tableStep t (.set key val len)).2) ∧ Repr s' (tableStep t (.set key val len)).1 := by
  obtain ⟨hv, hsz⟩ := valueArg_cut h₀ hf rfl
  simp only [halKvSet, kvSet, ensureOpen_ok h.disk, Bool.not_true, Bool.false_eq_true, if_false, kvFileSet,
    hashTablePut, not_le_zero h₀, Sys.ok_mallocRow, Sys.ok_read, Sys.ok_write, readKvItem_storeOf h.rows (hashGen_lt key),
    putWalk_map hv (h.wf _).slots, hsz, Option.bind_eq_bind, Option.bind_some, tableStep, Table.put]
  cases hp : Bucket.put key (storedKey key) (stored val len) (t (hashGen key)) with
  | none => exact ⟨_, rfl, h.opened⟩
  | some b =>
    have hb := wfRow_put h h₀ hf hp
    simp only [Option.map_some, writeKvItem_storeOf h.rows (hashGen_lt key) hb.length_map]
    exact ⟨_, rfl, h.update hb⟩

theorem halKvGet_repr (h : Repr s t) (key : CString) {buf : List Byte} {n : Int32}
    (hb : n.toInt ≤ buf.length) :
    ∃ s', (halKvGet .ok s (some key) (some buf) (some n)).map
        (fun r => (r.1, Reply.get r.2.1 r.2.2.1 r.2.2.2)) =
      some (s', (tableStep t (.get key buf n)).2) ∧ Repr s' t := by
  simp only [halKvGet, kvGet, ensureOpen_ok h.disk, Bool.not_true, Bool.false_eq_true, if_false, kvFileGet,
    tableStep]
  refine ⟨_, ?_, h.opened⟩
  by_cases hn : 0 < n.toInt
  · simp only [not_le_zero hn, if_false, hn, if_true, hashTableGet, Sys.ok_mallocRow, Sys.ok_read, Bool.not_true,
      Bool.false_eq_true, readKvItem_storeOf h.rows (hashGen_lt key), getWalk_map (h.wf _).slots,
      Option.bind_eq_bind, Option.bind_some, Table.find]
    cases hf : Bucket.find key (t (hashGen key)) with
    | none => rfl
    | some v =>
      have hv := ((h.wf _).slots key v (Bucket.mem_of_find hf)).2.2
      obtain ⟨hm, hsz⟩ := getLen hv hn rfl
      simp only [Option.map_some, itemOf, hsz, memcpy_filled hv hn hb, Option.bind_some,
        Option.pure_def]
      rw [hm]
  · have hle : n ≤ 0 := by rw [Int32.le_iff_toInt_le, Int32.toInt_zero]; omega
    simp only [hle, if_true, hn, if_false, Option.map_some]

theorem halKvDel_repr (h : Repr s t) (key : CString) :
    ∃ s', halKvDel .ok s (some key) = some (s', 0) ∧ Repr s' (Table.remove hashGen t key) := by
  have hi : hashGen key % tableColSize = hashGen key := Nat.mod_eq_of_lt (hashGen_lt key)
  have hb := (h.wf (hashGen key)).remove key
  simp only [halKvDel, kvDel, ensureOpen_ok h.disk, Bool.not_true, Bool.false_eq_true, if_false, kvFileDel,
    hashTableRm, hi, Sys.ok_mallocRow, Sys.ok_read, Sys.ok_write, readKvItem_storeOf h.rows (hashGen_lt key), rmWalk_map (h.wf _).slots,
    Option.bind_eq_bind, Option.bind_some, writeKvItem_storeOf h.rows (hashGen_lt key) hb.length_map]
  exact ⟨_, rfl, h.update hb⟩

/-- A call on the file is the call on the table. -/
theorem step_repr (h : Repr s t) {c : Call} (hc : c.Fits) :
    ∃ s', step s c = some (s', (tableStep t c).2) ∧ Repr s' (tableStep t c).1 := by
  cases c with
  | set key val len => exact halKvSet_repr h key hc.1 hc.2
  | get key buf n =>
    obtain ⟨s', hs, hr⟩ := halKvGet_repr h key hc
    refine ⟨s', hs, ?_⟩
    rw [tableStep]
    split <;> exact hr
  | del key =>
    obtain ⟨s', hs, hr⟩ := halKvDel_repr h key
    exact ⟨s', by simp only [step, callStep, hs, Option.map_some, tableStep], hr⟩

theorem fresh_repr (h : Fresh s) : Repr s emptyTable := by
  refine ⟨fun _ => WfRow.empty, ?_⟩
  rw [h, createHashFile_ok]
  rfl

/-! ## Rows of a state -/

theorem rowOf_repr (h : Repr s t) {i : ℕ} (hi : i < tableColSize) : rowOf s i = (t i).map itemOf := by
  rw [rowOf, h.disk, Option.getD_some, rowAt_storeOf h.rows hi]

theorem inUse_itemOf {b : List KvSlot} (hb : WfSlots b) {x : KvSlot} (hx : x ∈ b) :
    (itemOf x).InUse ↔ x.isSome := by
  rcases x with _ | ⟨k, v⟩
  · simp [KvItem.InUse, itemOf, KvItem.zero]
  · obtain ⟨-, h₀, hle⟩ := hb k v hx
    simp [KvItem.InUse, itemOf, ofNat_length_ne_zero h₀ hle]

theorem holds_itemOf {b : List KvSlot} (hb : WfSlots b) {x : KvSlot} (hx : x ∈ b) {k : CString} :
    (itemOf x).Holds k ↔ ∃ v, x = some (k, v) := by
  rw [KvItem.Holds, inUse_itemOf hb hx]
  rcases x with _ | ⟨k', v⟩
  · simp
  · obtain ⟨d, hd, hz⟩ := strcmp_key (hb k' v hx).1 k
    simp only [itemOf, hd, Option.isSome_some, true_and, Option.some.injEq, hz, Prod.mk.injEq]
    constructor
    · exact fun h => ⟨v, h, rfl⟩
    · rintro ⟨-, h, -⟩
      exact h

/-- The item of a slot in canonical form. -/
theorem canonical_itemOf {b : List KvSlot} (hb : WfSlots b) {x : KvSlot} (hx : x ∈ b) :
    Canonical (itemOf x) := by
  rcases x with _ | ⟨k, v⟩
  · have hz : ∀ n i : ℕ, (Buf.zero n).bytes.getD i 0 = 0 := getD_append_zeros []
    refine ⟨hz _ _, fun i j _ _ => hz _ _, Int.le_refl 0, by decide, fun i _ => hz _ _, fun _ b hm => ?_⟩
    rw [itemOf, bytes_zero] at hm
    exact (List.mem_replicate.mp hm).2
  · obtain ⟨hk, h₀, hle⟩ := hb k v hx
    have hkey : ∀ i, (Buf.ofList itemMaxKeyLen k.bytes).bytes.getD i 0 = k.bytes.getD i 0 := fun i => by
      rw [Buf.bytes_ofList (Nat.le_of_lt hk)]
      exact getD_append_zeros _ _ i
    have hval : ∀ i, (Buf.ofList itemMaxValLen v).bytes.getD i 0 = v.getD i 0 := fun i => by
      rw [Buf.bytes_ofList hle]
      exact getD_append_zeros _ _ i
    have hlen := toInt_ofNat_length hle
    refine ⟨?_, fun i j hij hi => ?_, ?_, ?_, fun i hi => ?_, fun h0 => ?_⟩
    · simp only [itemOf, hkey]
      exact getD_of_length_le (by omega)
    · simp only [itemOf, hkey] at hi ⊢
      -- a string has no zero before its end
      by_cases hlt : i < k.bytes.length
      · rw [List.getD_eq_getElem?_getD, List.getElem?_eq_getElem hlt, Option.getD_some] at hi
        exact absurd (hi ▸ List.getElem_mem hlt) k.noNul
      · exact getD_of_length_le (by omega)
    · simp only [itemOf, hlen]; omega
    · simp only [itemOf, hlen]; omega
    · simp only [itemOf, hlen, hval] at hi ⊢
      exact getD_of_length_le (by omega)
    · exact absurd h0 (ofNat_length_ne_zero h₀ hle)

/-- The two slots of `k`'s row, and what its items say of them. -/
theorem row_repr (h : Repr s t) (k : CString) : ∃ x y, t (hashGen k) = [x, y] ∧
    rowOf s (hashGen k) = [itemOf x, itemOf y] ∧ ((itemOf x).InUse ↔ x.isSome) ∧
    ((itemOf y).InUse ↔ y.isSome) ∧ (∀ l, (itemOf x).Holds l ↔ ∃ v, x = some (l, v)) ∧
    ∀ l, (itemOf y).Holds l ↔ ∃ v, y = some (l, v) := by
  have hw := h.wf (hashGen k)
  obtain ⟨x, y, e⟩ := List.length_eq_two.mp hw.len
  have hr := rowOf_repr h (hashGen_lt k)
  rw [e] at hw hr
  exact ⟨x, y, e, hr, inUse_itemOf hw.slots (by simp), inUse_itemOf hw.slots (by simp),
    fun l => holds_itemOf hw.slots (by simp), fun l => holds_itemOf hw.slots (by simp)⟩

theorem hidden_pair {k : CString} {x y : KvSlot} :
    Bucket.Hidden k [x, y] ↔ ¬ x.isSome ∧ ∃ v, y = some (k, v) := by
  rcases x with _ | ⟨k₁, v₁⟩
  · have hk : Bucket.Hidden k [none, y] ↔ k ∈ Bucket.keys [y] := Iff.rfl
    rw [hk, Bucket.mem_keys]
    simp [eq_comm]
  · rcases y with _ | ⟨k₂, v₂⟩ <;> simp [Bucket.Hidden]

theorem hiddenKey_iff (h : Repr s t) {k : CString} :
    HiddenKey s k ↔ Bucket.Hidden k (t (hashGen k)) := by
  obtain ⟨x, y, e, hr, hx, -, -, hy⟩ := row_repr h k
  rw [HiddenKey, hr, e, hidden_pair]
  constructor
  · rintro ⟨p, q, he, hp, hq⟩
    cases he
    exact ⟨fun hs => hp (hx.mpr hs), (hy k).mp hq⟩
  · rintro ⟨hp, hq⟩
    exact ⟨_, _, rfl, fun hs => hp (hx.mp hs), (hy k).mpr hq⟩

theorem missedKey_iff (h : Repr s t) {k : CString} :
    MissedKey s k ↔ Bucket.Missed k (storedKey k) (t (hashGen k)) := by
  obtain ⟨x, y, e, hr, hx, -, hx', hy⟩ := row_repr h k
  have hlen : storedKey k ≠ k ↔ itemMaxKeyLen ≤ k.bytes.length := by
    constructor
    · exact fun hne => Nat.not_lt.mp fun hlt => hne (storedKey_of_lt hlt)
    · exact fun hle he => absurd (length_storedKey_lt k) (by rw [he]; omega)
  have hmem : storedKey k ∈ Bucket.keys [x, y] ↔
      (∃ v, x = some (storedKey k, v)) ∨ ∃ v, y = some (storedKey k, v) := by
    rw [Bucket.mem_keys, ← exists_or]
    simp [eq_comm]
  rw [MissedKey, hr, e, Bucket.Missed, hidden_pair, hlen, hmem]
  constructor
  · rintro ⟨p, q, he, hpq⟩
    cases he
    rwa [hx, hy, hx'] at hpq
  · intro hpq
    refine ⟨_, _, rfl, ?_⟩
    rwa [hx, hy, hx']

theorem opensGap_iff (h : Repr s t) {k : CString} :
    OpensGap s (.del k) ↔ Bucket.OpensGap k (t (hashGen k)) := by
  obtain ⟨x, y, e, hr, -, hy', hx, hy⟩ := row_repr h k
  rw [OpensGap, hr, e, Bucket.OpensGap]
  constructor
  · rintro ⟨p, q, he, hp, hq, hn⟩
    cases he
    obtain ⟨v, rfl⟩ := (hx k).mp hp
    obtain ⟨⟨k', v'⟩, rfl⟩ := Option.isSome_iff_exists.mp (hy'.mp hq)
    exact ⟨v, k', v', List.Sublist.refl _, fun hk => hn ((hy k).mpr ⟨v', by rw [hk]⟩)⟩
  · rintro ⟨v, k', v', hs, hne⟩
    obtain ⟨rfl, rfl⟩ : some (k, v) = x ∧ some (k', v') = y := by simpa using hs.eq_of_length rfl
    refine ⟨_, _, rfl, (hx k).mpr ⟨v, rfl⟩, hy'.mpr rfl, fun hn => hne ?_⟩
    obtain ⟨w, hw⟩ := (hy k).mp hn
    cases hw
    rfl

/-- A row of the store is as the walks need it if its bucket is packed, and
holds each key once and at its place. -/
theorem rowInv_iff (h : Repr s t) {i : ℕ} (hi : i < tableColSize) : RowInv i (rowOf s i) ↔
    Bucket.Packed (t i) ∧ Bucket.Distinct (t i) ∧ ∀ k v, some (k, v) ∈ t i → hashGen k = i := by
  have hw := (h.wf i).slots
  have hp : ((t i).map itemOf).Pairwise (fun p q => q.InUse → p.InUse) ↔ Bucket.Packed (t i) := by
    rw [List.pairwise_map]
    exact List.Pairwise.iff_of_mem fun ha hb => by rw [inUse_itemOf hw ha, inUse_itemOf hw hb]
  have hd : ((t i).map itemOf).Pairwise (fun p q => ∀ k, ¬ (p.Holds k ∧ q.Holds k)) ↔
      Bucket.Distinct (t i) := by
    rw [Bucket.Distinct, Bucket.keys, List.Nodup, List.pairwise_filterMap, List.pairwise_map]
    refine List.Pairwise.iff_of_mem fun {x y} hx hy => ?_
    simp only [holds_itemOf hw hx, holds_itemOf hw hy]
    constructor
    · intro hn _ hk _ hk' he
      obtain ⟨⟨k, v⟩, rfl, rfl⟩ := Option.map_eq_some_iff.mp hk
      obtain ⟨⟨k', v'⟩, rfl, rfl⟩ := Option.map_eq_some_iff.mp hk'
      exact hn k ⟨⟨v, rfl⟩, v', by rw [show k = k' from he]⟩
    · rintro hn k ⟨⟨v, rfl⟩, v', rfl⟩
      exact hn k rfl k rfl rfl
  have hh : (∀ p ∈ (t i).map itemOf, p.InUse → ∃ k, p.Holds k ∧ hashGen k = i) ↔
      ∀ k v, some (k, v) ∈ t i → hashGen k = i := by
    constructor
    · intro hall k v hm
      obtain ⟨k', hk', he⟩ := hall _ (List.mem_map_of_mem hm) ((inUse_itemOf hw hm).mpr rfl)
      obtain ⟨v', hv'⟩ := (holds_itemOf hw hm).mp hk'
      cases hv'
      exact he
    · intro hall p hp hu
      obtain ⟨x, hx, rfl⟩ := List.mem_map.mp hp
      obtain ⟨⟨k, v⟩, rfl⟩ := Option.isSome_iff_exists.mp ((inUse_itemOf hw hx).mp hu)
      exact ⟨k, (holds_itemOf hw hx).mpr ⟨v, rfl⟩, hall k v hx⟩
  rw [rowOf_repr h hi]
  constructor
  · intro h
    exact ⟨hp.mp h.packed, hd.mp h.distinct, hh.mp h.home⟩
  · rintro ⟨h₁, h₂, h₃⟩
    exact ⟨hp.mpr h₁, hd.mpr h₂, hh.mpr h₃⟩

end

end Linkkit.Proof.Kv
