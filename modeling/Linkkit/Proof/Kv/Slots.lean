import Linkkit.Framework.Table
import Linkkit.Proof.Kv.Item

/-!
# Rows as buckets of slots

A slot of a row, empty or with a key of at most 127 bytes and a value of 1 to
512, is stored as the item `itemOf` gives: the key and the value zero-padded,
or all zeros. On rows of such items the walks of `hash_table_put`,
`hash_table_get` and `hash_table_rm` do what a bucket's `put`, `find` and
`remove` do to the slots (`putWalk_map`, `getWalk_map`, `rmWalk_map`), and
read and write no byte outside their arrays.
-/

namespace Linkkit.Proof.Kv

open Impl.Kv Bucket

/-- A slot of the store. -/
abbrev KvSlot := Slot CString (List Byte)

/-- The item of a slot. -/
def itemOf : KvSlot → KvItem
  | none => KvItem.zero
  | some (k, v) => ⟨Buf.ofList _ k.bytes, Buf.ofList _ v, Int32.ofNat v.length⟩

/-- Keys and values that fit an item. -/
def WfSlots (b : List KvSlot) : Prop :=
  ∀ k v, some (k, v) ∈ b → k.bytes.length < itemMaxKeyLen ∧ 0 < v.length ∧ v.length ≤ itemMaxValLen

/-- A row of slots that fit their items. -/
structure WfRow (b : List KvSlot) : Prop where
  len : b.length = tableRowSize
  slots : WfSlots b

/-- The form in which a key is stored. -/
abbrev storedKey (key : CString) : CString := key.take (itemMaxKeyLen - 1)

theorem storedKey_of_lt {key : CString} (h : key.bytes.length < itemMaxKeyLen) : storedKey key = key :=
  CString.take_of_length_le (by omega)

theorem length_storedKey_lt (key : CString) : (storedKey key).bytes.length < itemMaxKeyLen :=
  Nat.lt_of_le_of_lt (CString.length_take_le _ key) (by decide)

theorem storedKey_storedKey (key : CString) : storedKey (storedKey key) = storedKey key :=
  storedKey_of_lt (length_storedKey_lt key)

theorem WfSlots.tail {s : KvSlot} {b : List KvSlot} (h : WfSlots (s :: b)) : WfSlots b :=
  fun k v hv => h k v (List.mem_cons_of_mem _ hv)

/-! ## Items of slots -/

theorem toInt_ofNat_length {v : List Byte} (h : v.length ≤ itemMaxValLen) :
    (Int32.ofNat v.length).toInt = v.length :=
  Int32.toInt_ofNat_of_lt (Nat.lt_of_le_of_lt h (by decide))

theorem ofNat_length_ne_zero {v : List Byte} (h₀ : 0 < v.length) (h : v.length ≤ itemMaxValLen) :
    Int32.ofNat v.length ≠ 0 := fun he => by
  have := toInt_ofNat_length h
  rw [he, Int32.toInt_zero] at this
  omega

/-- A stored key in its field, with its terminator. -/
theorem bytes_key {k : CString} (h : k.bytes.length < itemMaxKeyLen) :
    ∃ x, (Buf.ofList itemMaxKeyLen k.bytes).bytes = k.bytes ++ 0 :: x :=
  ⟨_, Buf.bytes_ofList_lt h⟩

/-- `strcmp` of a stored key and a key is zero exactly if they are equal. -/
theorem strcmp_key {k : CString} (h : k.bytes.length < itemMaxKeyLen) (key : CString) :
    ∃ d, strcmp (Buf.ofList itemMaxKeyLen k.bytes).bytes key.mem = some d ∧ (d = 0 ↔ k = key) := by
  obtain ⟨x, hx⟩ := bytes_key h
  obtain ⟨d, hd, hz⟩ := strcmp_string k.noNul key.noNul x []
  exact ⟨d, by rw [hx]; exact hd, by rw [hz, CString.ext_iff]⟩

theorem strcmp_key' {k : CString} (h : k.bytes.length < itemMaxKeyLen) (key : CString) :
    ∃ d, strcmp key.mem (Buf.ofList itemMaxKeyLen k.bytes).bytes = some d ∧ (d = 0 ↔ k = key) := by
  obtain ⟨x, hx⟩ := bytes_key h
  obtain ⟨d, hd, hz⟩ := strcmp_string key.noNul k.noNul [] x
  exact ⟨d, by rw [hx]; exact hd, by rw [hz, CString.ext_iff, eq_comm]⟩

/-! ## The walks -/

/-- A value argument of `value_len` bytes, cut to the field's size already. -/
structure ValueArg (value : List Byte) (n : Int32) : Prop where
  pos : 0 < n.toInt
  le : n.toInt ≤ itemMaxValLen
  fits : n.toInt ≤ value.length

namespace ValueArg

variable {value : List Byte} {n : Int32} (h : ValueArg value n)

include h

theorem sizeT_eq : sizeT n = n.toInt.toNat := sizeT_of_nonneg (Int.le_of_lt h.pos)

theorem length_take : (value.take (sizeT n)).length = n.toInt.toNat := by
  have := h.fits
  rw [List.length_take, h.sizeT_eq]
  omega

theorem ofNat_length_take : Int32.ofNat (value.take (sizeT n)).length = n := by
  have := h.pos
  have := n.toInt_lt
  apply Int32.toInt_inj.mp
  rw [h.length_take, Int32.toInt_ofNat_of_lt (by omega)]
  omega

/-- The value as it is copied into an empty field. -/
theorem memcpy_zero : (Buf.zero itemMaxValLen).memcpy 0 value (sizeT n) =
    some (Buf.ofList _ (value.take (sizeT n))) := by
  have := h.le
  have := h.fits
  exact Buf.memcpy_zero (by rw [h.sizeT_eq]; omega) (by rw [h.sizeT_eq]; omega)

end ValueArg

theorem putWalk_map {key : CString} {value : List Byte} {n : Int32} (hv : ValueArg value n)
    {b : List KvSlot} (hb : WfSlots b) : putWalk key value n (b.map itemOf) =
      some ((put key (storedKey key) (value.take (sizeT n)) b).map (List.map itemOf)) := by
  induction b with
  | nil => rfl
  | cons s b ih =>
    have ih := ih hb.tail
    rcases s with _ | ⟨k, v⟩
    · have hk := Buf.strncpy_zero key (show itemMaxKeyLen - 1 ≤ itemMaxKeyLen by decide)
      simp only [List.map_cons, putWalk, itemOf, KvItem.zero, ne_eq, not_true_eq_false, if_false, hk,
        hv.memcpy_zero, Option.bind_eq_bind, Option.bind_some, Option.pure_def, put, Option.map_some,
        hv.ofNat_length_take]
    · obtain ⟨hk, h₀, hle⟩ := hb k v List.mem_cons_self
      obtain ⟨d, hd, hz⟩ := strcmp_key hk key
      simp only [List.map_cons, putWalk, itemOf, ne_eq, ofNat_length_ne_zero h₀ hle, not_false_eq_true,
        if_true, hd, Option.bind_eq_bind, Option.bind_some, put]
      by_cases he : k = key
      · rw [if_pos (hz.mpr he), if_pos he, Buf.memset_all]
        show ((Buf.zero itemMaxValLen).memcpy 0 value (sizeT n)).bind _ = _
        rw [hv.memcpy_zero]
        simp only [Option.bind_some, Option.pure_def, Option.map_some, List.map_cons, itemOf,
          hv.ofNat_length_take]
      · rw [if_neg (fun h => he (hz.mp h)), if_neg he, ih]
        simp only [Option.bind_some, Option.pure_def, Option.map_map]
        congr 2

theorem getWalk_map {key : CString} {b : List KvSlot} (hb : WfSlots b) :
    getWalk key (b.map itemOf) = some ((find key b).map fun v => itemOf (some (key, v))) := by
  induction b with
  | nil => rfl
  | cons s b ih =>
    have ih := ih hb.tail
    rcases s with _ | ⟨k, v⟩
    · rfl
    · obtain ⟨hk, h₀, hle⟩ := hb k v List.mem_cons_self
      obtain ⟨d, hd, hz⟩ := strcmp_key' hk key
      simp only [List.map_cons, getWalk, itemOf, ne_eq, ofNat_length_ne_zero h₀ hle, not_false_eq_true,
        if_true, hd, Option.bind_eq_bind, Option.bind_some, find]
      by_cases he : k = key
      · rw [if_pos (hz.mpr he), if_pos he, he]; rfl
      · rw [if_neg (fun h => he (hz.mp h)), if_neg he, ih]; rfl

theorem rmWalk_map {key : CString} {b : List KvSlot} (hb : WfSlots b) :
    rmWalk key (b.map itemOf) = some ((remove key b).map itemOf) := by
  induction b with
  | nil => rfl
  | cons s b ih =>
    have ih := ih hb.tail
    rcases s with _ | ⟨k, v⟩
    · rfl
    · obtain ⟨hk, h₀, hle⟩ := hb k v List.mem_cons_self
      obtain ⟨d, hd, hz⟩ := strcmp_key' hk key
      simp only [List.map_cons, rmWalk, itemOf, ne_eq, ofNat_length_ne_zero h₀ hle, not_false_eq_true,
        if_true, hd, ih, Option.bind_eq_bind, Option.bind_some, Option.pure_def, remove]
      by_cases he : k = key
      · rw [if_pos (hz.mpr he), if_pos he]
      · rw [if_neg (fun h => he (hz.mp h)), if_neg he]

/-! ## Rows stay rows -/

theorem WfRow.put {key : CString} {v : List Byte} {b b' : List KvSlot} (hb : WfRow b)
    (h₀ : 0 < v.length) (hle : v.length ≤ itemMaxValLen) (hp : put key (storedKey key) v b = some b') :
    WfRow b' := by
  refine ⟨(length_put hp).trans hb.len, fun k' v' hm => ?_⟩
  rcases mem_of_mem_put hp hm with ⟨rfl, rfl | ⟨rfl, hk⟩⟩ | hm
  · exact ⟨length_storedKey_lt key, h₀, hle⟩
  · obtain ⟨w, hw⟩ := mem_keys.mp hk
    exact ⟨(hb.slots k' w hw).1, h₀, hle⟩
  · exact hb.slots k' v' hm

theorem WfRow.remove {b : List KvSlot} (hb : WfRow b) (key : CString) : WfRow (remove key b) :=
  ⟨(length_remove key b).trans hb.len, fun k v hm => hb.slots k v (mem_of_mem_remove hm)⟩

theorem WfRow.empty : WfRow (List.replicate tableRowSize none) :=
  ⟨rfl, fun k v hm => by cases (List.mem_replicate.mp hm).2⟩

end Linkkit.Proof.Kv
