import Linkkit.Impl.Kv

/-!
# Items, rows and the file of the store

An item and its 644 bytes determine each other (`ofBytes_bytes`,
`bytes_ofBytes`), so do a row and its bytes (`rowOfBytes_rowBytes`), and a
file of 384 rows and the function of its rows (`storeOf`). On such a file
`read_kv_item` gives a row (`readKvItem_storeOf`) and `write_kv_item` replaces
one (`writeKvItem_storeOf`), none of the others.
-/

namespace Linkkit.Proof.Kv

open Impl.Kv

/-! ## Items -/

@[simp] theorem length_bytes (p : KvItem) : p.bytes.length = itemMaxLen := by
  rw [KvItem.bytes, List.length_append, List.length_append, p.key.length_eq, p.value.length_eq,
    length_le32]
  rfl

theorem ofBytes_bytes (p : KvItem) : KvItem.ofBytes p.bytes = p := by
  have hk := p.key.length_eq
  have hv := p.value.length_eq
  have e₁ : p.bytes.take itemMaxKeyLen = p.key.bytes := by
    rw [KvItem.bytes, List.append_assoc, List.take_left' hk]
  have e₂ : slice p.bytes itemMaxKeyLen itemMaxValLen = p.value.bytes := by
    rw [KvItem.bytes, List.append_assoc, slice, List.drop_left' hk, List.take_left' hv]
  have e₃ : p.bytes.drop (itemMaxKeyLen + itemMaxValLen) = le32 p.valueLen.toUInt32 := by
    rw [KvItem.bytes, List.drop_left' (by rw [List.length_append, hk, hv])]
  simp only [KvItem.ofBytes, e₁, e₂, e₃, Buf.ofList_bytes, ofLe32_le32, Int32.toInt32_toUInt32]

theorem bytes_ofBytes {bs : List Byte} (h : bs.length = itemMaxLen) :
    (KvItem.ofBytes bs).bytes = bs := by
  have h₁ : (bs.take itemMaxKeyLen).length = itemMaxKeyLen := by rw [List.length_take, h]; rfl
  have h₂ : (slice bs itemMaxKeyLen itemMaxValLen).length = itemMaxValLen :=
    length_slice (by rw [h]; decide)
  have h₃ : (bs.drop (itemMaxKeyLen + itemMaxValLen)).length = 4 := by
    rw [List.length_drop, h]; rfl
  rw [KvItem.bytes]
  simp only [KvItem.ofBytes, UInt32.toUInt32_toInt32]
  rw [le32_ofLe32 h₃, Buf.bytes_ofList (Nat.le_of_eq h₁), Buf.bytes_ofList (Nat.le_of_eq h₂), h₁, h₂]
  simp only [Nat.sub_self, List.replicate_zero, List.append_nil]
  rw [slice, List.append_assoc, ← List.drop_drop, List.take_append_drop, List.take_append_drop]

/-! ## Rows -/

theorem length_rowBytes (kv : List KvItem) : (rowBytes kv).length = itemMaxLen * kv.length := by
  induction kv with
  | nil => rfl
  | cons p kv ih =>
    rw [rowBytes, List.flatMap_cons, List.length_append, length_bytes, ← rowBytes, ih,
      List.length_cons, Nat.mul_succ, Nat.add_comm]

theorem length_rowBytes_row {kv : List KvItem} (h : kv.length = tableRowSize) :
    (rowBytes kv).length = rowLen := by rw [length_rowBytes, h]

@[simp] theorem length_rowOfBytes (bs : List Byte) : (rowOfBytes bs).length = tableRowSize := by
  simp [rowOfBytes]

theorem rowOfBytes_eq (bs : List Byte) : rowOfBytes bs =
    [KvItem.ofBytes (slice bs 0 itemMaxLen), KvItem.ofBytes (slice bs itemMaxLen itemMaxLen)] := rfl

theorem rowOfBytes_rowBytes {kv : List KvItem} (h : kv.length = tableRowSize) :
    rowOfBytes (rowBytes kv) = kv := by
  obtain ⟨p, q, rfl⟩ := List.length_eq_two.mp h
  have e : rowBytes [p, q] = p.bytes ++ q.bytes := by simp [rowBytes]
  rw [rowOfBytes_eq, e, slice, slice, List.drop_zero, List.take_left' (length_bytes p),
    List.drop_left' (length_bytes p), List.take_of_length_le (Nat.le_of_eq (length_bytes q)),
    ofBytes_bytes, ofBytes_bytes]

theorem rowBytes_rowOfBytes {bs : List Byte} (h : bs.length = rowLen) :
    rowBytes (rowOfBytes bs) = bs := by
  have h₁ : (slice bs 0 itemMaxLen).length = itemMaxLen := length_slice (by rw [h]; decide)
  have h₂ : (slice bs itemMaxLen itemMaxLen).length = itemMaxLen := length_slice (by rw [h]; decide)
  rw [rowOfBytes_eq]
  simp only [rowBytes, List.flatMap_cons, List.flatMap_nil, List.append_nil, bytes_ofBytes h₁,
    bytes_ofBytes h₂]
  have h₃ : (bs.drop itemMaxLen).length ≤ itemMaxLen := by rw [List.length_drop, h]; decide
  rw [slice, slice, List.drop_zero, List.take_of_length_le h₃, List.take_append_drop]

/-! ## The file -/

/-- The file of the rows `r 0, …, r 383`. -/
def storeOf (r : ℕ → List KvItem) : List Byte := blocks tableColSize fun i => rowBytes (r i)

/-- The size of the file, `TABLE_COL_SIZE` rows. -/
abbrev storeLen : Nat := tableColSize * rowLen

@[simp] theorem length_rowAt (f : List Byte) (i : Nat) : (rowAt f i).length = tableRowSize :=
  length_rowOfBytes _

theorem row_end_le {i : Nat} (hi : i < tableColSize) : i * rowLen + rowLen ≤ storeLen := by
  have := Nat.mul_le_mul_right rowLen (show i + 1 ≤ tableColSize from hi)
  rwa [Nat.succ_mul] at this

/-- A file of the full size is the file of its rows. -/
theorem storeOf_rowAt {f : List Byte} (hf : f.length = storeLen) : storeOf (rowAt f) = f := by
  conv => rhs; rw [← blocks_slice (n := tableColSize) (w := rowLen) hf]
  exact blocks_congr fun i hi => rowBytes_rowOfBytes (length_slice (by rw [hf]; exact row_end_le hi))

section

variable {r : ℕ → List KvItem} (hr : ∀ i, (r i).length = tableRowSize)

include hr

theorem length_storeOf : (storeOf r).length = storeLen :=
  length_blocks (fun i => length_rowBytes_row (hr i)) _

theorem slice_storeOf {i : Nat} (hi : i < tableColSize) :
    slice (storeOf r) (i * rowLen) rowLen = rowBytes (r i) :=
  slice_blocks (fun i => length_rowBytes_row (hr i)) hi

theorem rowAt_storeOf {i : Nat} (hi : i < tableColSize) : rowAt (storeOf r) i = r i := by
  rw [rowAt, slice_storeOf hr hi, rowOfBytes_rowBytes (hr i)]

theorem splice_storeOf {i : Nat} (hi : i < tableColSize) {kv : List KvItem}
    (hk : kv.length = tableRowSize) :
    splice (storeOf r) (i * rowLen) (rowBytes kv) = storeOf (Function.update r i kv) := by
  rw [storeOf, splice_blocks (fun i => length_rowBytes_row (hr i)) hi (length_rowBytes_row hk)]
  refine blocks_congr fun j _ => ?_
  by_cases hj : j = i
  · subst hj; rw [Function.update_self, Function.update_self]
  · rw [Function.update_of_ne hj, Function.update_of_ne hj]

end

/-! ## Reading and writing a row -/

theorem hashGen_lt (key : CString) : hashGen key < tableColSize := by
  simp only [hashGen, UInt32.toNat_mod]
  exact Nat.mod_lt _ (by decide)

/-- A row of a file that holds it is read, if the system calls succeed. -/
theorem readKvItem_ok {f : List Byte} {i : Nat} (hf : i * rowLen + rowLen ≤ f.length) :
    readKvItem {} (some f) i = some (rowAt f i) := by
  have h : ¬ f.length < (i + 1) * itemMaxLen * tableRowSize := by
    rw [Nat.mul_assoc, Nat.succ_mul]; exact Nat.not_lt.mpr hf
  simp only [readKvItem, Bool.not_true, Bool.false_eq_true, if_false, h]
  rw [Nat.mul_assoc]; rfl

/-- A row that is read is the one the file holds, whatever fails on the way. -/
theorem readKvItem_eq_some {sys : ReadSys} {disk : Option (List Byte)} {i : Nat} {kv : List KvItem}
    (h : readKvItem sys disk i = some kv) :
    ∃ f, disk = some f ∧ i * rowLen + rowLen ≤ f.length ∧ kv = rowAt f i := by
  cases disk with
  | none => simp [readKvItem] at h
  | some f =>
    simp only [readKvItem] at h
    split at h <;> [cases h; skip]
    split at h <;> [cases h; skip]
    split at h <;> [cases h; skip]
    rename_i hl
    split at h <;> [cases h; skip]
    split at h <;> [cases h; skip]
    rw [Nat.mul_assoc, Nat.succ_mul] at hl
    rw [Nat.mul_assoc] at h
    exact ⟨f, rfl, Nat.not_lt.mp hl, (Option.some.inj h).symm⟩

/-- A row of a file that holds it is replaced, if the system calls succeed. -/
theorem writeKvItem_ok {f : List Byte} {i : Nat} (hf : i * rowLen + rowLen ≤ f.length)
    {kv : List KvItem} (hk : kv.length = tableRowSize) :
    writeKvItem {} (some f) kv i = (0, some (splice f (i * rowLen) (rowBytes kv))) := by
  have h : ¬ f.length < (i + 1) * itemMaxLen * tableRowSize := by
    rw [Nat.mul_assoc, Nat.succ_mul]; exact Nat.not_lt.mpr hf
  have ho : i * rowLen ≤ f.length := Nat.le_trans (Nat.le_add_right _ _) hf
  have hl := length_rowBytes_row hk
  simp only [writeKvItem, Bool.not_true, Bool.false_eq_true, if_false, h,
    List.take_of_length_le (Nat.le_of_eq hl), hl, ne_eq, not_true_eq_false]
  rw [Nat.mul_assoc, pwrite_eq_splice ho]

section

variable {r : ℕ → List KvItem} (hr : ∀ i, (r i).length = tableRowSize)

include hr

theorem readKvItem_storeOf {i : Nat} (hi : i < tableColSize) :
    readKvItem {} (some (storeOf r)) i = some (r i) := by
  rw [readKvItem_ok (by rw [length_storeOf hr]; exact row_end_le hi), rowAt_storeOf hr hi]

theorem writeKvItem_storeOf {i : Nat} (hi : i < tableColSize) {kv : List KvItem}
    (hk : kv.length = tableRowSize) :
    writeKvItem {} (some (storeOf r)) kv i = (0, some (storeOf (Function.update r i kv))) := by
  rw [writeKvItem_ok (by rw [length_storeOf hr]; exact row_end_le hi) hk, splice_storeOf hr hi hk]

end

/-! ## A fresh file -/

/-- An empty row. -/
def emptyRow : List KvItem := [KvItem.zero, KvItem.zero]

theorem bytes_zero : KvItem.zero.bytes = zeros itemMaxLen := by
  have h : le32 (0 : Int32).toUInt32 = zeros 4 := by decide
  rw [KvItem.bytes, KvItem.zero, h, Buf.zero, Buf.zero, ← List.replicate_add, ← List.replicate_add]
  rfl

theorem zeros_rowLen : zeros rowLen = rowBytes emptyRow := by
  rw [rowBytes, emptyRow, List.flatMap_cons, List.flatMap_cons, List.flatMap_nil, List.append_nil,
    bytes_zero, ← List.replicate_add]
  rfl

/-- The rows `create_hash_file` still has to write, if all writes are whole. -/
theorem createRows_whole (accepts : Nat → Option Nat) (n i : Nat)
    (h : ∀ j, i ≤ j → j < i + n → ∃ m, accepts j = some m ∧ rowLen ≤ m) :
    createRows accepts n i (blocks i fun _ => zeros rowLen) =
      (true, blocks (i + n) fun _ => zeros rowLen) := by
  induction n generalizing i with
  | zero => rfl
  | succ n ih =>
    obtain ⟨m, hm, hle⟩ := h i (Nat.le_refl i) (by omega)
    have ht : (zeros rowLen).take m = zeros rowLen :=
      List.take_of_length_le (by rw [List.length_replicate]; exact hle)
    have hl : (blocks i fun _ => zeros rowLen).length = i * rowLen :=
      length_blocks (fun _ => List.length_replicate) i
    have hs := ih (i + 1) fun j h₁ h₂ => h j (by omega) (by omega)
    rw [show i + 1 + n = i + (n + 1) by omega, blocks_succ] at hs
    simp only [createRows, hm, ht, List.length_replicate, ne_eq, not_true_eq_false, if_false]
    rw [← hl, pwrite_end]
    exact hs

/-- A file freshly written by `create_hash_file`: 384 empty rows. -/
theorem createHashFile_ok : createHashFile {} none = (0, some (storeOf fun _ => emptyRow)) := by
  have h := createRows_whole (fun _ => some rowLen) tableColSize 0
    fun _ _ _ => ⟨rowLen, rfl, Nat.le_refl _⟩
  have h₀ : (blocks 0 fun _ => zeros rowLen) = [] := rfl
  rw [h₀, Nat.zero_add] at h
  simp only [createHashFile, Bool.not_true, Bool.false_eq_true, if_false, Option.getD_none, h]
  rw [storeOf, ← zeros_rowLen]

end Linkkit.Proof.Kv
