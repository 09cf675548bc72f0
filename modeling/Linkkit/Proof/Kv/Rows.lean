import Linkkit.Proof.Kv.Failures
import Linkkit.Spec.Kv.Rows

/-!
# Rows are independent

A call reads the row of its key and stores that row (`run_storeOf`), whatever
the file holds; if the items' lengths and keys are as `kv_item_t` means them, it
stays inside its arrays (`onRow_isSome`). So calls for keys of different rows
can be exchanged (`rows_independent`).
-/

namespace Linkkit.Proof.Kv

open Impl.Kv Spec.Kv

/-! ## One row -/

theorem length_onRow {c : RowCall} {row row' : List KvItem} {o : Reply} (h : c.onRow row = some (row', o)) :
    row'.length = row.length := by
  cases c with
  | set key val len =>
    cases val with
    | none => cases h; rfl
    | some val =>
      rw [RowCall.onRow] at h
      split at h
      · cases h; rfl
      · obtain ⟨r, hr, h⟩ := Option.map_eq_some_iff.mp h
        cases r with
        | none => cases h; rfl
        | some kv => cases h; exact length_putWalk hr
  | get key val bufferLen =>
    cases val with
    | none => cases h; rfl
    | some val =>
      cases bufferLen with
      | none => cases h; rfl
      | some n =>
        rw [RowCall.onRow] at h
        split at h
        · cases h; rfl
        · obtain ⟨r, -, h⟩ := Option.bind_eq_some_iff.mp h
          cases r with
          | none => cases h; rfl
          | some p =>
            obtain ⟨v, -, h⟩ := Option.map_eq_some_iff.mp h
            cases h; rfl
  | del key =>
    obtain ⟨kv, hkv, h⟩ := Option.map_eq_some_iff.mp h
    cases h
    exact length_rmWalk hkv

/-! ## The whole file -/

theorem ensureOpen_storeOf (file : Bool) (r : ℕ → List KvItem) :
    ensureOpen .ok ⟨file, some (storeOf r)⟩ = ⟨true, some (storeOf r)⟩ := ensureOpen_ok rfl

section

variable {r : ℕ → List KvItem} (hr : ∀ i, (r i).length = tableRowSize)

include hr

theorem set_storeOf (file : Bool) (key : CString) (val : Option (List Byte)) (len : Int32) :
    (RowCall.set key val len).run ⟨file, some (storeOf r)⟩ = ((RowCall.set key val len).onRow (r (hashGen key))).map
      fun p => (⟨true, some (storeOf (Function.update r (hashGen key) p.1))⟩, p.2) := by
  simp only [RowCall.run, halKvSet, kvSet, ensureOpen_storeOf, Bool.not_true, Bool.false_eq_true, if_false]
  cases val with
  | none => simp only [kvFileSet, Option.map_some, RowCall.onRow, Function.update_eq_self]
  | some val =>
    by_cases hlen : len ≤ 0
    · simp only [kvFileSet, hlen, if_true, Option.map_some, RowCall.onRow, Function.update_eq_self]
    simp only [kvFileSet, hashTablePut, hlen, if_false, Sys.ok_mallocRow, Sys.ok_read, Sys.ok_write, Bool.not_true,
      Bool.false_eq_true, readKvItem_storeOf hr (hashGen_lt key), RowCall.onRow]
    generalize (if len > Int32.ofNat itemMaxValLen then Int32.ofNat itemMaxValLen else len) = n
    cases hw : putWalk key val n (r (hashGen key)) with
    | none => rfl
    | some row =>
      cases row with
      | none => simp
      | some kv =>
        have hk : kv.length = tableRowSize := (length_putWalk hw).trans (hr _)
        simp [writeKvItem_storeOf hr (hashGen_lt key) hk]

theorem get_storeOf (file : Bool) (key : CString) (val : Option (List Byte)) (bufferLen : Option Int32) :
    (RowCall.get key val bufferLen).run ⟨file, some (storeOf r)⟩ =
      ((RowCall.get key val bufferLen).onRow (r (hashGen key))).map
        fun p => (⟨true, some (storeOf (Function.update r (hashGen key) p.1))⟩, p.2) := by
  simp only [RowCall.run, halKvGet, kvGet, ensureOpen_storeOf, Bool.not_true, Bool.false_eq_true, if_false]
  cases val with
  | none => simp only [kvFileGet, Option.map_some, RowCall.onRow, Function.update_eq_self]
  | some val =>
    cases bufferLen with
    | none => simp only [kvFileGet, Option.map_some, RowCall.onRow, Function.update_eq_self]
    | some n =>
      by_cases hn : n ≤ 0
      · simp only [kvFileGet, hn, if_true, Option.map_some, RowCall.onRow, Function.update_eq_self]
      simp only [kvFileGet, hashTableGet, hn, if_false, Sys.ok_mallocRow, Sys.ok_read, Bool.not_true,
        Bool.false_eq_true, readKvItem_storeOf hr (hashGen_lt key), RowCall.onRow]
      cases getWalk key (r (hashGen key)) with
      | none => rfl
      | some p =>
        cases p with
        | none => simp
        | some p => cases hm : memcpy val 0 p.value.bytes (sizeT (if p.valueLen < n then p.valueLen else n)) <;> simp [hm]

theorem del_storeOf (file : Bool) (key : CString) :
    (RowCall.del key).run ⟨file, some (storeOf r)⟩ = ((RowCall.del key).onRow (r (hashGen key))).map
      fun p => (⟨true, some (storeOf (Function.update r (hashGen key) p.1))⟩, p.2) := by
  have hi : hashGen key % tableColSize = hashGen key := Nat.mod_eq_of_lt (hashGen_lt key)
  simp only [RowCall.run, halKvDel, kvDel, ensureOpen_storeOf, Bool.not_true, Bool.false_eq_true, if_false,
    kvFileDel, hashTableRm, hi, Sys.ok_mallocRow, Sys.ok_read, Sys.ok_write, readKvItem_storeOf hr (hashGen_lt key),
    RowCall.onRow]
  cases hw : rmWalk key (r (hashGen key)) with
  | none => rfl
  | some kv =>
    have hk : kv.length = tableRowSize := (length_rmWalk hw).trans (hr _)
    simp [writeKvItem_storeOf hr (hashGen_lt key) hk]

/-- A call stores the row of its key, and nothing else. -/
theorem run_storeOf (file : Bool) (c : RowCall) : c.run ⟨file, some (storeOf r)⟩ =
    (c.onRow (r (hashGen c.key))).map fun p =>
      (⟨true, some (storeOf (Function.update r (hashGen c.key) p.1))⟩, p.2) := by
  cases c with
  | set key val len => exact set_storeOf hr file key val len
  | get key val bufferLen => exact get_storeOf hr file key val bufferLen
  | del key => exact del_storeOf hr file key

/-- The bytes of the other rows. -/
theorem sameButRow_storeOf {i : ℕ} (hi : i < tableColSize) {kv : List KvItem} (hk : kv.length = tableRowSize) :
    SameButRow i (storeOf r) (some (storeOf (Function.update r i kv))) := by
  have hl := length_rowBytes_row hk
  have hle : i * rowLen + (rowBytes kv).length ≤ (storeOf r).length := by
    rw [hl, length_storeOf hr]
    exact row_end_le hi
  rw [← splice_storeOf hr hi hk]
  refine ⟨_, rfl, length_splice hle, fun j hj => ?_⟩
  rw [splice_getElem? hle, hl, if_neg hj]

end

/-! ## Accesses -/

/-- `strcmp` of an object with a terminator and a string. -/
theorem strcmp_isSome {a : List Byte} (ha : 0 ∈ a) (key : CString) :
    (∃ d, strcmp a key.mem = some d) ∧ ∃ d, strcmp key.mem a = some d := by
  obtain ⟨s, x, rfl, hs⟩ := List.eq_append_cons_of_mem ha
  obtain ⟨d, hd, -⟩ := strcmp_string hs key.noNul x []
  obtain ⟨d', hd', -⟩ := strcmp_string key.noNul hs [] x
  exact ⟨⟨d, hd⟩, d', hd'⟩

section

variable {key : CString} {row : List KvItem} (hkeys : ∀ p ∈ row, 0 ∈ p.key.bytes)

include hkeys

theorem putWalk_isSome {val : List Byte} {n : Int32} (hn : ValueArg val n) : ∃ r, putWalk key val n row = some r := by
  have hcopy (b : Buf itemMaxValLen) : ∃ v, b.memcpy 0 val (sizeT n) = some v := by
    have hle := hn.le
    have hfits := hn.fits
    have hpos := hn.pos
    have hroom : 0 + sizeT n ≤ itemMaxValLen := by rw [hn.sizeT_eq]; omega
    have hval : sizeT n ≤ val.length := by rw [hn.sizeT_eq]; omega
    obtain ⟨v, hv, -⟩ := Buf.memcpy_eq b hroom hval
    exact ⟨v, hv⟩
  induction row with
  | nil => exact ⟨none, rfl⟩
  | cons p ps ih =>
    obtain ⟨hp, hps⟩ := List.forall_mem_cons.mp hkeys
    rw [putWalk]
    split
    · obtain ⟨⟨c, hc⟩, -⟩ := strcmp_isSome hp key
      rw [hc]
      show ∃ r, (if c = 0 then _ else _) = some r
      split
      · rw [Buf.memset_all]
        obtain ⟨v, hv⟩ := hcopy ⟨List.replicate itemMaxValLen 0, List.length_replicate⟩
        exact ⟨_, congrArg (Option.bind · _) hv⟩
      · obtain ⟨r, hr⟩ := ih hps
        exact ⟨_, congrArg (Option.bind · _) hr⟩
    · obtain ⟨k, hk⟩ := Buf.strncpy_isSome p.key key (show itemMaxKeyLen - 1 ≤ itemMaxKeyLen by decide)
      obtain ⟨v, hv⟩ := hcopy p.value
      rw [hk]
      exact ⟨_, congrArg (Option.bind · _) hv⟩

theorem rmWalk_isSome : ∃ r, rmWalk key row = some r := by
  induction row with
  | nil => exact ⟨[], rfl⟩
  | cons p ps ih =>
    obtain ⟨hp, hps⟩ := List.forall_mem_cons.mp hkeys
    rw [rmWalk]
    split
    · obtain ⟨-, c, hc⟩ := strcmp_isSome hp key
      obtain ⟨r, hr⟩ := ih hps
      rw [hc, hr]
      exact ⟨_, rfl⟩
    · exact ⟨_, rfl⟩

/-- The walk of a Get ends, with an item of the row if it finds one. -/
theorem getWalk_isSome : ∃ r, getWalk key row = some r ∧ ∀ p ∈ r, p ∈ row := by
  induction row with
  | nil => exact ⟨none, rfl, nofun⟩
  | cons p ps ih =>
    obtain ⟨hp, hps⟩ := List.forall_mem_cons.mp hkeys
    rw [getWalk]
    split
    · obtain ⟨-, c, hc⟩ := strcmp_isSome hp key
      rw [hc]
      show ∃ r, (if c = 0 then _ else _) = some r ∧ _
      split
      · exact ⟨some p, rfl, fun q hq => Option.some.inj hq ▸ List.mem_cons_self⟩
      · obtain ⟨r, hr, hmem⟩ := ih hps
        exact ⟨r, hr, fun q hq => List.mem_cons_of_mem _ (hmem q hq)⟩
    · exact ⟨none, rfl, nofun⟩

end

/-- A call stays inside its arrays. -/
theorem onRow_isSome {c : RowCall} {row : List KvItem} (hc : c.InBounds)
    (hrow : ∀ p ∈ row, 0 ≤ p.valueLen.toInt ∧ p.valueLen.toInt ≤ itemMaxValLen ∧ 0 ∈ p.key.bytes) :
    ∃ r, c.onRow row = some r := by
  have hkeys : ∀ p ∈ row, 0 ∈ p.key.bytes := fun p hp => (hrow p hp).2.2
  cases c with
  | set key val len =>
    cases val with
    | none => exact ⟨_, rfl⟩
    | some val =>
      rw [RowCall.onRow]
      split
      · exact ⟨_, rfl⟩
      · rename_i hlen
        rw [Int32.le_iff_toInt_le, Int32.toInt_zero, Int.not_le] at hlen
        obtain ⟨r, hr⟩ := putWalk_isSome hkeys (valueArg_cut hlen (hc val rfl) rfl).1
        exact ⟨_, congrArg (Option.map _) hr⟩
  | get key val bufferLen =>
    cases val with
    | none => exact ⟨_, rfl⟩
    | some val =>
      cases bufferLen with
      | none => exact ⟨_, rfl⟩
      | some n =>
        rw [RowCall.onRow]
        split
        · exact ⟨_, rfl⟩
        rename_i hn
        rw [Int32.le_iff_toInt_le, Int32.toInt_zero, Int.not_le] at hn
        obtain ⟨r, hr, hmem⟩ := getWalk_isSome hkeys
        rw [hr]
        cases r with
        | none => exact ⟨_, rfl⟩
        | some p =>
          obtain ⟨h₀, hle, -⟩ := hrow p (hmem p rfl)
          have hfits := hc val rfl n rfl
          have hm : sizeT (if p.valueLen < n then p.valueLen else n) ≤ min itemMaxValLen val.length := by
            have hmin := toInt_ite_lt p.valueLen n
            rw [sizeT_of_nonneg (by omega), hmin]
            omega
          have hvalue := p.value.length_eq
          have hcopy : ∃ v, memcpy val 0 p.value.bytes (sizeT (if p.valueLen < n then p.valueLen else n)) = some v :=
            ⟨_, if_pos ⟨by omega, by omega⟩⟩
          obtain ⟨v, hv⟩ := hcopy
          exact ⟨_, congrArg (Option.map _) hv⟩
  | del key =>
    obtain ⟨r, hr⟩ := rmWalk_isSome hkeys
    exact ⟨_, congrArg (Option.map _) hr⟩

/-! ## Two calls -/

/-- Calls for keys of different rows can be exchanged: each returns the same
and the file is the same in the end; and neither changes a byte outside its
row. -/
theorem rows_independent {s : KvState} {f : List Byte} (hd : s.disk = some f) (hf : FullFile f) {a b : RowCall}
    (ha : a.InBounds) (hb : b.InBounds) (hne : hashGen a.key ≠ hashGen b.key) :
    ∃ s₁ t₁ s₂ ra rb, a.run s = some (s₁, ra) ∧ b.run s₁ = some (s₂, rb) ∧
      b.run s = some (t₁, rb) ∧ a.run t₁ = some (s₂, ra) ∧
      SameButRow (hashGen a.key) f s₁.disk ∧ SameButRow (hashGen b.key) f t₁.disk := by
  obtain ⟨file, disk⟩ := s
  cases hd
  obtain ⟨r, hr, rfl⟩ : ∃ r : ℕ → List KvItem, (∀ i, (r i).length = tableRowSize) ∧ storeOf r = f :=
    ⟨rowAt f, length_rowAt f, storeOf_rowAt hf.length⟩
  have hitems (key : CString) := rowAt_storeOf hr (hashGen_lt key) ▸ hf.items _ (hashGen_lt key)
  obtain ⟨⟨ka, ra⟩, hra⟩ := onRow_isSome ha (hitems a.key)
  obtain ⟨⟨kb, rb⟩, hrb⟩ := onRow_isSome hb (hitems b.key)
  have hka : ka.length = tableRowSize := (length_onRow hra).trans (hr _)
  have hkb : kb.length = tableRowSize := (length_onRow hrb).trans (hr _)
  have hupd {i : ℕ} {kv : List KvItem} (hk : kv.length = tableRowSize) (j : ℕ) :
      (Function.update r i kv j).length = tableRowSize := by
    by_cases hj : j = i
    · rw [hj, Function.update_self, hk]
    · rw [Function.update_of_ne hj, hr]
  have hab : b.run ⟨true, some (storeOf (Function.update r (hashGen a.key) ka))⟩ =
      some (⟨true, some (storeOf (Function.update (Function.update r (hashGen a.key) ka) (hashGen b.key) kb))⟩, rb) := by
    rw [run_storeOf (hupd hka), Function.update_of_ne hne.symm, hrb]
    rfl
  have hba : a.run ⟨true, some (storeOf (Function.update r (hashGen b.key) kb))⟩ =
      some (⟨true, some (storeOf (Function.update (Function.update r (hashGen a.key) ka) (hashGen b.key) kb))⟩, ra) := by
    rw [run_storeOf (hupd hkb), Function.update_of_ne hne, hra, Function.update_comm hne]
    rfl
  refine ⟨_, _, _, ra, rb, ?_, hab, ?_, hba, sameButRow_storeOf hr (hashGen_lt _) hka,
    sameButRow_storeOf hr (hashGen_lt _) hkb⟩
  · rw [run_storeOf hr, hra]
    rfl
  · rw [run_storeOf hr, hrb]
    rfl

theorem fullFile_empty : FullFile (storeOf fun _ => emptyRow) where
  length := length_storeOf fun _ => rfl
  items i hi p hp := by
    rw [rowAt_storeOf (fun _ => rfl) hi, emptyRow, List.mem_pair, or_self] at hp
    rw [hp]
    exact ⟨Int.le_refl 0, by decide, List.mem_replicate.mpr ⟨by decide, rfl⟩⟩

theorem disk_freshStore : freshStore.disk = some (storeOf fun _ => emptyRow) := by
  rw [freshStore, createHashFile_ok]

/-- A Set of one key and a Get of another, which has a longer buffer. -/
theorem rows_independent_set_get : ∃ s₁ t₁ s₂ ra rb,
    (RowCall.set keyA (some [1, 2]) 2).run freshStore = some (s₁, ra) ∧
      (RowCall.get ⟨ascii "on", by decide⟩ (some [0, 0, 0]) (some 3)).run s₁ = some (s₂, rb) ∧
      (RowCall.get ⟨ascii "on", by decide⟩ (some [0, 0, 0]) (some 3)).run freshStore = some (t₁, rb) ∧
      (RowCall.set keyA (some [1, 2]) 2).run t₁ = some (s₂, ra) ∧
      SameButRow (hashGen keyA) (storeOf fun _ => emptyRow) s₁.disk ∧
      SameButRow (hashGen ⟨ascii "on", by decide⟩) (storeOf fun _ => emptyRow) t₁.disk :=
  rows_independent disk_freshStore fullFile_empty
    (fun v hv => by cases hv; decide) (fun v hv n hn => by cases hv; cases hn; decide) (by decide)

end Linkkit.Proof.Kv
