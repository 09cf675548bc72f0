import Linkkit.Proof.Kv.Steps

/-!
# Calls that fail

A row is rewritten in place by one `write`, and nothing undoes a part of it.
`failed_update` lists how a Set or Del that returns -1 can end: with the file
as before, or with some of the new row's bytes stored, if `write` stored some
and not all of them; the other rows are the same in either case. In
`short_write_changes` a Set that fails so has changed the value.
-/

namespace Linkkit.Proof.Kv

open Impl.Kv Spec.Kv

/-! ## Outcomes of a write -/

section

variable {f : List Byte} {i : ℕ}

theorem length_putWalk {key : CString} {value : List Byte} {n : Int32} {kv kv' : List KvItem}
    (h : putWalk key value n kv = some (some kv')) : kv'.length = kv.length := by
  induction kv generalizing kv' with
  | nil => cases h
  | cons p ps ih =>
    simp only [putWalk, ne_eq, Option.bind_eq_bind, Option.pure_def] at h
    split at h
    · obtain ⟨c, -, h⟩ := Option.bind_eq_some_iff.mp h
      split at h
      · obtain ⟨v, -, h⟩ := Option.bind_eq_some_iff.mp h
        obtain ⟨w, -, h⟩ := Option.bind_eq_some_iff.mp h
        cases h
        rfl
      · obtain ⟨r, hr, h⟩ := Option.bind_eq_some_iff.mp h
        obtain ⟨ps', rfl, rfl⟩ := Option.map_eq_some_iff.mp (Option.some.inj h)
        rw [List.length_cons, List.length_cons, ih hr]
    · obtain ⟨k, -, h⟩ := Option.bind_eq_some_iff.mp h
      obtain ⟨v, -, h⟩ := Option.bind_eq_some_iff.mp h
      cases h
      rfl

theorem length_rmWalk {key : CString} {kv kv' : List KvItem} (h : rmWalk key kv = some kv') :
    kv'.length = kv.length := by
  induction kv generalizing kv' with
  | nil => cases h; rfl
  | cons p ps ih =>
    simp only [rmWalk, ne_eq, Option.bind_eq_bind, Option.pure_def] at h
    split at h
    · obtain ⟨c, -, h⟩ := Option.bind_eq_some_iff.mp h
      obtain ⟨ps', hps, h⟩ := Option.bind_eq_some_iff.mp h
      cases h
      rw [List.length_cons, List.length_cons, ih hps]
    · cases h
      rfl

/-- A write that stores at most `n` bytes of a row. -/
theorem writeKvItem_accepts (n : ℕ) (hf : i * rowLen + rowLen ≤ f.length) {kv : List KvItem}
    (hk : kv.length = tableRowSize) : writeKvItem { accepts := some n } (some f) kv i =
      (if n < rowLen then -1 else 0, some (splice f (i * rowLen) ((rowBytes kv).take n))) := by
  have h : ¬ f.length < (i + 1) * itemMaxLen * tableRowSize := by
    rw [Nat.mul_assoc, Nat.succ_mul]; exact Nat.not_lt.mpr hf
  have ho : i * rowLen ≤ f.length := Nat.le_trans (Nat.le_add_right _ _) hf
  have hl := length_rowBytes_row hk
  simp only [writeKvItem, h, if_false, Bool.not_true, Bool.false_eq_true]
  refine Prod.ext ?_ ?_
  · simp only [List.length_take, hl]
    show (if min n rowLen ≠ rowLen then (-1 : Int) else 0) = _
    by_cases hlt : n < rowLen
    · rw [if_pos hlt, if_pos (by omega)]
    · rw [if_neg hlt, if_neg (by omega)]
  · simp only [Nat.mul_assoc]
    rw [pwrite_eq_splice ho]

/-- How a write of a row ends: it changes nothing, or stores the first bytes
of the row. -/
theorem writeKvItem_cases (sys : WriteSys) (hf : i * rowLen + rowLen ≤ f.length) {kv : List KvItem}
    (hk : kv.length = tableRowSize) : writeKvItem sys (some f) kv i = (-1, some f) ∨
      ∃ n, sys.accepts = some n ∧ writeKvItem sys (some f) kv i =
        (if n < rowLen then -1 else 0, some (splice f (i * rowLen) ((rowBytes kv).take n))) := by
  have h : ¬ f.length < (i + 1) * itemMaxLen * tableRowSize := by
    rw [Nat.mul_assoc, Nat.succ_mul]; exact Nat.not_lt.mpr hf
  obtain ⟨opens, fstats, lseeks, accepts⟩ := sys
  cases opens
  · exact .inl rfl
  cases fstats
  · exact .inl rfl
  cases lseeks
  · exact .inl (by simp only [writeKvItem, h]; rfl)
  cases accepts with
  | none => exact .inl (by simp only [writeKvItem, h]; rfl)
  | some n => exact .inr ⟨n, rfl, writeKvItem_accepts n hf hk⟩

/-- What a Set or Del returns after its write, and the file then. -/
abbrev written (sys : WriteSys) (disk : Option (List Byte)) (kv : List KvItem) (i : ℕ) :
    Int × Option (List Byte) :=
  (if (writeKvItem sys disk kv i).1 < 0 then -1 else 0, (writeKvItem sys disk kv i).2)

/-- The outcomes of a call that writes row `i` of the file `f`: it returns -1
and stores nothing, or it stores what the call would store, all system calls
succeeding, up to a byte. -/
def RowWrite (sys : Sys) (f : List Byte) (i : ℕ) (ok r : Int × Option (List Byte)) : Prop :=
  r = (-1, some f) ∨ ∃ kv n, i * rowLen + rowLen ≤ f.length ∧ kv.length = tableRowSize ∧
    ok = (0, some (splice f (i * rowLen) (rowBytes kv))) ∧ sys.write.accepts = some n ∧
    r = (if n < rowLen then -1 else 0, some (splice f (i * rowLen) ((rowBytes kv).take n)))

theorem rowWrite_written (sys : Sys) (hf : i * rowLen + rowLen ≤ f.length) {kv : List KvItem}
    (hk : kv.length = tableRowSize) :
    RowWrite sys f i (written {} (some f) kv i) (written sys.write (some f) kv i) := by
  have hok : written {} (some f) kv i = (0, some (splice f (i * rowLen) (rowBytes kv))) := by
    simp [written, writeKvItem_ok hf hk]
  rcases writeKvItem_cases sys.write hf hk with h | ⟨n, hn, h⟩
  · exact .inl (by simp [written, h])
  · refine .inr ⟨kv, n, hf, hk, hok, hn, ?_⟩
    simp only [written, h]
    by_cases hlt : n < rowLen <;> simp [hlt]

theorem hashTablePut_cases {sys : Sys} {key : CString} {val : Option (List Byte)} {len : Int32}
    {r : Int × Option (List Byte)} (h : hashTablePut sys (some f) (some key) val len = some r) :
    r = (-1, some f) ∨ ∃ ok, hashTablePut .ok (some f) (some key) val len = some ok ∧
      RowWrite sys f (hashGen key) ok r := by
  cases val with
  | none => cases h; exact .inl rfl
  | some value =>
    simp only [hashTablePut] at h ⊢
    split at h
    · cases h; exact .inl rfl
    rename_i hlen
    split at h
    · cases h; exact .inl rfl
    split at h
    · cases h; exact .inl rfl
    rename_i kv hkv
    obtain ⟨f', hf', hle, rfl⟩ := readKvItem_eq_some hkv
    cases hf'
    simp only [Option.bind_eq_bind] at h
    obtain ⟨r', hw, h⟩ := Option.bind_eq_some_iff.mp h
    cases r' with
    | none => cases h; exact .inl rfl
    | some kv' =>
      have hk : kv'.length = tableRowSize := (length_putWalk hw).trans (length_rowAt f _)
      cases h
      refine .inr ⟨written {} (some f) kv' (hashGen key), ?_, rowWrite_written sys hle hk⟩
      simp only [hlen, if_false, Sys.ok_mallocRow, Sys.ok_read, Sys.ok_write, Bool.not_true,
        Bool.false_eq_true, readKvItem_ok hle, Option.bind_eq_bind, hw, Option.bind_some, Option.pure_def]
      rfl

theorem hashTableRm_cases {sys : Sys} {key : CString} {r : Int × Option (List Byte)}
    (h : hashTableRm sys (some f) (some key) = some r) :
    r = (-1, some f) ∨ ∃ ok, hashTableRm .ok (some f) (some key) = some ok ∧
      RowWrite sys f (hashGen key) ok r := by
  have hi : hashGen key % tableColSize = hashGen key := Nat.mod_eq_of_lt (hashGen_lt key)
  simp only [hashTableRm, hi] at h ⊢
  split at h
  · cases h; exact .inl rfl
  split at h
  · cases h; exact .inl rfl
  rename_i kv hkv
  obtain ⟨f', hf', hle, rfl⟩ := readKvItem_eq_some hkv
  cases hf'
  simp only [Option.bind_eq_bind] at h
  obtain ⟨kv', hw, h⟩ := Option.bind_eq_some_iff.mp h
  have hk : kv'.length = tableRowSize := (length_rmWalk hw).trans (length_rowAt f _)
  cases h
  refine .inr ⟨written {} (some f) kv' (hashGen key), ?_, rowWrite_written sys hle hk⟩
  simp only [Sys.ok_mallocRow, Sys.ok_read, Sys.ok_write, Bool.not_true, Bool.false_eq_true, if_false,
    readKvItem_ok hle, Option.bind_eq_bind, hw, Option.bind_some, Option.pure_def]
  rfl

end

/-! ## Sets and Dels -/

section

variable {s : KvState} {f : List Byte}

theorem ensureOpen_disk (sys : Sys) (h : s.disk = some f) : (ensureOpen sys s).disk = some f := by
  obtain ⟨file, disk⟩ := s
  cases h
  cases file
  · cases hm : sys.mallocFile <;> simp [ensureOpen, kvOpen, hm]
  · rfl

theorem update_cases {u : Update} {sys : Sys} {s' : KvState} {ret : Int} (hd : s.disk = some f)
    (h : u.run sys s = some (s', ret)) : (ret = -1 ∧ s'.disk = some f) ∨
      ∃ key ok, u.key = some key ∧ (∃ s₀ : KvState, u.run .ok s = some (s₀, ok.1) ∧ s₀.disk = ok.2) ∧
        RowWrite sys f (hashGen key) ok (ret, s'.disk) := by
  have hd' := ensureOpen_disk sys hd
  cases u with
  | set key val len =>
    simp only [Update.run, halKvSet, kvSet] at h
    split at h
    · cases h; exact .inl ⟨rfl, hd'⟩
    rw [hd'] at h
    obtain ⟨r, hr, he⟩ := Option.map_eq_some_iff.mp h
    cases he
    cases key with
    | none => cases hr; exact .inl ⟨rfl, rfl⟩
    | some key =>
      cases val with
      | none => cases hr; exact .inl ⟨rfl, rfl⟩
      | some val =>
        simp only [kvFileSet] at hr
        split at hr
        · cases hr; exact .inl ⟨rfl, rfl⟩
        rename_i hlen
        rcases hashTablePut_cases hr with rfl | ⟨ok, hok, hw⟩
        · exact .inl ⟨rfl, rfl⟩
        · refine .inr ⟨key, ok, rfl, ⟨⟨true, ok.2⟩, ?_, rfl⟩, hw⟩
          simp only [Update.run, halKvSet, kvSet, ensureOpen_ok hd, Bool.not_true, Bool.false_eq_true,
            if_false, kvFileSet, hlen, hok, Option.map_some]
  | del key =>
    simp only [Update.run, halKvDel, kvDel] at h
    split at h
    · cases h; exact .inl ⟨rfl, hd'⟩
    rw [hd'] at h
    obtain ⟨r, hr, he⟩ := Option.map_eq_some_iff.mp h
    cases he
    cases key with
    | none => cases hr; exact .inl ⟨rfl, rfl⟩
    | some key =>
      rcases hashTableRm_cases hr with rfl | ⟨ok, hok, hw⟩
      · exact .inl ⟨rfl, rfl⟩
      · refine .inr ⟨key, ok, rfl, ⟨⟨true, ok.2⟩, ?_, rfl⟩, hw⟩
        simp only [Update.run, halKvDel, kvDel, ensureOpen_ok hd, Bool.not_true, Bool.false_eq_true,
          if_false, kvFileDel, hok, Option.map_some]

/-- What a Get returns depends on the row of its key only. -/
theorem sameGet_of_row {s' : KvState} {f' : List Byte} {k : CString} (hd : s.disk = some f)
    (hd' : s'.disk = some f') (hr : readKvItem {} (some f) (hashGen k) = readKvItem {} (some f') (hashGen k)) :
    SameGet s s' k := by
  intro buf n
  have hget : ∀ len, hashTableGet .ok (some f) (some k) buf len = hashTableGet .ok (some f') (some k) buf len := by
    intro len
    cases buf with
    | none => rfl
    | some buf =>
      cases len with
      | none => rfl
      | some n => simp only [hashTableGet, Sys.ok_read, hr]
  simp only [halKvGet, kvGet, ensureOpen_ok hd, ensureOpen_ok hd', Bool.not_true, Bool.false_eq_true,
    if_false, kvFileGet, hget, Option.map_map, Function.comp_def]

theorem readKvItem_splice {data : List Byte} {i j : ℕ} (hi : i * rowLen + rowLen ≤ f.length)
    (hl : data.length ≤ rowLen) (hij : j ≠ i) :
    readKvItem {} (some (splice f (i * rowLen) data)) j = readKvItem {} (some f) j := by
  have hle : i * rowLen + data.length ≤ f.length := by omega
  have hdis : j * rowLen + rowLen ≤ i * rowLen ∨ i * rowLen + data.length ≤ j * rowLen := by
    rcases Nat.lt_or_gt_of_ne hij with h | h
    · have := Nat.mul_le_mul_right rowLen (show j + 1 ≤ i from h)
      rw [Nat.succ_mul] at this
      exact .inl this
    · have := Nat.mul_le_mul_right rowLen (show i + 1 ≤ j from h)
      rw [Nat.succ_mul] at this
      exact .inr (by omega)
  have hs := slice_splice_of_disjoint hle hdis
  simp only [readKvItem, length_splice hle, Nat.mul_assoc, hs]

/-- A Set or Del that returns -1 has changed nothing, or its `write` has
stored the first bytes of the row that the call, succeeding, would have
stored; the rows of other keys are as before then too. -/
theorem failed_update {u : Update} {sys : Sys} {s' : KvState} (hd : s.disk = some f)
    (h : u.run sys s = some (s', -1)) : (s'.disk = some f ∧ ∀ k, SameGet s s' k) ∨
      ∃ key n row, u.key = some key ∧ ShortWrite sys n ∧ row.length = rowLen ∧
        (∃ s₀ : KvState, u.run .ok s = some (s₀, 0) ∧ s₀.disk = some (splice f (hashGen key * rowLen) row)) ∧
        s'.disk = some (splice f (hashGen key * rowLen) (row.take n)) ∧
        ∀ k, hashGen k ≠ hashGen key → SameGet s s' k := by
  have hsame : s'.disk = some f → ∀ k, SameGet s s' k := fun he k => sameGet_of_row hd he rfl
  rcases update_cases hd h with ⟨-, he⟩ | ⟨key, ok, hk, ⟨s₀, hs₀, hdisk⟩, he | ⟨kv, n, hle, hl, rfl, hn, he⟩⟩
  · exact .inl ⟨he, hsame he⟩
  · exact .inl ⟨(Prod.mk.inj he).2, hsame (Prod.mk.inj he).2⟩
  · obtain ⟨hret, hd'⟩ := Prod.mk.inj he
    have hlt : n < rowLen := by
      by_contra hge
      rw [if_neg hge] at hret
      cases hret
    rcases Nat.eq_zero_or_pos n with rfl | hpos
    · rw [List.take_zero, splice_nil] at hd'
      exact .inl ⟨hd', hsame hd'⟩
    · refine .inr ⟨key, n, rowBytes kv, hk, ⟨hn, hpos, hlt⟩, length_rowBytes_row hl, ⟨s₀, hs₀, hdisk⟩, hd',
        fun k hne => sameGet_of_row hd hd' (readKvItem_splice hle ?_ hne).symm⟩
      rw [List.length_take, length_rowBytes_row hl]
      exact Nat.min_le_right _ _

end

/-! ## A short write -/

/-- A short write that stores all the bytes in which two rows differ does what
the whole one would. -/
theorem halKvSet_short {s : KvState} {t : KvTable} (h : Repr s t) {key : CString} {val : List Byte}
    {len : Int32} (h₀ : 0 < len.toInt) (hf : len.toInt ≤ val.length) {b : List KvSlot}
    (hp : Bucket.put key (storedKey key) (stored val len) (t (hashGen key)) = some b) {n : ℕ}
    (hn : n < rowLen) (hd : (rowBytes (b.map itemOf)).drop n =
      (rowBytes ((t (hashGen key)).map itemOf)).drop n) :
    ∃ s', halKvSet { write := { accepts := some n } } s (some key) (some val) len = some (s', -1) ∧
      Repr s' (Function.update t (hashGen key) b) := by
  obtain ⟨hv, hsz⟩ := valueArg_cut h₀ hf rfl
  have hb : WfRow b := wfRow_put h h₀ hf hp
  have hend : hashGen key * rowLen + rowLen ≤ (storeOf fun i => (t i).map itemOf).length := by
    rw [length_storeOf h.rows]; exact row_end_le (hashGen_lt key)
  have hw := writeKvItem_accepts n hend hb.length_map
  rw [if_pos hn, splice_eq_of_slice (slice_storeOf h.rows (hashGen_lt key)) (length_rowBytes_row hb.length_map)
    hend hd, splice_storeOf h.rows (hashGen_lt key) hb.length_map] at hw
  have ho : ensureOpen { write := { accepts := some n } } s = ⟨true, _⟩ := ensureOpen_malloc rfl h.disk
  refine ⟨_, ?_, h.update hb⟩
  simp only [halKvSet, kvSet, ho, Bool.not_true, Bool.false_eq_true, if_false,
    kvFileSet, hashTablePut, not_le_zero h₀, readKvItem_storeOf h.rows (hashGen_lt key),
    putWalk_map hv (h.wf _).slots, hsz, Option.bind_eq_bind, Option.bind_some, hp, Option.map_some, hw]
  rfl

/-- A one-byte value takes one byte of its item. -/
theorem drop_itemOf (k : CString) (b : Byte) : (itemOf (some (k, [b]))).bytes.drop (itemMaxKeyLen + 1) =
    zeros (itemMaxValLen - 1) ++ le32 1 := by
  have hk := (Buf.ofList itemMaxKeyLen k.bytes).length_eq
  have hv : (Buf.ofList itemMaxValLen [b]).bytes = b :: zeros (itemMaxValLen - 1) :=
    Buf.bytes_ofList (show 1 ≤ itemMaxValLen by decide)
  rw [KvItem.bytes, itemOf, hv, ← List.drop_drop, List.append_assoc, List.drop_left' hk]
  rfl

/-- The store after one Set. -/
theorem oneSet_run : ∃ s t, run step freshStore [.set keyA [1] 1] =
    some (s, [(.set keyA [1] 1, .set 0)]) ∧ Repr s t ∧ t 227 = [some (keyA, [1]), none] :=
  run_fresh (by decide) ⟨_, rfl, rfl⟩

/-- A Set of another value after it returns -1, its `write` having stored 129 bytes. -/
theorem shortSet_run : ∃ s t s' t', run step freshStore [.set keyA [1] 1] = some (s, [(.set keyA [1] 1, .set 0)]) ∧
    Repr s t ∧ t 227 = [some (keyA, [1]), none] ∧
    (Update.set (some keyA) (some [2]) 1).run { write := { accepts := some 129 } } s = some (s', -1) ∧
    Repr s' t' ∧ t' 227 = [some (keyA, [2]), none] := by
  obtain ⟨s, t, hr, ht, hrow⟩ := oneSet_run
  have hput : Bucket.put keyA (storedKey keyA) (stored [2] 1) (t (hashGen keyA)) =
      some [some (keyA, [2]), none] := by rw [hashGen_keyA, hrow]; rfl
  have hdrop : ∀ b, (rowBytes ([some (keyA, [b]), none].map itemOf)).drop 129 =
      zeros (itemMaxValLen - 1) ++ le32 1 ++ KvItem.zero.bytes := fun b => by
    rw [List.map_cons, rowBytes, List.flatMap_cons, List.drop_append_of_le_length (by rw [length_bytes]; decide),
      drop_itemOf, List.map_cons, List.map_nil, List.flatMap_cons, List.flatMap_nil, List.append_nil, itemOf]
  obtain ⟨s', hs, ht'⟩ := halKvSet_short ht (n := 129) (by decide) (by decide) hput (by decide)
    (by rw [hashGen_keyA, hrow, hdrop, hdrop])
  refine ⟨s, t, s', _, hr, ht, hrow, hs, ht', ?_⟩
  rw [← hashGen_keyA, Function.update_self]

theorem failed_update_short : ∃ s f s', s.disk = some f ∧
    (Update.set (some keyA) (some [2]) 1).run { write := { accepts := some 129 } } s = some (s', -1) ∧
    ((s'.disk = some f ∧ ∀ k, SameGet s s' k) ∨
      ∃ key n row, (Update.set (some keyA) (some [2]) 1).key = some key ∧
        ShortWrite { write := { accepts := some 129 } } n ∧ row.length = rowLen ∧
        (∃ s₀ : KvState, (Update.set (some keyA) (some [2]) 1).run .ok s = some (s₀, 0) ∧
          s₀.disk = some (splice f (hashGen key * rowLen) row)) ∧
        s'.disk = some (splice f (hashGen key * rowLen) (row.take n)) ∧
        ∀ k, hashGen k ≠ hashGen key → SameGet s s' k) := by
  obtain ⟨s, t, s', t', -, ht, -, hs, -⟩ := shortSet_run
  exact ⟨s, _, s', ht.disk, hs, failed_update ht.disk hs⟩

/-- A Set returns -1, its `write` having stored 129 bytes, and the value is
the new one. -/
theorem short_write_changes : ∃ s hist s', run step freshStore [.set keyA [1] 1] = some (s, hist) ∧
    (Update.set (some keyA) (some [2]) 1).run { write := { accepts := some 129 } } s = some (s', -1) ∧
    Gets s keyA [1] ∧ Gets s' keyA [2] ∧ ¬ SameGet s s' keyA := by
  obtain ⟨s, t, s', t', hr, ht, hrow, hs, ht', hrow'⟩ := shortSet_run
  have hg : Gets s keyA [1] := gets_of_find ht (by rw [Table.find, hashGen_keyA, hrow]; rfl)
  have hg' : Gets s' keyA [2] := gets_of_find ht' (by rw [Table.find, hashGen_keyA, hrow']; rfl)
  refine ⟨s, _, s', hr, hs, hg, hg', fun hsame => ?_⟩
  obtain ⟨s₁, h₁⟩ := hg [0] 1 (by decide) (by decide)
  obtain ⟨s₂, h₂⟩ := hg' [0] 1 (by decide) (by decide)
  have he := hsame (some [0]) (some 1)
  rw [h₁, h₂] at he
  cases he

end Linkkit.Proof.Kv
