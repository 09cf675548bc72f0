import Linkkit.Proof.Kv.Steps

/-!
# Runs with Del

What `HAL_Kv_Set`, `HAL_Kv_Get` and `HAL_Kv_Del` of the Jabsco port keep over
whole runs. `hash_table_rm` empties a slot where it stands, and every walk
stops at an empty slot; so a Del of the key in the first slot puts the key in
the second out of reach. What the store promises holds along the runs without
such a step, and the examples with two keys of one row show what becomes of it
after one:

* `latest_value_kept_iff`: a Get gives the latest value;
* `rows_wellFormed_iff`: rows keep their form;
* `deleted_stays_gone`: a deleted key is not found;
* `set_refuses_iff_full`: a Set fails only if the row is full;
* `stored_bytes_canonical`: the bytes of the file, for keys of any length.
-/

namespace Linkkit.Proof.Kv

open Impl.Kv Spec.Kv

/-! ## Invariants -/

section

variable {s : KvState} {hist : List Event} {c : Call}

/-- The store holds the current values, in rows without gaps. -/
def Packs (s : KvState) (hist : List Event) : Prop :=
  ∃ t, Repr s t ∧ Table.Exact hashGen t (current hist) ∧ ∀ i, Bucket.Packed (t i)

theorem fresh_packs (h : Fresh s) : Packs s [] :=
  ⟨emptyTable, fresh_repr h, exact_emptyTable, packed_emptyTable⟩

theorem packs_step (h : Packs s hist) (hf : c.Fits) (hk : c.ShortKey) (hg : ¬ OpensGap s c) :
    ∃ s' o, step s c = some (s', o) ∧ Packs s' (hist ++ [(c, o)]) := by
  obtain ⟨t, hr, he, hp⟩ := h
  obtain ⟨s', hs, hr'⟩ := step_repr hr hf
  have hw : ¬ Writes (fun k => Bucket.Hidden k (t (hashGen k))) c := by
    cases c with
    | set k => exact (hp _).not_hidden k
    | get => exact id
    | del k => exact (hp _).not_hidden k
  refine ⟨s', _, hs, _, hr', ?_, packed_tableStep hp he.distinct fun key hc hb => ?_⟩
  · rw [current_append]
    exact exact_tableStep he hk hw
  · subst hc
    exact hg ((opensGap_iff hr).mpr hb)

/-- A Set that fails is of a key without a value. -/
theorem set_fails_none {t : KvTable} {m : CString → Option (List Byte)} (he : Table.Exact hashGen t m)
    (k : CString) (hs : c.Sets k) (hn : ¬ SetOk k (c, (tableStep t c).2)) : m k = none := by
  cases c with
  | set key val len =>
    cases hs
    cases hp : Table.put hashGen t k (storedKey k) (stored val len) with
    | none => exact ((he.put_eq_none_iff rfl).mp hp).1
    | some t' => exact absurd ⟨rfl, by rw [tableStep_set_some hp]⟩ hn
  | get => cases hs
  | del => cases hs

/-- `Packs`, and every current value is that of the latest Set. -/
structure Keeps (s : KvState) (hist : List Event) : Prop where
  packs : Packs s hist
  latest : ∀ k v, LatestSet hist k v ↔ current hist k = some v

theorem fresh_keeps (h : Fresh s) : Keeps s [] :=
  ⟨fresh_packs h, fun k v => by simp [LatestSet]⟩

/-- The latest values are current after every call on packed rows. -/
theorem latest_step (h : Keeps s hist) (hf : c.Fits) (hv : c.SmallValue) {s' : KvState} {o : Reply}
    (hs : step s c = some (s', o)) (k : CString) (v : List Byte) :
    LatestSet (hist ++ [(c, o)]) k v ↔ current (hist ++ [(c, o)]) k = some v := by
  obtain ⟨⟨t, hr, he, -⟩, hl⟩ := h
  obtain ⟨s'', hs', -⟩ := step_repr hr hf
  rw [hs] at hs'
  cases hs'
  exact latestSet_append hl hv (set_fails_none he) k v

theorem keeps_step (h : Keeps s hist) (hf : c.Fits) (hk : c.ShortKey) (hv : c.SmallValue)
    (hg : ¬ OpensGap s c) : ∃ s' o, step s c = some (s', o) ∧ Keeps s' (hist ++ [(c, o)]) := by
  obtain ⟨s', o, hs, hp⟩ := packs_step h.packs hf hk hg
  exact ⟨s', o, hs, hp, latest_step h hf hv hs⟩

theorem Keeps.gets (h : Keeps s hist) {k : CString} {v : List Byte} (hl : LatestSet hist k v) :
    Gets s k v := by
  obtain ⟨⟨t, hr, he, hp⟩, hc⟩ := h
  exact gets_of_find hr ((he.find ((hp _).not_hidden k)).trans ((hc k v).mp hl))

/-- A Del that opens a gap loses the value of the key behind it. -/
theorem opensGap_loses (h : Keeps s hist) (hf : c.Fits) (hv : c.SmallValue) (hg : OpensGap s c) :
    ∃ s' o, step s c = some (s', o) ∧
      ∃ k v, LatestSet (hist ++ [(c, o)]) k v ∧ Misses s' k := by
  obtain ⟨⟨t, hr, he, -⟩, -⟩ := id h
  cases c with
  | set => cases hg
  | get => cases hg
  | del k =>
    obtain ⟨s', hs, hr'⟩ := step_repr hr hf
    obtain ⟨k', v', hm, hne, hn⟩ :=
      Bucket.find_remove_of_opensGap (he.distinct _) ((opensGap_iff hr).mp hg)
    have hk' : hashGen k' = hashGen k := he.home _ _ _ hm
    refine ⟨s', _, hs, k', v', ?_, misses_of_find hr' ?_⟩
    · rw [latest_step h hf hv hs, current_append, tableStep_del]
      show Function.update (current hist) k none k' = some v'
      rw [Function.update_of_ne hne, ← he.mem, hk']
      exact hm
    · simp only [tableStep_del, Table.find, Table.remove, hk', Function.update_self, hn]

theorem Packs.not_hiddenKey (h : Packs s hist) (k : CString) : ¬ HiddenKey s k := by
  obtain ⟨t, hr, -, hp⟩ := h
  rw [hiddenKey_iff hr]
  exact (hp _).not_hidden k

theorem writes_of_deletes {P : CString → Prop} (h : Deletes P c) : Writes P c := by
  cases c with
  | set => cases h
  | get => cases h
  | del => exact h

/-- A run that opens no gap writes no key behind an empty slot. -/
theorem noHidden_of_noGap (hs : Fresh s) {calls : List Call} (hc : ∀ c ∈ calls, c.Fits ∧ c.ShortKey)
    (hg : Along step (fun s c => ¬ OpensGap s c) s calls) :
    Along step (fun s c => ¬ Writes (HiddenKey s) c) s calls := by
  refine along_of_inv (fun s hist c h _ => ?_) (fun s hist c h hv => packs_step h hv.1.1 hv.1.2 hv.2)
    (fresh_packs hs) ((Along.of_forall hc).and hg)
  cases c with
  | set k => exact h.not_hiddenKey k
  | get => exact id
  | del k => exact h.not_hiddenKey k

/-- A run of calls that fit their arguments has no fault. -/
theorem run_total (hs : Fresh s) {calls : List Call} (hc : ∀ c ∈ calls, c.Fits) :
    ∃ s' hist, run step s calls = some (s', hist) := by
  obtain ⟨s', -, hist, hr, -⟩ := run_repr (fresh_repr hs) hc
  exact ⟨s', hist, hr⟩

end

/-! ## No lost value -/

section

variable {s : KvState} {calls : List Call}

/-- A run from a fresh store, of keys of at most 127 bytes and values of 1 to
512, has no fault; and after every part of it each key whose latest Set
returned 0, with no Del since, has the value of that Set, exactly if none of
its steps opens a gap. -/
theorem latest_value_kept_iff (hs : Fresh s)
    (hc : ∀ c ∈ calls, c.Fits ∧ c.ShortKey ∧ c.SmallValue) :
    (∃ s' hist, run step s calls = some (s', hist)) ∧
      ((∀ cs s' hist, cs <+: calls → run step s cs = some (s', hist) →
          ∀ k v, LatestSet hist k v → Gets s' k v) ↔
        Along step (fun s c => ¬ OpensGap s c) s calls) := by
  refine ⟨run_total hs fun c h => (hc c h).1, ?_⟩
  refine along_iff (P := fun s hist => ∀ k v, LatestSet hist k v → Gets s k v)
    (fun s hist h k v => h.gets) ?_ ?_ (fresh_keeps hs) hc
  · exact fun s hist c h hv hg => keeps_step h hv.1 hv.2.1 hv.2.2 hg
  · intro s hist c h hv hg
    obtain ⟨s', o, hs', k, v, hl, hm⟩ := opensGap_loses h hv.1 hv.2.2 (not_not.mp hg)
    exact ⟨s', o, hs', fun hall => not_gets_of_misses hm v (hall k v hl)⟩

end

/-- Two Sets, and a Del of the first key. -/
def gapCalls : List Call := [.set keyA [1] 1, .set keyB [2] 1, .del keyA]

theorem gapCalls_valid : ∀ c ∈ gapCalls, c.Fits ∧ c.ShortKey ∧ c.SmallValue := by decide

/-- The history of `gapCalls`. -/
def gapHist : List Event := [(.set keyA [1] 1, .set 0), (.set keyB [2] 1, .set 0), (.del keyA, .del 0)]

theorem gapCalls_run : ∃ s t, run step freshStore gapCalls = some (s, gapHist) ∧
    Repr s t ∧ t 227 = [none, some (keyB, [2])] :=
  run_fresh (fun c hc => (gapCalls_valid c hc).1) ⟨_, rfl, rfl⟩

/-- Deleting the first of two keys in a row loses the second one's value. -/
theorem latest_value_lost : ∃ s hist, run step freshStore gapCalls = some (s, hist) ∧
    LatestSet hist keyB [2] ∧ ¬ Gets s keyB [2] := by
  obtain ⟨s, t, hr, ht, hrow⟩ := gapCalls_run
  have hf : Table.find hashGen t keyB = none := by rw [Table.find, hashGen_keyB, hrow]; rfl
  refine ⟨s, _, hr, ?_, not_gets_of_misses (misses_of_find ht hf) _⟩
  exact ⟨[_], _, [(.del keyA, .del 0)], rfl, ⟨_, _, rfl, rfl⟩, by decide⟩

/-- The same with no Del of a key that another follows. -/
def plainCalls : List Call := [.del keyA, .set keyA [1] 1, .set keyB [2] 1, .get keyA [0] 1]

theorem plainCalls_valid : ∀ c ∈ plainCalls, c.Fits ∧ c.ShortKey ∧ c.SmallValue := by decide
theorem plainCalls_short : ∀ c ∈ plainCalls, c.Fits ∧ c.ShortKey := by decide

theorem plainCalls_noGap : Along step (fun s c => ¬ OpensGap s c) freshStore plainCalls := by
  have h : ¬ OpensGap freshStore (.del keyA) := by
    rw [opensGap_iff (fresh_repr fresh_freshStore)]
    rintro ⟨v, k', v', hs, -⟩
    exact not_mem_emptyTable (hs.subset List.mem_cons_self)
  exact ⟨h, fun _ _ _ => ⟨id, fun _ _ _ => ⟨id, fun _ _ _ => ⟨id, fun _ _ _ => trivial⟩⟩⟩⟩

theorem plainCalls_noHidden : Along step (fun s c => ¬ Writes (HiddenKey s) c) freshStore plainCalls :=
  noHidden_of_noGap fresh_freshStore plainCalls_short plainCalls_noGap

/-- A run that keeps every value. -/
theorem latest_value_kept_plain : (∃ s hist, run step freshStore plainCalls = some (s, hist)) ∧
    ∀ cs s hist, cs <+: plainCalls → run step freshStore cs = some (s, hist) →
      ∀ k v, LatestSet hist k v → Gets s k v := by
  obtain ⟨hrun, hkept⟩ := latest_value_kept_iff fresh_freshStore plainCalls_valid
  exact ⟨hrun, hkept.mpr plainCalls_noGap⟩

/-! ## The form of rows -/

section

variable {s : KvState} {calls : List Call}

theorem Packs.rowInv {hist : List Event} (h : Packs s hist) {i : ℕ} (hi : i < tableColSize) :
    RowInv i (rowOf s i) := by
  obtain ⟨t, hr, he, hp⟩ := h
  exact (rowInv_iff hr hi).mpr ⟨hp i, he.distinct i, he.home i⟩

theorem opensGap_breaks {hist : List Event} {c : Call} (h : Packs s hist) (hf : c.Fits)
    (hg : OpensGap s c) : ∃ s' o, step s c = some (s', o) ∧
      ∃ i < tableColSize, ¬ RowInv i (rowOf s' i) := by
  obtain ⟨t, hr, he, hp⟩ := h
  cases c with
  | set => cases hg
  | get => cases hg
  | del k =>
    obtain ⟨s', hs, hr'⟩ := step_repr hr hf
    refine ⟨s', _, hs, hashGen k, hashGen_lt k, fun hi => ?_⟩
    have hp' := ((rowInv_iff hr' (hashGen_lt k)).mp hi).1
    simp only [tableStep_del, Table.remove, Function.update_self] at hp'
    exact (Bucket.packed_remove_iff (hp _) (he.distinct _)).mp hp' ((opensGap_iff hr).mp hg)

/-- A run from a fresh store, of keys of at most 127 bytes, has no fault, and
every row is as the walks need it after every part of it, exactly if none of
its steps opens a gap. -/
theorem rows_wellFormed_iff (hs : Fresh s) (hc : ∀ c ∈ calls, c.Fits ∧ c.ShortKey) :
    (∃ s' hist, run step s calls = some (s', hist)) ∧
      ((∀ cs s' hist, cs <+: calls → run step s cs = some (s', hist) →
          ∀ i < tableColSize, RowInv i (rowOf s' i)) ↔
        Along step (fun s c => ¬ OpensGap s c) s calls) := by
  refine ⟨run_total hs fun c h => (hc c h).1, ?_⟩
  refine along_iff (P := fun s _ => ∀ i < tableColSize, RowInv i (rowOf s i))
    (fun s hist h i => h.rowInv) ?_ ?_ (fresh_packs hs) hc
  · exact fun s hist c h hv hg => packs_step h hv.1 hv.2 hg
  · intro s hist c h hv hg
    obtain ⟨s', o, hs', i, hi, hn⟩ := opensGap_breaks h hv.1 (not_not.mp hg)
    exact ⟨s', o, hs', fun hall => hn (hall i hi)⟩

end

/-- A run that keeps every row. -/
theorem rows_wellFormed_plain : (∃ s hist, run step freshStore plainCalls = some (s, hist)) ∧
    ∀ cs s hist, cs <+: plainCalls → run step freshStore cs = some (s, hist) →
      ∀ i < tableColSize, RowInv i (rowOf s i) := by
  obtain ⟨hrun, hform⟩ := rows_wellFormed_iff fresh_freshStore plainCalls_short
  exact ⟨hrun, hform.mpr plainCalls_noGap⟩

/-- The row of the two keys after the first one was deleted. -/
theorem row_with_gap : ∃ s hist, run step freshStore gapCalls = some (s, hist) ∧
    ¬ RowInv 227 (rowOf s 227) := by
  obtain ⟨s, t, hr, ht, hrow⟩ := gapCalls_run
  refine ⟨s, _, hr, fun hi => ?_⟩
  have hp := ((rowInv_iff ht (by decide)).mp hi).1
  rw [hrow] at hp
  simp [Bucket.Packed] at hp

/-! ## Deleted keys -/

section

variable {s : KvState} {calls : List Call}

/-- Every slot of the store belongs to a key with a current value. -/
def OnlyLive (s : KvState) (hist : List Event) : Prop :=
  ∃ t, Repr s t ∧ Table.Live hashGen t (current hist)

theorem fresh_onlyLive (h : Fresh s) : OnlyLive s [] :=
  ⟨emptyTable, fresh_repr h, fun _ _ _ hm => absurd hm not_mem_emptyTable⟩

theorem onlyLive_step {hist : List Event} {c : Call} (h : OnlyLive s hist) (hf : c.Fits)
    (hk : c.ShortKey) (hh : ¬ Deletes (HiddenKey s) c) :
    ∃ s' o, step s c = some (s', o) ∧ OnlyLive s' (hist ++ [(c, o)]) := by
  obtain ⟨t, hr, hl⟩ := h
  obtain ⟨s', hs, hr'⟩ := step_repr hr hf
  refine ⟨s', _, hs, _, hr', ?_⟩
  rw [current_append]
  refine live_tableStep hl hk fun hd => hh ?_
  cases c with
  | set => exact hd
  | get => exact hd
  | del k => exact (hiddenKey_iff hr).mpr hd

/-- In a run from a fresh store, of keys of at most 127 bytes and values of 1
to 512, that deletes no key behind an empty slot, a key that was deleted or
never set is not found, at any point. -/
theorem deleted_stays_gone (hs : Fresh s) (hc : ∀ c ∈ calls, c.Fits ∧ c.ShortKey ∧ c.SmallValue)
    (hok : Along step (fun s c => ¬ Deletes (HiddenKey s) c) s calls) :
    (∃ s' hist, run step s calls = some (s', hist)) ∧
      ∀ cs s' hist, cs <+: calls → run step s cs = some (s', hist) →
        ∀ k, Deleted hist k → Misses s' k := by
  refine ⟨run_total hs fun c h => (hc c h).1, ?_⟩
  refine along_inv (P := fun s hist => ∀ k, Deleted hist k → Misses s k) ?_
    (fun s hist c h hv => onlyLive_step h hv.1.1 hv.1.2.1 hv.2) (fresh_onlyLive hs)
    ((Along.of_forall hc).and hok)
  rintro s hist ⟨t, hr, hl⟩ k hd
  exact misses_of_find hr (hl.find_eq_none (current_deleted hd))

end

/-- A key deleted behind an empty slot, and a Set that fills that slot. -/
def returnCalls : List Call := gapCalls ++ [.del keyB, .set keyA [3] 1]

theorem returnCalls_valid : ∀ c ∈ returnCalls, c.Fits ∧ c.ShortKey ∧ c.SmallValue := by decide

theorem returnCalls_run : ∃ s t, run step freshStore returnCalls =
      some (s, gapHist ++ [(.del keyB, .del 0), (.set keyA [3] 1, .set 0)]) ∧
    Repr s t ∧ t 227 = [some (keyA, [3]), some (keyB, [2])] :=
  run_fresh (fun c hc => (returnCalls_valid c hc).1) ⟨_, rfl, rfl⟩

/-- The deleted key has its value back. -/
theorem deleted_comes_back : ∃ s hist, run step freshStore returnCalls = some (s, hist) ∧
    Deleted hist keyB ∧ Gets s keyB [2] ∧ ¬ Misses s keyB := by
  obtain ⟨s, t, hr, ht, hrow⟩ := returnCalls_run
  have hg : Gets s keyB [2] := gets_of_find ht (by rw [Table.find, hashGen_keyB, hrow]; rfl)
  refine ⟨s, _, hr, .inr ?_, hg, fun hm => not_gets_of_misses hm _ hg⟩
  exact ⟨gapHist, _, [(.set keyA [3] 1, .set 0)], rfl, rfl, by decide⟩

/-- A run in which deleted keys stay deleted. -/
theorem deleted_stays_gone_plain : (∃ s hist, run step freshStore plainCalls = some (s, hist)) ∧
    ∀ cs s hist, cs <+: plainCalls → run step freshStore cs = some (s, hist) →
      ∀ k, Deleted hist k → Misses s k :=
  deleted_stays_gone fresh_freshStore plainCalls_valid
    (plainCalls_noHidden.mono fun _ _ h hd => h (writes_of_deletes hd))

/-! ## Full rows -/

section

variable {s : KvState} {calls : List Call}

/-- The store holds exactly the current values. -/
def Tracks (s : KvState) (hist : List Event) : Prop :=
  ∃ t, Repr s t ∧ Table.Exact hashGen t (current hist)

theorem fresh_tracks (h : Fresh s) : Tracks s [] :=
  ⟨emptyTable, fresh_repr h, exact_emptyTable⟩

theorem tracks_step {hist : List Event} {c : Call} (h : Tracks s hist) (hf : c.Fits) (hk : c.ShortKey)
    (hh : ¬ Writes (HiddenKey s) c) : ∃ s' o, step s c = some (s', o) ∧ Tracks s' (hist ++ [(c, o)]) := by
  obtain ⟨t, hr, he⟩ := h
  obtain ⟨s', hs, hr'⟩ := step_repr hr hf
  refine ⟨s', _, hs, _, hr', ?_⟩
  rw [current_append]
  refine exact_tableStep he hk fun hd => hh ?_
  cases c with
  | set k => exact (hiddenKey_iff hr).mpr hd
  | get => exact hd
  | del k => exact (hiddenKey_iff hr).mpr hd

theorem Tracks.set_fails_iff {hist : List Event} (h : Tracks s hist) {k : CString} {val : List Byte}
    {len : Int32} (hf : (Call.set k val len).Fits) : ∃ s' ret, step s (.set k val len) = some (s', .set ret) ∧
      (ret = -1 ↔ ¬ Live hist k ∧ TwoOthers (Live hist) k) := by
  obtain ⟨t, hr, he⟩ := h
  obtain ⟨s', hs, -⟩ := step_repr hr hf
  have hl : (fun a => (current hist a).isSome = true) = Live hist := funext fun a => propext current_isSome
  have hn := put_eq_none_iff he hr.wf k (stored val len)
  rw [current_eq_none, hl] at hn
  cases hp : Table.put hashGen t k (storedKey k) (stored val len) with
  | none =>
    rw [tableStep_set_none hp] at hs
    exact ⟨s', -1, hs, iff_of_true rfl (hn.mp hp)⟩
  | some t' =>
    rw [tableStep_set_some hp] at hs
    refine ⟨s', 0, hs, iff_of_false (by decide) fun hl => ?_⟩
    rw [hn.mpr hl] at hp
    cases hp

/-- In a run from a fresh store, of keys of at most 127 bytes, that sets and
deletes no key behind an empty slot, a Set returns -1 exactly if its key has
no value and two others of its row have one. -/
theorem set_refuses_iff_full (hs : Fresh s) (hc : ∀ c ∈ calls, c.Fits ∧ c.ShortKey)
    (hok : Along step (fun s c => ¬ Writes (HiddenKey s) c) s calls) :
    (∃ s' hist, run step s calls = some (s', hist)) ∧
      ∀ cs k val len s' hist, cs ++ [.set k val len] <+: calls → run step s cs = some (s', hist) →
        ∃ s'' ret, step s' (.set k val len) = some (s'', .set ret) ∧
          (ret = -1 ↔ ¬ Live hist k ∧ TwoOthers (Live hist) k) := by
  refine ⟨run_total hs fun c h => (hc c h).1, fun cs k val len s' hist hp hr => ?_⟩
  have hf : (Call.set k val len).Fits := (hc _ (hp.subset (by simp))).1
  have ht : Tracks s' hist := along_inv (fun _ _ h => h)
    (fun s hist c h hv => tracks_step h hv.1.1 hv.1.2 hv.2) (fresh_tracks hs)
    ((Along.of_forall hc).and hok) cs s' hist ((List.prefix_append cs _).trans hp) hr
  exact ht.set_fails_iff hf

end

/-- A run in which a Set is refused only by a full row. -/
theorem set_refuses_plain : (∃ s hist, run step freshStore plainCalls = some (s, hist)) ∧
    ∀ cs k val len s hist, cs ++ [.set k val len] <+: plainCalls →
      run step freshStore cs = some (s, hist) → ∃ s' ret, step s (.set k val len) = some (s', .set ret) ∧
        (ret = -1 ↔ ¬ Live hist k ∧ TwoOthers (Live hist) k) :=
  set_refuses_iff_full fresh_freshStore plainCalls_short plainCalls_noHidden

/-- A third key of the row. -/
def keyC : CString := ⟨ascii "lw", by decide⟩

/-- The key behind the empty slot set again, and a Set of a third key. -/
def doubleCalls : List Call := gapCalls ++ [.set keyB [3] 1]

theorem doubleCalls_valid : ∀ c ∈ doubleCalls, c.Fits ∧ c.ShortKey := by decide

theorem doubleCalls_run : ∃ s t, run step freshStore doubleCalls =
      some (s, gapHist ++ [(.set keyB [3] 1, .set 0)]) ∧
    Repr s t ∧ t 227 = [some (keyB, [3]), some (keyB, [2])] :=
  run_fresh (fun c hc => (doubleCalls_valid c hc).1) ⟨_, rfl, rfl⟩

/-- A Set is refused in a row in which only one key has a value. -/
theorem set_refused_with_room : ∃ s s' hist, run step freshStore doubleCalls = some (s, hist) ∧
    step s (.set keyC [4] 1) = some (s', .set (-1)) ∧ ¬ TwoOthers (Live hist) keyC := by
  obtain ⟨s, t, hr, ht, hrow⟩ := doubleCalls_run
  obtain ⟨s', hs, -⟩ := step_repr ht (show (Call.set keyC [4] 1).Fits by decide)
  have hp : Table.put hashGen t keyC (storedKey keyC) (stored [4] 1) = none := by
    rw [Table.put, show hashGen keyC = 227 by decide, hrow]; rfl
  rw [tableStep_set_none hp] at hs
  refine ⟨s, s', _, hr, hs, ?_⟩
  have key : ∀ k, Live (gapHist ++ [(.set keyB [3] 1, .set 0)]) k → k = keyB := fun k hk => by
    by_contra hne
    rw [← current_isSome] at hk
    by_cases hA : k = keyA <;>
      simp [current, gapHist, valueStep, Function.update_apply, hne, hA] at hk
    exact keyA_ne_keyB hk
  rintro ⟨a, b, hab, -, -, -, -, ha, hb⟩
  exact hab ((key a ha).trans (key b hb).symm)

/-! ## The bytes of the file -/

section

variable {s : KvState} {calls : List Call}

/-- Every item in use holds the current value of a key. -/
def HoldsOnlyCurrent (s : KvState) (hist : List Event) : Prop :=
  ∃ t, Repr s t ∧ Table.Owned hashGen storedKey t (current hist)

theorem fresh_holdsOnlyCurrent (h : Fresh s) : HoldsOnlyCurrent s [] :=
  ⟨emptyTable, fresh_repr h, exact_emptyTable.distinct, fun _ _ _ hm => absurd hm not_mem_emptyTable⟩

theorem holdsOnlyCurrent_step {hist : List Event} {c : Call} (h : HoldsOnlyCurrent s hist) (hf : c.Fits)
    (hm : ¬ Writes (MissedKey s) c) :
    ∃ s' o, step s c = some (s', o) ∧ HoldsOnlyCurrent s' (hist ++ [(c, o)]) := by
  obtain ⟨t, hr, he⟩ := h
  obtain ⟨s', hs, hr'⟩ := step_repr hr hf
  refine ⟨s', _, hs, _, hr', ?_⟩
  rw [current_append]
  refine owned_tableStep he fun hd => hm ?_
  cases c with
  | set k => exact (missedKey_iff hr).mpr hd
  | get => exact hd
  | del k => exact (missedKey_iff hr).mpr hd

theorem HoldsOnlyCurrent.holdsCurrent {hist : List Event} (h : HoldsOnlyCurrent s hist) {i : ℕ}
    (hi : i < tableColSize) {p : KvItem} (hp : p ∈ rowOf s i) (hu : p.InUse) : HoldsCurrent hist i p := by
  obtain ⟨t, hr, he⟩ := h
  have hw := (hr.wf i).slots
  rw [rowOf_repr hr hi] at hp
  obtain ⟨x, hx, rfl⟩ := List.mem_map.mp hp
  obtain ⟨⟨l, v⟩, rfl⟩ := Option.isSome_iff_exists.mp ((inUse_itemOf hw hx).mp hu)
  obtain ⟨k, hk, rfl, hv⟩ := he.owner i l v hx
  have hle := (hw _ _ hx).2.2
  refine ⟨k, v, current_eq_some.mp hv, hk, (holds_itemOf hw hx).mpr ⟨v, rfl⟩, toInt_ofNat_length hle, ?_⟩
  rw [itemOf, Buf.bytes_ofList hle, List.take_left]

/-- The size of the file, and the form of its items. -/
theorem Repr.canonical {t : KvTable} (h : Repr s t) :
    (∃ f, s.disk = some f ∧ f.length = tableColSize * (tableRowSize * itemMaxLen)) ∧
      ∀ i < tableColSize, ∀ p ∈ rowOf s i, Canonical p := by
  refine ⟨⟨_, h.disk, length_storeOf h.rows⟩, fun i hi p hp => ?_⟩
  rw [rowOf_repr h hi] at hp
  obtain ⟨x, hx, rfl⟩ := List.mem_map.mp hp
  exact canonical_itemOf (h.wf i).slots hx

/-- A run from a fresh store, of keys of any length, has no fault, and after
every part of it the file has its 384 rows and every item its canonical form;
if no call writes a key that the walks miss, every item in use holds the
current value of a key, and so nothing of an overwritten or deleted one. -/
theorem stored_bytes_canonical (hs : Fresh s) (hc : ∀ c ∈ calls, c.Fits) :
    (∃ s' hist, run step s calls = some (s', hist)) ∧
      (∀ cs s' hist, cs <+: calls → run step s cs = some (s', hist) →
        (∃ f, s'.disk = some f ∧ f.length = tableColSize * (tableRowSize * itemMaxLen)) ∧
          ∀ i < tableColSize, ∀ p ∈ rowOf s' i, Canonical p) ∧
      (Along step (fun s c => ¬ Writes (MissedKey s) c) s calls →
        ∀ cs s' hist, cs <+: calls → run step s cs = some (s', hist) →
          ∀ i < tableColSize, ∀ p ∈ rowOf s' i, p.InUse → HoldsCurrent hist i p) := by
  refine ⟨run_total hs hc, fun cs s' hist hp hr => ?_, fun hok => ?_⟩
  · obtain ⟨s'', t, hist', hr', -, ht⟩ := run_repr (fresh_repr hs) fun c h => hc c (hp.subset h)
    rw [hr] at hr'
    cases hr'
    exact ht.canonical
  · exact along_inv (P := fun s hist => ∀ i < tableColSize, ∀ p ∈ rowOf s i, p.InUse → HoldsCurrent hist i p)
      (fun s hist h i hi p hp hu => h.holdsCurrent hi hp hu)
      (fun s hist c h hv => holdsOnlyCurrent_step h hv.1 hv.2) (fresh_holdsOnlyCurrent hs)
      ((Along.of_forall hc).and hok)

end

/-- The walks miss no short key but one behind an empty slot. -/
theorem hiddenKey_of_missedKey {s : KvState} {k : CString} (hk : k.bytes.length < itemMaxKeyLen) (hm : MissedKey s k) :
    HiddenKey s k := by
  obtain ⟨p, q, hr, ⟨hp, hq⟩ | ⟨hle, -⟩⟩ := hm
  · have hkey : k.take (itemMaxKeyLen - 1) = k := storedKey_of_lt hk
    exact ⟨p, q, hr, hp, hkey ▸ hq⟩
  · exact absurd hk (Nat.not_lt.mpr hle)

theorem plainCalls_noMissed : Along step (fun s c => ¬ Writes (MissedKey s) c) freshStore plainCalls := by
  refine ((Along.of_forall plainCalls_short).and plainCalls_noHidden).mono fun s c hc hm => hc.2 ?_
  cases c with
  | set k val len => exact hiddenKey_of_missedKey hc.1.2 hm
  | get k buf len => exact hm
  | del k => exact hiddenKey_of_missedKey hc.1.2 hm

/-- A run whose file holds current values only. -/
theorem stored_bytes_plain : (∃ s hist, run step freshStore plainCalls = some (s, hist)) ∧
    ∀ cs s hist, cs <+: plainCalls → run step freshStore cs = some (s, hist) →
      (∃ f, s.disk = some f ∧ f.length = tableColSize * (tableRowSize * itemMaxLen)) ∧
        ∀ i < tableColSize, ∀ p ∈ rowOf s i, Canonical p ∧ (p.InUse → HoldsCurrent hist i p) := by
  obtain ⟨hrun, hform, hcurrent⟩ := stored_bytes_canonical fresh_freshStore fun c hc => (plainCalls_short c hc).1
  refine ⟨hrun, fun cs s hist hp hr => ?_⟩
  obtain ⟨hsize, hcanonical⟩ := hform cs s hist hp hr
  exact ⟨hsize, fun i hi p hm =>
    ⟨hcanonical i hi p hm, hcurrent plainCalls_noMissed cs s hist hp hr i hi p hm⟩⟩

/-- The calls that delete both keys, the first one first. -/
def deleteCalls : List Call := gapCalls ++ [.del keyB]

theorem deleteCalls_valid : ∀ c ∈ deleteCalls, c.Fits ∧ c.ShortKey := by decide

theorem deleteCalls_run : ∃ s t, run step freshStore deleteCalls =
    some (s, gapHist ++ [(.del keyB, .del 0)]) ∧ Repr s t ∧ t 227 = [none, some (keyB, [2])] :=
  run_fresh (fun c hc => (deleteCalls_valid c hc).1) ⟨_, rfl, rfl⟩

/-- The second key's value is still in the file, and no key has a value. -/
theorem deleted_bytes_survive : ∃ s hist p, run step freshStore deleteCalls = some (s, hist) ∧
    Deleted hist keyB ∧ p ∈ rowOf s 227 ∧ p.InUse ∧ p.value.bytes.take 1 = [2] ∧
    ¬ HoldsCurrent hist 227 p := by
  obtain ⟨s, t, hr, ht, hrow⟩ := deleteCalls_run
  have hx : some (keyB, [2]) ∈ t 227 := by simp [hrow]
  have hp : itemOf (some (keyB, [2])) ∈ rowOf s 227 := by
    rw [rowOf_repr ht (by decide)]
    exact List.mem_map_of_mem hx
  refine ⟨s, _, _, hr, .inr ⟨gapHist, _, [], rfl, rfl, by simp⟩, hp,
    (inUse_itemOf (ht.wf 227).slots hx).mpr rfl, rfl, ?_⟩
  rintro ⟨k, v, hv, -⟩
  rw [← current_eq_some] at hv
  by_cases hA : k = keyA <;> by_cases hB : k = keyB <;>
    simp [current, gapHist, valueStep, Function.update_apply, hA, hB] at hv

end Linkkit.Proof.Kv
