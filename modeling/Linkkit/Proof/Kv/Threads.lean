import Linkkit.Proof.Kv.Alone

/-!
# Two threads that use the store first

Each handle has its own mutex, and a thread that finds no handle creates the
file again, so what a first call stores may be lost. From no handle and no
file, both keys are found after both calls returned 0 exactly if they are
short, their values small, and no step harms (`both_found_iff`).
-/

namespace Linkkit.Proof.Kv

open Impl.Kv Spec.Kv

section

variable {calls : Thread → SetCall} {s s' : Shared} {n : ℕ} {p : KvPuts} {t : Thread}

/-! ## Runs -/

theorem shape_start : Shape calls Shared.start 0 ⟨fun _ => .before, emptyTable, fun _ => []⟩ where
  wf _ := WfRow.empty
  disk := rfl
  le := Nat.zero_le _
  whole h := by cases h
  phase _ := rfl
  pcs _ := trivial

/-- After both calls returned 0 the file is the store that the table says. -/
theorem Shape.final (h : Shape calls s n p) (hd : BothSet s) :
    Repr s.store p.table ∧ ∀ t, p.phase t = .written := by
  have hwritten (t : Thread) : p.phase t = .written := by rw [h.phase, hd]; rfl
  have hn : 0 < n := by
    have hi := h.pcs .first
    rw [hd] at hi
    exact Nat.zero_lt_of_lt (hi rfl)
  have hdisk := disk_eq_some h.wf h.disk hn
  obtain rfl : n = tableColSize := (h.whole (by rw [hdisk]; rfl)).resolve_right fun ⟨t, i, ht⟩ => by
    rw [hd] at ht
    cases ht
  exact ⟨⟨h.wf, hdisk⟩, hwritten⟩

theorem bothFound_iff (h : Shape calls s n p) (hd : BothSet s) : BothFound calls s ↔
    ∀ t, Table.find hashGen p.table (keyOf calls t) = some ((calls t).val.take (calls t).len.toInt.toNat) :=
  forall_congr' fun _ => gets_iff (h.final hd).1

theorem valueOf_small (hs : Small (calls t)) :
    valueOf calls t = (calls t).val.take (calls t).len.toInt.toNat := by
  have : (itemMaxValLen : ℕ) = 512 := rfl
  rw [valueOf, stored, Nat.min_eq_left (by have := hs.2; omega)]

/-- What is found fits its item. -/
theorem small_of_find (hwf : ∀ i, WfRow (p.table i)) (hf : (calls t).len.toInt ≤ (calls t).val.length)
    (hfind : Table.find hashGen p.table (keyOf calls t) =
      some ((calls t).val.take (calls t).len.toInt.toNat)) : Small (calls t) := by
  obtain ⟨hk, -, hv⟩ := (hwf _).slots _ _ (Bucket.mem_of_find hfind)
  have : (itemMaxValLen : ℕ) = 512 := rfl
  rw [List.length_take] at hv
  exact ⟨Nat.le_of_lt_succ hk, by omega⟩

section

variable (hf : ∀ t, (calls t).len.toInt ≤ (calls t).val.length)

include hf

theorem shape_run (h : Shape calls s n p) {ts : List Thread} {hist : List (Thread × Unit)}
    (hr : run (Shared.step calls) s ts = some (s', hist)) : ∃ n p, Shape calls s' n p :=
  run_keeps (fun s _ => ∃ n p, Shape calls s n p) (fun s _ t s' _ ⟨n, p, h⟩ hs => by
    obtain ⟨n', p', a, h', -⟩ := shape_step h (hf t) hs
    exact ⟨n', p', h'⟩) ⟨n, p, h⟩ hr

variable (hkey : Function.Injective (keyOf calls)) (hsmall : ∀ t, Small (calls t))

include hkey hsmall

omit hf hkey in
theorem storedKey_keyOf (t : Thread) : storedKey (keyOf calls t) = keyOf calls t :=
  storedKey_of_lt (Nat.lt_succ_of_le (hsmall t).1)

/-- A step that harms nobody keeps what was written. -/
theorem sound_step (h : Shape calls s n p) (hp : p.Sound hashGen (keyOf calls) (valueOf calls))
    (hs : Shared.step calls s t = some (s', ())) (hn : ¬ Harms calls s t) :
    ∃ n' p' a, Shape calls s' n' p' ∧ p'.Sound hashGen (keyOf calls) (valueOf calls) ∧
      Puts.Step hashGen storedKey (keyOf calls) (valueOf calls) p t a p' := by
  obtain ⟨n', p', a, h', hstep, ha⟩ := shape_step h (hf t) hs
  refine ⟨n', p', a, h', hp.step hkey (storedKey_keyOf hsmall) hstep ?_, hstep⟩
  rcases ha with rfl | ha
  · exact id
  · exact fun hc => hn (ha.mpr hc)

omit hf hkey in
theorem bothFound_of_sound (hd : BothSet s) (h : Shape calls s n p)
    (hp : p.Sound hashGen (keyOf calls) (valueOf calls)) : BothFound calls s :=
  (bothFound_iff h hd).mpr fun t => by
    rw [hp.found t ((h.final hd).2 t), valueOf_small (hsmall t)]

/-- A run from no handle and no file ends with what was written found, or with
a key lost. -/
theorem run_sound_or_lost {ts : List Thread} {hist : List (Thread × Unit)}
    (hr : run (Shared.step calls) Shared.start ts = some (s, hist)) :
    (Along (Shared.step calls) (fun s t => ¬ Harms calls s t) Shared.start ts →
      ∃ n p, Shape calls s n p ∧ p.Sound hashGen (keyOf calls) (valueOf calls)) ∧
    (¬ Along (Shared.step calls) (fun s t => ¬ Harms calls s t) Shared.start ts →
      ∃ n p, Shape calls s n p ∧ (p.Lost hashGen (keyOf calls) ∨ p.Failed)) := by
  have hkept := storedKey_keyOf hsmall
  have hrun := run_good_or_bad
    (fun s => ∃ n p, Shape calls s n p ∧ p.Sound hashGen (keyOf calls) (valueOf calls) ∧ p.New (keyOf calls))
    (fun s => ∃ n p, Shape calls s n p ∧ (p.Lost hashGen (keyOf calls) ∨ p.Failed))
    (c := fun s t => ¬ Harms calls s t) ?_ ?_ ?_ ?_ hr
  · exact ⟨fun ha => (hrun.1 ha).imp fun n => Exists.imp fun p => And.imp_right And.left, hrun.2⟩
  · rintro s t s' _ ⟨n, p, h, hp, hnew⟩ hn hs
    obtain ⟨n', p', a, h', hp', hstep⟩ := sound_step hf hkey hsmall h hp hs hn
    exact ⟨n', p', h', hp', hnew.step hkey hkept hstep⟩
  · rintro s t s' _ ⟨n, p, h, hp, hnew⟩ hharm hs
    obtain ⟨n', p', a, h', hstep, ha⟩ := shape_step h (hf t) hs
    refine ⟨n', p', h', ?_⟩
    rcases ha with rfl | ha
    · cases hstep
      exact .inr ⟨t, Puts.moveTo_phase_self⟩
    · exact .inl (hnew.lost hkey hkept Thread.two hstep (ha.mp (not_not.mp hharm)))
  · rintro s t s' _ ⟨n, p, h, hlost⟩ hs
    obtain ⟨n', p', a, h', hstep, -⟩ := shape_step h (hf t) hs
    exact ⟨n', p', h', hlost.elim (fun hl => hl.step hkey hkept Thread.two hstep) fun hl => .inr (hl.step hstep)⟩
  · refine ⟨0, _, shape_start, ⟨nofun, nofun, nofun, nofun⟩, ⟨fun t _ i => ?_, nofun⟩⟩
    show _ ∉ Bucket.keys (List.replicate tableRowSize none)
    rw [Bucket.keys_replicate_none]
    exact List.not_mem_nil

end

theorem keyOf_injective (hkeys : (calls .first).key ≠ (calls .second).key) :
    Function.Injective (keyOf calls) := by
  intro t u he
  cases t <;> cases u <;> first | rfl | exact absurd he hkeys | exact absurd he.symm hkeys

/-- From no handle and no file: where both calls return 0, both keys are found
with their values exactly if the keys have at most 127 bytes, the values at
most 512, and no step harms. -/
theorem both_found_iff (hkeys : (calls .first).key ≠ (calls .second).key)
    (hf : ∀ t, (calls t).len.toInt ≤ (calls t).val.length) {ts : List Thread}
    {hist : List (Thread × Unit)} (hr : run (Shared.step calls) Shared.start ts = some (s, hist))
    (hd : BothSet s) : BothFound calls s ↔
      (∀ t, Small (calls t)) ∧ Along (Shared.step calls) (fun s t => ¬ Harms calls s t) Shared.start ts := by
  have hkey := keyOf_injective hkeys
  constructor
  · intro hfound
    obtain ⟨n, p, h⟩ := shape_run hf shape_start hr
    have hsmall (t : Thread) : Small (calls t) := small_of_find h.wf (hf t) ((bothFound_iff h hd).mp hfound t)
    refine ⟨hsmall, by_contra fun hn => ?_⟩
    obtain ⟨n, p, h, hlost⟩ := (run_sound_or_lost hf hkey hsmall hr).2 hn
    have hwritten := (h.final hd).2
    rcases hlost with hl | ⟨t, ht⟩
    · obtain ⟨t, ht⟩ := hl.not_found hwritten
      rw [(bothFound_iff h hd).mp hfound t] at ht
      cases ht
    · rw [hwritten t] at ht
      cases ht
  · rintro ⟨hsmall, ha⟩
    obtain ⟨n, p, h, hp⟩ := (run_sound_or_lost hf hkey hsmall hr).1 ha
    exact bothFound_of_sound hsmall hd h hp

end

/-! ## Two keys of one row -/

/-- The calls of the two threads. -/
def twoCalls : Thread → SetCall
  | .first => ⟨keyA, [1], 1⟩
  | .second => ⟨keyB, [2], 1⟩

theorem twoCalls_key (t : Thread) : hashGen (twoCalls t).key = 227 := by
  cases t
  · exact hashGen_keyA
  · exact hashGen_keyB

/-- What a thread writes if it read an empty row. -/
def alone (t : Thread) : List KvSlot := [some (storedKey (keyOf twoCalls t), valueOf twoCalls t), none]

theorem put_emptyTable (t : Thread) (i : ℕ) :
    Bucket.put (keyOf twoCalls t) (storedKey (keyOf twoCalls t)) (valueOf twoCalls t) (emptyTable i) =
      some (alone t) := rfl

theorem wfRow_alone (t : Thread) : WfRow (alone t) :=
  (wf_emptyTable 0).put (by cases t <;> decide) (by cases t <;> decide) (put_emptyTable t 0)

/-- A process whose threads are at `a` and `b`. -/
def sharedAt (file : Option Thread) (disk : Option (List Byte)) (owner : Thread → Option Thread) (a b : Pc) : Shared :=
  ⟨file, disk, owner, fun
    | .first => a
    | .second => b⟩

section

variable {file : Option Thread} {disk : Option (List Byte)} {owner : Thread → Option Thread} {a b pc : Pc}

@[simp] theorem sharedAt_first : (sharedAt file disk owner a b).pc .first = a := rfl
@[simp] theorem sharedAt_second : (sharedAt file disk owner a b).pc .second = b := rfl
@[simp] theorem sharedAt_file : (sharedAt file disk owner a b).file = file := rfl
@[simp] theorem sharedAt_disk : (sharedAt file disk owner a b).disk = disk := rfl
@[simp] theorem sharedAt_owner : (sharedAt file disk owner a b).owner = owner := rfl

@[simp] theorem mk_sharedAt (file' : Option Thread) (disk' : Option (List Byte))
    (owner' : Thread → Option Thread) :
    (⟨file', disk', owner', (sharedAt file disk owner a b).pc⟩ : Shared) = sharedAt file' disk' owner' a b := rfl

@[simp] theorem goto_first : (sharedAt file disk owner a b).goto .first pc = sharedAt file disk owner pc b := by
  rw [Shared.goto, sharedAt, sharedAt]
  congr 1
  funext t
  cases t <;> rfl

@[simp] theorem goto_second : (sharedAt file disk owner a b).goto .second pc = sharedAt file disk owner a pc := by
  rw [Shared.goto, sharedAt, sharedAt]
  congr 1
  funext t
  cases t <;> rfl

theorem start_eq : Shared.start = sharedAt none none (fun _ => none) .test .test := by
  rw [Shared.start, sharedAt]
  congr 1
  funext t
  cases t <;> rfl

end

/-- The first thread creates the file; the second finds no handle either, but
the file, and reads the row before the first one writes it. -/
def lostSteps : List Thread :=
  [Thread.first, .first, .second] ++ ((Thread.first :: List.replicate tableColSize Thread.first) ++
    ([Thread.second, .first] ++ ([Thread.first, .first, .first] ++ ([Thread.second] ++
      ([Thread.second, .second, .second] ++ ([Thread.second, .second, .second] ++
        [Thread.first, .first, .first]))))))

/-- The table after one more row was written alone. -/
def withAlone (t : Thread) (table : KvTable) : KvTable :=
  Function.update table (hashGen (keyOf twoCalls t)) (alone t)

theorem wf_withAlone (t : Thread) {table : KvTable} (h : ∀ i, WfRow (table i)) (i : ℕ) :
    WfRow (withAlone t table i) := Table.forall_bucket_update h (wfRow_alone t) i

theorem lostSteps_run : ∃ s hist, run (Shared.step twoCalls) Shared.start lostSteps = some (s, hist) ∧
    BothSet s ∧ s.disk = some (fileOf tableColSize (withAlone .first (withAlone .second emptyTable))) := by
  let file (table : KvTable) : Option (List Byte) := some (fileOf tableColSize table)
  let free : Thread → Option Thread := fun _ => none
  let copy (t : Thread) : Pc := .write t ((alone t).map itemOf)
  -- both find no handle, and the first no file
  have r₁ : run (Shared.step twoCalls) Shared.start [.first, .first, .second] =
      some (sharedAt none none free .openFile .access, [(.first, ()), (.first, ()), (.second, ())]) := by
    rw [start_eq]
    simp [run, Shared.step, free]
  have r₂ := openFile_run twoCalls (sharedAt none none free .openFile .access) .first rfl rfl
  have r₃ : run (Shared.step twoCalls) (sharedAt none (file emptyTable) free .publish .access) [.second, .first] =
      some (sharedAt (some .first) (file emptyTable) free .call .publish, [(.second, ()), (.first, ())]) := by
    simp [run, Shared.step, file]
  have r₄ := lock_read_run twoCalls (sharedAt (some .first) (file emptyTable) free .call .publish) .first
    rfl rfl rfl (by decide) (by decide) wf_emptyTable rfl (hashGen_lt _) (put_emptyTable .first _)
  let held : Thread → Option Thread := Function.update free .first (some .first)
  have r₅ : run (Shared.step twoCalls) (sharedAt (some .first) (file emptyTable) held (copy .first) .publish)
      [.second] =
      some (sharedAt (some .second) (file emptyTable) held (copy .first) .call, [(.second, ())]) := by
    simp [run, Shared.step, file]
  have r₆ := lock_read_run twoCalls (sharedAt (some .second) (file emptyTable) held (copy .first) .call) .second
    rfl rfl rfl (by decide) (by decide) wf_emptyTable rfl (hashGen_lt _) (put_emptyTable .second _)
  let held₂ : Thread → Option Thread := Function.update held .second (some .second)
  have r₇ := write_ret_run twoCalls (sharedAt (some .second) (file emptyTable) held₂ (copy .first) (copy .second))
    .second rfl (wfRow_alone .second) wf_emptyTable rfl (hashGen_lt _)
  have r₈ := write_ret_run twoCalls (sharedAt (some .second) (file (withAlone .second emptyTable))
    (Function.update held₂ .second none) (copy .first) (.done 0))
    .first rfl (wfRow_alone .first) (wf_withAlone .second wf_emptyTable) rfl (hashGen_lt _)
  simp only [mk_sharedAt, goto_first, goto_second, sharedAt_file, sharedAt_disk, sharedAt_owner] at r₂ r₄ r₆ r₇ r₈
  exact ⟨_, _, run_append r₁ (run_append r₂ (run_append r₃ (run_append r₄ (run_append r₅ (run_append r₆
    (run_append r₇ r₈)))))), fun t => by cases t <;> rfl, rfl⟩

theorem twoCalls_keys : (twoCalls .first).key ≠ (twoCalls .second).key := keyA_ne_keyB

theorem twoCalls_fits (t : Thread) : (twoCalls t).len.toInt ≤ (twoCalls t).val.length := by cases t <;> decide

/-- Both calls return 0, and the second thread's key is not found. -/
theorem both_found_lost : (twoCalls .first).key ≠ (twoCalls .second).key ∧
    (∀ t, (twoCalls t).len.toInt ≤ (twoCalls t).val.length) ∧
    ∃ s hist, run (Shared.step twoCalls) Shared.start lostSteps = some (s, hist) ∧ BothSet s ∧
      Misses s.store keyB ∧ ¬ BothFound twoCalls s := by
  obtain ⟨s, hist, hr, hd, hdisk⟩ := lostSteps_run
  have hrepr : Repr s.store (withAlone .first (withAlone .second emptyTable)) :=
    ⟨wf_withAlone .first (wf_withAlone .second wf_emptyTable), hdisk⟩
  have hmiss : Misses s.store keyB := by
    refine misses_of_find hrepr ?_
    rw [Table.find, withAlone, twoCalls_key .first, hashGen_keyB, Function.update_self]
    decide
  exact ⟨twoCalls_keys, twoCalls_fits, s, hist, hr, hd, hmiss, fun hf => not_gets_of_misses hmiss _ (hf .second)⟩

/-- One thread after the other. -/
def turnSteps : List Thread :=
  [Thread.first, .first] ++ ((Thread.first :: List.replicate tableColSize Thread.first) ++
    ([Thread.first] ++ ([Thread.first, .first, .first] ++ ([Thread.first, .first, .first] ++
      ([Thread.second] ++ ([Thread.second, .second, .second] ++ [Thread.second, .second, .second]))))))

/-- The row after both wrote it. -/
def together : List KvSlot :=
  [some (storedKey (keyOf twoCalls .first), valueOf twoCalls .first),
    some (storedKey (keyOf twoCalls .second), valueOf twoCalls .second)]

theorem put_together : Bucket.put (keyOf twoCalls .second) (storedKey (keyOf twoCalls .second))
    (valueOf twoCalls .second) (withAlone .first emptyTable (hashGen (keyOf twoCalls .second))) = some together := by
  have hrow : withAlone .first emptyTable (hashGen (keyOf twoCalls .second)) = alone .first := by
    rw [twoCalls_key .second, withAlone, twoCalls_key .first, Function.update_self]
  rw [hrow]
  decide

theorem wfRow_together : WfRow together :=
  (wf_withAlone .first wf_emptyTable _).put (by decide) (by decide) put_together

theorem turnSteps_run : ∃ s hist, run (Shared.step twoCalls) Shared.start turnSteps = some (s, hist) ∧
    BothSet s := by
  let file (table : KvTable) : Option (List Byte) := some (fileOf tableColSize table)
  let free : Thread → Option Thread := fun _ => none
  let copy (row : List KvSlot) : Pc := .write .first (row.map itemOf)
  have r₁ : run (Shared.step twoCalls) Shared.start [.first, .first] =
      some (sharedAt none none free .openFile .test, [(.first, ()), (.first, ())]) := by
    rw [start_eq]
    simp [run, Shared.step, free]
  have r₂ := openFile_run twoCalls (sharedAt none none free .openFile .test) .first rfl rfl
  have r₃ : run (Shared.step twoCalls) (sharedAt none (file emptyTable) free .publish .test) [.first] =
      some (sharedAt (some .first) (file emptyTable) free .call .test, [(.first, ())]) := by
    simp [run, Shared.step, file]
  have r₄ := lock_read_run twoCalls (sharedAt (some .first) (file emptyTable) free .call .test) .first
    rfl rfl rfl (by decide) (by decide) wf_emptyTable rfl (hashGen_lt _) (put_emptyTable .first _)
  let held : Thread → Option Thread := Function.update free .first (some .first)
  have r₅ := write_ret_run twoCalls (sharedAt (some .first) (file emptyTable) held (copy (alone .first)) .test)
    .first rfl (wfRow_alone .first) wf_emptyTable rfl (hashGen_lt _)
  let freed : Thread → Option Thread := Function.update held .first none
  have r₆ : run (Shared.step twoCalls)
      (sharedAt (some .first) (file (withAlone .first emptyTable)) freed (.done 0) .test) [.second] =
      some (sharedAt (some .first) (file (withAlone .first emptyTable)) freed (.done 0) .call, [(.second, ())]) := by
    simp [run, Shared.step, file]
  have r₇ := lock_read_run twoCalls (sharedAt (some .first) (file (withAlone .first emptyTable)) freed (.done 0) .call)
    .second rfl rfl rfl (by decide) (by decide) (wf_withAlone .first wf_emptyTable) rfl (hashGen_lt _) put_together
  have r₈ := write_ret_run twoCalls (sharedAt (some .first) (file (withAlone .first emptyTable))
    (Function.update freed .first (some .second)) (.done 0) (copy together))
    .second rfl wfRow_together (wf_withAlone .first wf_emptyTable) rfl (hashGen_lt _)
  simp only [mk_sharedAt, goto_first, goto_second, sharedAt_file, sharedAt_disk, sharedAt_owner] at r₂ r₄ r₅ r₇ r₈
  exact ⟨_, _, run_append r₁ (run_append r₂ (run_append r₃ (run_append r₄ (run_append r₅ (run_append r₆
    (run_append r₇ r₈)))))), fun t => by cases t <;> rfl⟩

/-- Both keys are found exactly as the theorem says. -/
theorem both_found_in_turn : ∃ s hist, run (Shared.step twoCalls) Shared.start turnSteps = some (s, hist) ∧
    (BothFound twoCalls s ↔ (∀ t, Small (twoCalls t)) ∧
      Along (Shared.step twoCalls) (fun s t => ¬ Harms twoCalls s t) Shared.start turnSteps) := by
  obtain ⟨s, hist, hr, hd⟩ := turnSteps_run
  exact ⟨s, hist, hr, both_found_iff twoCalls_keys twoCalls_fits hr hd⟩

end Linkkit.Proof.Kv
