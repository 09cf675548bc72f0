import Linkkit.Proof.Kv.Parties

/-!
# A thread that steps alone

The steps of a thread between which the other makes none: what
`create_hash_file` leaves (`openFile_run`), the steps of `__kv_set` before and
after its row is written (`lock_read_run`, `write_ret_run`), and the whole
call, which does what `halKvSet` does (`alone_run`).
-/

namespace Linkkit.Proof.Kv

open Impl.Kv Spec.Kv

section

variable {calls : Thread → SetCall} {s s' : Shared} {n : ℕ} {t : Thread}

theorem goto_goto (s : Shared) (file : Option Thread) (disk : Option (List Byte))
    (owner : Thread → Option Thread) (t : Thread) (pc pc' : Pc) :
    (⟨file, disk, owner, (s.goto t pc).pc⟩ : Shared).goto t pc' = (⟨file, disk, owner, s.pc⟩ : Shared).goto t pc' := by
  rw [Shared.goto, Shared.goto, Shared.goto, Function.update_idem]

theorem wf_emptyTable (i : ℕ) : WfRow (emptyTable i) := WfRow.empty

theorem pwrite_emptyTable (i : ℕ) :
    pwrite (fileOf i emptyTable) (i * rowLen) (zeros rowLen) = fileOf (i + 1) emptyTable := by
  rw [pwrite_fileOf wf_emptyTable (Nat.le_refl i), Nat.max_eq_right (Nat.le_succ i)]
  congr 1
  exact Function.update_eq_self i emptyTable

variable (calls s t)

omit s in
/-- The writes of `create_hash_file` from row `i` on. -/
theorem create_run (s : Shared) (m : ℕ) {i : ℕ} (hm : i + (m + 1) = tableColSize) (hpc : s.pc t = .create i)
    (hd : s.disk.getD [] = fileOf i emptyTable) :
    run (Shared.step calls) s (List.replicate (m + 1) t) =
      some ({ s with disk := some (fileOf tableColSize emptyTable) }.goto t .publish,
        List.replicate (m + 1) (t, ())) := by
  induction m generalizing s i with
  | zero =>
    have hs : Shared.step calls s t =
        some ({ s with disk := some (fileOf tableColSize emptyTable) }.goto t .publish, ()) := by
      rw [Nat.zero_add] at hm
      simp only [Shared.step, hpc, hd, pwrite_emptyTable, hm, Nat.lt_irrefl, if_false]
    exact run_cons_of_step hs []
  | succ m ih =>
    have hs : Shared.step calls s t =
        some ({ s with disk := some (fileOf (i + 1) emptyTable) }.goto t (.create (i + 1)), ()) := by
      simp only [Shared.step, hpc, hd, pwrite_emptyTable, if_pos (show i + 1 < tableColSize by omega)]
    rw [List.replicate_succ, run_cons_of_step hs, ih _ (by omega) (goto_pc_self ..) rfl]
    exact congrArg some (Prod.ext (goto_goto ..) rfl)

/-- `create_hash_file` by a thread that is alone. -/
theorem openFile_run (hpc : s.pc t = .openFile) (hd : s.disk = none) :
    run (Shared.step calls) s (t :: List.replicate tableColSize t) =
      some ({ s with disk := some (fileOf tableColSize emptyTable) }.goto t .publish,
        (t, ()) :: List.replicate tableColSize (t, ())) := by
  have hs : Shared.step calls s t = some ({ s with disk := some [] }.goto t (.create 0), ()) := by
    simp only [Shared.step, hpc, hd, Option.getD_none]
  have hr : run (Shared.step calls) ({ s with disk := some [] }.goto t (.create 0))
      (List.replicate tableColSize t) = _ := create_run calls t _ 383 rfl (goto_pc_self ..) rfl
  rw [run_cons_of_step hs, hr]
  exact congrArg some (Prod.ext (goto_goto ..) rfl)

variable {g : Thread} {table : KvTable} {b : List KvSlot}

/-- The steps of a thread from the call of `__kv_set` to its read. -/
theorem lock_run (hpc : s.pc t = .call) (hfile : s.file = some g) (hfree : s.owner g = none)
    (hlen : ¬ (calls t).len ≤ 0) :
    run (Shared.step calls) s [t, t] =
      some ({ s with owner := Function.update s.owner g (some t) }.goto t (.read g), [(t, ()), (t, ())]) := by
  have h₁ : Shared.step calls s t = some (s.goto t (.lock g), ()) := by
    simp only [Shared.step, hpc, hfile, if_neg hlen]
  have h₂ : Shared.step calls (s.goto t (.lock g)) t =
      some ({ s with owner := Function.update s.owner g (some t) }.goto t (.read g), ()) := by
    simp only [Shared.step, goto_pc_self, goto_owner, hfree, if_true]
    exact congrArg some (Prod.ext (goto_goto ..) rfl)
  rw [run_cons_of_step h₁, run_cons_of_step h₂]
  rfl

/-- The steps of a thread from its unlock on. -/
theorem unlock_run {ret : Int} (hpc : s.pc t = .unlock g ret) :
    run (Shared.step calls) s [t, t] =
      some ({ s with owner := Function.update s.owner g none }.goto t (.done ret), [(t, ()), (t, ())]) := by
  simp only [run, Shared.step, hpc, goto_pc_self, Option.bind_some, Option.map_some]
  exact congrArg some (Prod.ext (goto_goto ..) rfl)

/-- The steps of a thread from the call of `__kv_set` to its write. -/
theorem lock_read_run (hpc : s.pc t = .call) (hfile : s.file = some g) (hfree : s.owner g = none)
    (h₀ : 0 < (calls t).len.toInt) (hf : (calls t).len.toInt ≤ (calls t).val.length)
    (hwf : ∀ i, WfRow (table i)) (hd : s.disk.getD [] = fileOf n table) (hi : hashGen (calls t).key < n)
    (hb : Bucket.put (calls t).key (storedKey (calls t).key) (valueOf calls t)
      (table (hashGen (calls t).key)) = some b) :
    run (Shared.step calls) s [t, t, t] =
      some ({ s with owner := Function.update s.owner g (some t) }.goto t (.write g (b.map itemOf)),
        [(t, ()), (t, ()), (t, ())]) := by
  obtain ⟨hv, hsz⟩ := valueArg_cut h₀ hf (n := Shared.cut (calls t).len) rfl
  have hread : readKvItem {} s.disk (hashGen (calls t).key) = some ((table (hashGen (calls t).key)).map itemOf) := by
    rw [readKvItem_fileOf hwf hd, if_pos hi]
  have h₁ : Shared.step calls ({ s with owner := Function.update s.owner g (some t) }.goto t (.read g)) t =
      some ({ s with owner := Function.update s.owner g (some t) }.goto t (.write g (b.map itemOf)), ()) := by
    simp only [Shared.step, goto_pc_self, goto_disk, hread, putWalk_map hv (hwf _).slots, hsz, hb,
      Option.map_some]
    exact congrArg some (Prod.ext (goto_goto ..) rfl)
  exact run_append (lock_run calls s t hpc hfile hfree (not_le_zero h₀)) (run_cons_of_step h₁ [])

/-- The steps of a thread from its write on. -/
theorem write_ret_run (hpc : s.pc t = .write g (b.map itemOf)) (hb : WfRow b) (hwf : ∀ i, WfRow (table i))
    (hd : s.disk.getD [] = fileOf n table) (hi : hashGen (calls t).key < n) :
    run (Shared.step calls) s [t, t, t] =
      some ({ s with
        disk := some (fileOf n (Function.update table (hashGen (calls t).key) b))
        owner := Function.update s.owner g none }.goto t (.done 0), [(t, ()), (t, ()), (t, ())]) := by
  have h₁ : Shared.step calls s t = some ({ s with
      disk := some (fileOf n (Function.update table (hashGen (calls t).key) b)) }.goto t (.unlock g 0), ()) := by
    simp only [Shared.step, hpc, writeKvItem_fileOf hwf hd hi hb]
    rfl
  rw [run_cons_of_step h₁, unlock_run calls _ t (goto_pc_self ..)]
  exact congrArg some (Prod.ext (goto_goto ..) rfl)

section

variable {file : Option Thread} {disk : Option (List Byte)} {owner : Thread → Option Thread}
  {pc : Thread → Pc}

theorem publish_run (disk : Option (List Byte)) (owner : Thread → Option Thread) (pc : Thread → Pc) :
    run (Shared.step calls) (Shared.goto ⟨file, disk, owner, pc⟩ t .publish) [t] =
      some (Shared.goto ⟨some t, disk, owner, pc⟩ t .call, [(t, ())]) := by
  simp only [run, Shared.step, goto_pc_self, Option.bind_some, Option.map_some]
  exact congrArg some (Prod.ext (goto_goto ..) rfl)

/-- Where there is no file `kv_open` creates it. -/
theorem ensureOpen_none : ensureOpen .ok ⟨false, none⟩ = ⟨true, some (fileOf tableColSize emptyTable)⟩ := by
  have h : createHashFile Sys.ok.create none = (0, some (fileOf tableColSize emptyTable)) := createHashFile_ok
  rw [ensureOpen, kvOpen, h]
  rfl

/-- A call that is alone gets a handle. -/
theorem ensureOpen_file_ok (k : KvState) : (ensureOpen .ok k).file = true := by
  obtain ⟨file, disk⟩ := k
  cases file with
  | true => rfl
  | false =>
    cases disk with
    | some f => rfl
    | none => rw [ensureOpen_none]

/-- The steps up to the call of `__kv_set`. -/
theorem open_run (file : Option Thread) (disk : Option (List Byte)) (owner : Thread → Option Thread)
    (hpc : pc t = .test) :
    ∃ ts g hist, (∀ u ∈ ts, u = t) ∧ run (Shared.step calls) ⟨file, disk, owner, pc⟩ ts =
      some (Shared.goto ⟨some g, (ensureOpen .ok ⟨file.isSome, disk⟩).disk, owner, pc⟩ t .call, hist) := by
  cases file with
  | some g =>
    refine ⟨[t], g, [(t, ())], by simp, ?_⟩
    simp only [run, Shared.step, hpc]
    rfl
  | none =>
    have h₁ : run (Shared.step calls) ⟨none, disk, owner, pc⟩ [t, t] = some (Shared.goto ⟨none, disk, owner, pc⟩ t
        (if disk.isSome then .publish else .openFile), [(t, ()), (t, ())]) := by
      simp only [run, Shared.step, hpc, Option.isSome_none, Bool.false_eq_true, if_false, goto_pc_self, goto_disk,
        Option.bind_some, Option.map_some]
      simp only [Shared.goto, Function.update_idem]
      rfl
    cases disk with
    | some f => exact ⟨_, t, _, by simp, run_append h₁ (publish_run calls t (some f) owner pc)⟩
    | none =>
      have h₂ := openFile_run calls (Shared.goto ⟨none, none, owner, pc⟩ t .openFile) t (goto_pc_self ..) rfl
      rw [goto_goto] at h₂
      rw [Option.isSome_none, ensureOpen_none]
      refine ⟨_, t, _, ?_, run_append h₁ (run_append h₂ (publish_run calls t _ owner pc))⟩
      simp only [List.mem_append, List.mem_cons, List.mem_replicate, List.not_mem_nil, or_false]
      rintro u ((h | h) | (h | ⟨-, h⟩) | h) <;> exact h

/-- The steps of `hash_table_put`. -/
theorem put_run {ret : Int} {disk' : Option (List Byte)} (hpc : s.pc t = .read g) (hlen : ¬ (calls t).len ≤ 0)
    (hset : kvFileSet .ok s.disk (some (calls t).key) (some (calls t).val) (calls t).len = some (ret, disk')) :
    ∃ ts hist, (∀ u ∈ ts, u = t) ∧ run (Shared.step calls) s ts =
      some ({ s with disk := disk' }.goto t (.unlock g ret), hist) := by
  have hcut : Shared.cut (calls t).len = if (calls t).len > Int32.ofNat itemMaxValLen then
    Int32.ofNat itemMaxValLen else (calls t).len := rfl
  simp only [kvFileSet, if_neg hlen, hashTablePut, Sys.ok_mallocRow, Sys.ok_read, Sys.ok_write, Bool.not_true,
    Bool.false_eq_true, if_false, ← hcut] at hset
  cases hread : readKvItem {} s.disk (hashGen (calls t).key) with
  | none =>
    simp only [hread] at hset
    cases hset
    have h₁ : Shared.step calls s t = some (s.goto t (.unlock g (-1)), ()) := by
      simp only [Shared.step, hpc, hread]
    exact ⟨[t], _, by simp, run_cons_of_step h₁ []⟩
  | some kv =>
    simp only [hread] at hset
    obtain ⟨row, hput, hset⟩ := Option.bind_eq_some_iff.mp hset
    cases row with
    | none =>
      cases hset
      have h₁ : Shared.step calls s t = some (s.goto t (.unlock g (-1)), ()) := by
        simp only [Shared.step, hpc, hread, hput]
      exact ⟨[t], _, by simp, run_cons_of_step h₁ []⟩
    | some row =>
      cases hset
      have h₁ : Shared.step calls s t = some (s.goto t (.write g row), ()) := by
        simp only [Shared.step, hpc, hread, hput]
      refine ⟨[t, t], [(t, ()), (t, ())], by simp, ?_⟩
      rw [run_cons_of_step h₁]
      simp only [run, Shared.step, goto_pc_self, Option.bind_some, Option.map_some]
      exact congrArg some (Prod.ext (goto_goto ..) rfl)

/-- The steps from the call of `__kv_set` on. -/
theorem call_run {ret : Int} {disk' : Option (List Byte)} (hpc : s.pc t = .call) (hfile : s.file = some g)
    (hfree : s.owner g = none)
    (hset : kvFileSet .ok s.disk (some (calls t).key) (some (calls t).val) (calls t).len = some (ret, disk')) :
    ∃ ts hist, (∀ u ∈ ts, u = t) ∧ run (Shared.step calls) s ts =
      some ({ s with disk := disk' }.goto t (.done ret), hist) := by
  obtain ⟨file, disk, owner, pc⟩ := s
  obtain rfl : file = some g := hfile
  replace hpc : pc t = .call := hpc
  replace hfree : owner g = none := hfree
  by_cases hlen : (calls t).len ≤ 0
  · simp only [kvFileSet, if_pos hlen] at hset
    cases hset
    refine ⟨[t, t], [(t, ()), (t, ())], by simp, ?_⟩
    simp only [run, Shared.step, hpc, if_pos hlen, goto_pc_self, Option.bind_some, Option.map_some]
    exact congrArg some (Prod.ext (goto_goto ..) rfl)
  let held (disk : Option (List Byte)) : Shared := ⟨some g, disk, Function.update owner g (some t), pc⟩
  have r₁ : run (Shared.step calls) ⟨some g, disk, owner, pc⟩ [t, t] =
      some ((held disk).goto t (.read g), [(t, ()), (t, ())]) := lock_run calls _ t hpc rfl hfree hlen
  obtain ⟨ts, hist, ht, r₂⟩ := put_run calls ((held disk).goto t (.read g)) t (goto_pc_self ..) hlen hset
  have r₃ : run (Shared.step calls) ((held disk').goto t (.unlock g ret)) [t, t] =
      some (Shared.goto ⟨some g, disk', owner, pc⟩ t (.done ret), [(t, ()), (t, ())]) := by
    have hfreed : Function.update (Function.update owner g (some t)) g none = owner := by
      rw [Function.update_idem, ← hfree, Function.update_eq_self]
    rw [unlock_run calls _ t (goto_pc_self ..), goto_goto, goto_owner, hfreed]
    rfl
  rw [goto_goto] at r₂
  refine ⟨[t, t] ++ (ts ++ [t, t]), _, fun u hu => ?_, run_append r₁ (run_append r₂ r₃)⟩
  simp only [List.mem_append, List.mem_cons, List.not_mem_nil, or_false, or_self] at hu
  exact hu.elim id fun hu => hu.elim (ht u) id

/-- A thread that steps alone does what `HAL_Kv_Set` does. -/
theorem alone_run (hpc : pc t = .test) (hfree : ∀ g, owner g = none) {k : KvState} {ret : Int}
    (hset : halKvSet .ok ⟨file.isSome, disk⟩ (some (calls t).key) (some (calls t).val) (calls t).len =
      some (k, ret)) :
    ∃ ts s' hist, (∀ u ∈ ts, u = t) ∧ run (Shared.step calls) ⟨file, disk, owner, pc⟩ ts = some (s', hist) ∧
      s'.store = k ∧ s'.pc = Function.update pc t (.done ret) := by
  have hopen := ensureOpen_file_ok ⟨file.isSome, disk⟩
  obtain ⟨ts₁, g, h₁, ht₁, r₁⟩ := open_run calls t file disk owner hpc
  rw [halKvSet, kvSet, hopen] at hset
  obtain ⟨⟨ret', disk'⟩, hput, he⟩ := Option.map_eq_some_iff.mp hset
  cases he
  obtain ⟨ts₂, h₂, ht₂, r₂⟩ :=
    call_run calls (Shared.goto ⟨some g, _, owner, pc⟩ t .call) t (goto_pc_self ..) rfl (hfree g) hput
  refine ⟨ts₁ ++ ts₂, _, _, fun u hu => ?_, run_append r₁ r₂, rfl, Function.update_idem ..⟩
  exact (List.mem_append.mp hu).elim (ht₁ u) (ht₂ u)

end

end

end Linkkit.Proof.Kv
