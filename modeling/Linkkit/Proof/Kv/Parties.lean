import Linkkit.Framework.Puts
import Linkkit.Proof.Kv.Steps
import Linkkit.Spec.Kv.Threads

/-!
# The threads as parties

The file, while it is being created, is the first `n` rows of a table
(`fileOf`), and the two threads that set a key are parties that put it there
(`Shape`). `shape_step` says what a step of a thread is as a step of its party,
and that it harms exactly if that step clobbers.
-/

namespace Linkkit.Proof.Kv

open Impl.Kv Spec.Kv

/-! ## A file that is being created -/

/-- The file of the first `n` rows of a table. -/
def fileOf (n : ℕ) (t : KvTable) : List Byte := blocks n fun i => rowBytes ((t i).map itemOf)

/-- The file with another row. -/
theorem fileOf_update (n i : ℕ) (t : KvTable) (b : List KvSlot) :
    fileOf n (Function.update t i b) =
      blocks n (Function.update (fun j => rowBytes ((t j).map itemOf)) i (rowBytes (b.map itemOf))) :=
  congrArg (blocks n) (Function.comp_update (fun b : List KvSlot => rowBytes (b.map itemOf)) t i b)

section

variable {t : KvTable} (ht : ∀ i, WfRow (t i)) {n i : ℕ} {disk : Option (List Byte)}

include ht

theorem length_row (i : ℕ) : (rowBytes ((t i).map itemOf)).length = rowLen :=
  length_rowBytes_row (ht i).length_map

theorem length_fileOf (n : ℕ) : (fileOf n t).length = n * rowLen := length_blocks (length_row ht) n

theorem disk_eq_some (hd : disk.getD [] = fileOf n t) (hn : 0 < n) : disk = some (fileOf n t) := by
  cases disk with
  | some f => rw [← hd, Option.getD_some]
  | none =>
    have hl : 0 = n * rowLen := by rw [← length_fileOf ht, ← hd]; rfl
    exact absurd hl (Nat.ne_of_lt (Nat.mul_pos hn (by decide)))

theorem row_end_le_fileOf (hi : i < n) : i * rowLen + rowLen ≤ (fileOf n t).length := by
  rw [length_fileOf ht, ← Nat.succ_mul]
  exact Nat.mul_le_mul_right rowLen hi

/-- A row that the file has is there, and no other row is. -/
theorem readKvItem_fileOf (hd : disk.getD [] = fileOf n t) :
    readKvItem {} disk i = if i < n then some ((t i).map itemOf) else none := by
  split
  · rename_i hi
    rw [disk_eq_some ht hd (by omega), readKvItem_ok (row_end_le_fileOf ht hi), rowAt, fileOf,
      slice_blocks (length_row ht) hi, rowOfBytes_rowBytes (ht i).length_map]
  · rename_i hi
    cases hr : readKvItem {} disk i with
    | none => rfl
    | some kv =>
      obtain ⟨f, rfl, hle, -⟩ := readKvItem_eq_some hr
      rw [Option.getD_some] at hd
      rw [hd, length_fileOf ht, ← Nat.succ_mul] at hle
      exact absurd (Nat.lt_of_succ_le (Nat.le_of_mul_le_mul_right hle (by decide))) hi

theorem writeKvItem_fileOf (hd : disk.getD [] = fileOf n t) (hi : i < n) {b : List KvSlot}
    (hb : WfRow b) : writeKvItem {} disk (b.map itemOf) i = (0, some (fileOf n (Function.update t i b))) := by
  rw [disk_eq_some ht hd (by omega), writeKvItem_ok (row_end_le_fileOf ht hi) hb.length_map, fileOf_update,
    fileOf, splice_blocks (length_row ht) hi (length_rowBytes_row hb.length_map)]

/-- A write of `create_hash_file`. -/
theorem pwrite_fileOf (hi : i ≤ n) : pwrite (fileOf n t) (i * rowLen) (zeros rowLen) =
    fileOf (max n (i + 1)) (Function.update t i (List.replicate tableRowSize none)) := by
  have hz : zeros rowLen = rowBytes ((List.replicate tableRowSize (none : KvSlot)).map itemOf) := zeros_rowLen
  rw [fileOf_update, fileOf, ← hz]
  exact pwrite_blocks (length_row ht) hi List.length_replicate

end

/-! ## The threads as parties -/

theorem Thread.ne_iff {t u : Thread} : u ≠ t ↔ u = t.other := by cases t <;> cases u <;> decide

theorem Thread.two (t u v : Thread) : t = u ∨ t = v ∨ u = v := by cases t <;> cases u <;> cases v <;> decide

@[simp] theorem goto_disk (s : Shared) (t : Thread) (pc : Pc) : (s.goto t pc).disk = s.disk := rfl
@[simp] theorem goto_owner (s : Shared) (t : Thread) (pc : Pc) : (s.goto t pc).owner = s.owner := rfl

@[simp] theorem goto_pc_self (s : Shared) (t : Thread) (pc : Pc) : (s.goto t pc).pc t = pc :=
  Function.update_self ..

/-- How far a thread is with its Set. -/
def phaseOf : Pc → Phase
  | .write _ _ => .writing
  | .unlock _ ret => if ret = 0 then .written else .failed
  | .ret ret => if ret = 0 then .written else .failed
  | .done ret => if ret = 0 then .written else .failed
  | _ => .before

theorem phaseOf_written {pc : Pc} : phaseOf pc = .written ↔ Wrote pc := by
  cases pc <;> simp [phaseOf, Wrote]

theorem phaseOf_writing {pc : Pc} : phaseOf pc = .writing ↔ Writing pc := by
  cases pc <;> simp [phaseOf, Writing] <;> split <;> simp

abbrev KvPuts := Puts Thread ℕ CString (List Byte)

variable (calls : Thread → SetCall)

/-- The key of a thread, and what is stored for it. -/
abbrev keyOf (t : Thread) : CString := (calls t).key
abbrev valueOf (t : Thread) : List Byte := stored (calls t).val (calls t).len

/-- What is known where a thread is, of a file with `n` rows and the thread's
copy `b` of its row. -/
def PcOk (c : SetCall) (b : List KvSlot) (n : ℕ) : Pc → Prop
  | .create i => i ≤ n ∧ i < tableColSize
  | .lock _ => 0 < c.len.toInt
  | .read _ => 0 < c.len.toInt
  | .write _ kv => kv = b.map itemOf ∧ WfRow b ∧ hashGen c.key < n
  | .unlock _ ret => ret = 0 → hashGen c.key < n
  | .ret ret => ret = 0 → hashGen c.key < n
  | .done ret => ret = 0 → hashGen c.key < n
  | _ => True

theorem PcOk.mono {c : SetCall} {b : List KvSlot} {n n' : ℕ} (hn : n ≤ n') {pc : Pc} (h : PcOk c b n pc) :
    PcOk c b n' pc := by
  cases pc with
  | create i => exact ⟨Nat.le_trans h.1 hn, h.2⟩
  | write _ _ => exact ⟨h.1, h.2.1, Nat.lt_of_lt_of_le h.2.2 hn⟩
  | unlock _ _ => exact fun hr => Nat.lt_of_lt_of_le (h hr) hn
  | ret _ => exact fun hr => Nat.lt_of_lt_of_le (h hr) hn
  | done _ => exact fun hr => Nat.lt_of_lt_of_le (h hr) hn
  | _ => exact h

/-- The file has the first `n` rows of the table of `p`; if not all, a thread
is creating it. -/
structure Shape (s : Shared) (n : ℕ) (p : KvPuts) : Prop where
  wf : ∀ i, WfRow (p.table i)
  disk : s.disk.getD [] = fileOf n p.table
  le : n ≤ tableColSize
  whole : s.disk.isSome → n = tableColSize ∨ ∃ t i, s.pc t = .create i
  phase : ∀ t, p.phase t = phaseOf (s.pc t)
  pcs : ∀ t, PcOk (calls t) (p.copy t) n (s.pc t)

section

variable {calls} {s s' : Shared} {n : ℕ} {p : KvPuts} {t : Thread} {pc : Pc}

/-- Thread `t` goes on at `pc`, and the table, its phase and its copy are those
of `p'`. -/
theorem Shape.goto (h : Shape calls s n p) {n' : ℕ} {p' : KvPuts} (hpc : s'.pc = Function.update s.pc t pc)
    (hn : n ≤ n') (hle : n' ≤ tableColSize) (hwf : ∀ i, WfRow (p'.table i))
    (hdisk : s'.disk.getD [] = fileOf n' p'.table)
    (hwhole : s'.disk.isSome → n' = tableColSize ∨ ∃ u i, s'.pc u = .create i)
    (hphase : p'.phase = Function.update p.phase t (phaseOf pc)) (hcopy : ∀ u, u ≠ t → p'.copy u = p.copy u)
    (hok : PcOk (calls t) (p'.copy t) n' pc) : Shape calls s' n' p' := by
  refine ⟨hwf, hdisk, hle, hwhole, fun u => ?_, ?_⟩
  · rw [hphase, hpc, funext h.phase]
    exact Function.apply_update (fun _ => phaseOf) s.pc t pc u |>.symm
  · rw [hpc]
    refine (Function.forall_update_iff s.pc fun u pc => PcOk (calls u) (p'.copy u) n' pc).mpr ⟨hok, fun u hut => ?_⟩
    rw [hcopy u hut]
    exact (h.pcs u).mono hn

/-- A thread that is not creating the file goes on, and leaves it alone. -/
theorem Shape.move (h : Shape calls s n p) (s' : Shared) (pc : Pc) (hpc : s'.pc = Function.update s.pc t pc)
    (hdisk : s'.disk = s.disk) (hcr : ∀ i, s.pc t ≠ .create i) (b : List KvSlot)
    (hok : PcOk (calls t) b n pc) : Shape calls s' n ((p.hold t b).moveTo t (phaseOf pc)) := by
  refine h.goto hpc (Nat.le_refl n) h.le h.wf (by rw [hdisk]; exact h.disk) (fun hs => ?_) rfl
    (fun u hut => Puts.hold_copy_of_ne hut) (by rwa [Puts.moveTo_copy, Puts.hold_copy_self])
  rw [hdisk] at hs
  refine (h.whole hs).imp_right fun ⟨u, i, hu⟩ => ⟨u, i, ?_⟩
  rw [hpc, Function.update_of_ne fun he : u = t => hcr i (he ▸ hu)]
  exact hu

/-- What the step is as a step of the party `t`. -/
def Follows (calls : Thread → SetCall) (s : Shared) (t : Thread) (p : KvPuts) (s' : Shared) : Prop :=
  ∃ n' p' a, Shape calls s' n' p' ∧
    Puts.Step hashGen storedKey (keyOf calls) (valueOf calls) p t a p' ∧
      (a = .fail ∨ (Harms calls s t ↔ Puts.Clobbers hashGen (keyOf calls) p t a))

/-- A step that neither clears nor reads a row. -/
def Quiet (pc : Pc) : Prop := (∀ i, pc ≠ .create i) ∧ ∀ g, pc ≠ .read g

theorem not_harms (hq : Quiet (s.pc t)) : ¬ Harms calls s t := by
  rw [Harms]
  cases hpc : s.pc t with
  | create i => exact absurd hpc (hq.1 i)
  | read g => exact absurd hpc (hq.2 g)
  | _ => exact id

variable {pc₀ : Pc}

/-- A step that leaves the file and the thread's phase alone. -/
theorem Shape.skip (h : Shape calls s n p) (hpc₀ : s.pc t = pc₀) (hq : Quiet pc₀)
    (hpc : s'.pc = Function.update s.pc t pc) (hdisk : s'.disk = s.disk) (hphase : phaseOf pc = phaseOf pc₀)
    (hok : PcOk (calls t) (p.copy t) n pc) : Follows calls s t p s' := by
  subst hpc₀
  have hs := h.move s' pc hpc hdisk hq.1 (p.copy t) hok
  rw [Puts.hold_copy_eq, hphase, ← h.phase, Puts.moveTo_phase_eq] at hs
  exact ⟨n, p, .skip, hs, .skip, .inr (iff_of_false (not_harms hq) id)⟩

/-- A step after which the call returns -1. -/
theorem Shape.fail (h : Shape calls s n p) (hpc₀ : s.pc t = pc₀) (hcr : ∀ i, pc₀ ≠ .create i)
    (hpc : s'.pc = Function.update s.pc t pc) (hdisk : s'.disk = s.disk) (hbefore : phaseOf pc₀ = .before)
    (hfailed : phaseOf pc = .failed) (hok : PcOk (calls t) (p.copy t) n pc) : Follows calls s t p s' := by
  subst hpc₀
  have hs := h.move s' pc hpc hdisk hcr (p.copy t) hok
  rw [Puts.hold_copy_eq, hfailed] at hs
  exact ⟨n, _, .fail, hs, .fail (by rw [h.phase, hbefore]), .inl rfl⟩

theorem Shape.openFile_step (h : Shape calls s n p) (hpc : s.pc t = .openFile)
    (hs : Shared.step calls s t = some (s', ())) : Follows calls s t p s' := by
  simp only [Shared.step, hpc] at hs
  cases hs
  refine ⟨n, p, .skip, ?_, .skip, .inr (iff_of_false (not_harms (by rw [hpc]; exact ⟨nofun, nofun⟩)) id)⟩
  refine h.goto rfl (Nat.le_refl n) h.le h.wf h.disk (fun _ => .inr ⟨t, 0, Function.update_self ..⟩) ?_
    (fun _ _ => rfl) ⟨Nat.zero_le n, by decide⟩
  show p.phase = Function.update p.phase t .before
  have hb : p.phase t = .before := by rw [h.phase, hpc]; rfl
  rw [← hb, Function.update_eq_self]

/-- A write of `create_hash_file` clears a bucket. -/
theorem Shape.create_step (h : Shape calls s n p) {i : ℕ} (hpc : s.pc t = .create i)
    (hs : Shared.step calls s t = some (s', ())) : Follows calls s t p s' := by
  obtain ⟨hin, hi⟩ : i ≤ n ∧ i < tableColSize := by
    have := h.pcs t
    rwa [hpc] at this
  have hb : p.phase t = .before := by rw [h.phase, hpc]; rfl
  simp only [Shared.step, hpc] at hs
  cases hs
  refine ⟨max n (i + 1), p.store i (List.replicate tableRowSize none), .clear i, ?_, .clear hb i _, .inr ?_⟩
  · refine h.goto rfl (Nat.le_max_left ..) (Nat.max_le.mpr ⟨h.le, hi⟩)
      (Table.forall_bucket_update h.wf WfRow.empty) ?_ (fun _ => ?_) ?_ (fun _ _ => rfl) ?_
    · show pwrite (s.disk.getD []) (i * rowLen) (zeros rowLen) = _
      rw [h.disk, pwrite_fileOf h.wf hin]
      rfl
    · by_cases hlast : i + 1 < tableColSize
      · exact .inr ⟨t, i + 1, by rw [if_pos hlast]; exact Function.update_self ..⟩
      · have := h.le
        exact .inl (by omega)
    · have hphase : phaseOf (if i + 1 < tableColSize then .create (i + 1) else .publish) = .before := by
        split <;> rfl
      rw [hphase, ← hb, Function.update_eq_self]
      rfl
    · split
      · exact ⟨Nat.le_max_right .., by assumption⟩
      · trivial
  · rw [Harms, hpc]
    show Wrote _ ∧ _ ↔ ∃ u, u ≠ t ∧ p.phase u = .written ∧ hashGen (calls u).key = i
    simp only [Thread.ne_iff, exists_eq_left, h.phase, phaseOf_written]

theorem Shape.read_step (h : Shape calls s n p) (hf : (calls t).len.toInt ≤ (calls t).val.length)
    {g : Thread} (hpc : s.pc t = .read g) (hs : Shared.step calls s t = some (s', ())) :
    Follows calls s t p s' := by
  have h₀ : 0 < (calls t).len.toInt := by
    have := h.pcs t
    rwa [hpc] at this
  obtain ⟨hv, hsz⟩ := valueArg_cut h₀ hf (n := Shared.cut (calls t).len) rfl
  simp only [Shared.step, hpc, readKvItem_fileOf h.wf h.disk] at hs
  by_cases hi : hashGen (calls t).key < n
  · simp only [if_pos hi, putWalk_map hv (h.wf _).slots, hsz] at hs
    cases hp : Bucket.put (calls t).key (storedKey (calls t).key) (valueOf calls t)
        (p.table (hashGen (calls t).key)) with
    | none =>
      simp only [hp, Option.map_none] at hs
      cases hs
      exact h.fail hpc nofun rfl rfl rfl rfl nofun
    | some b =>
      simp only [hp, Option.map_some] at hs
      cases hs
      have hwf : WfRow b := by
        have h512 : 0 < itemMaxValLen := by decide
        refine (h.wf _).put ?_ ?_ hp
        · rw [List.length_take]; omega
        · rw [List.length_take]; omega
      have hm := h.move (s.goto t (.write g (b.map itemOf))) _ rfl rfl (by rw [hpc]; exact nofun) b ⟨rfl, hwf, hi⟩
      refine ⟨n, _, .read, hm, .read (by rw [h.phase, hpc]; rfl) hp, .inr ?_⟩
      rw [Harms, hpc]
      show Writing _ ∧ _ ↔ ∃ u, u ≠ t ∧ p.phase u = .writing ∧ hashGen (calls u).key = hashGen (calls t).key
      simp only [Thread.ne_iff, exists_eq_left, h.phase, phaseOf_writing]
  · simp only [if_neg hi] at hs
    cases hs
    exact h.fail hpc nofun rfl rfl rfl rfl nofun

theorem Shape.write_step (h : Shape calls s n p) {g : Thread} {kv : List KvItem} (hpc : s.pc t = .write g kv)
    (hs : Shared.step calls s t = some (s', ())) : Follows calls s t p s' := by
  obtain ⟨rfl, hwf, hi⟩ : kv = (p.copy t).map itemOf ∧ WfRow (p.copy t) ∧ hashGen (calls t).key < n := by
    have := h.pcs t
    rwa [hpc] at this
  have hw : p.phase t = .writing := by rw [h.phase, hpc]; rfl
  simp only [Shared.step, hpc, writeKvItem_fileOf h.wf h.disk hi hwf] at hs
  cases hs
  refine ⟨n, _, .write, ?_, .write hw, .inr (iff_of_false (not_harms (by rw [hpc]; exact ⟨nofun, nofun⟩)) id)⟩
  refine h.goto rfl (Nat.le_refl n) h.le (Table.forall_bucket_update h.wf hwf) rfl (fun _ => ?_) rfl
    (fun _ _ => rfl) fun _ => hi
  have hsome : s.disk.isSome := by rw [disk_eq_some h.wf h.disk (by omega)]; rfl
  refine (h.whole hsome).imp_right fun ⟨u, i, hu⟩ => ⟨u, i, ?_⟩
  have hut : u ≠ t := fun he => by rw [he, hpc] at hu; cases hu
  exact (Function.update_of_ne hut _ _).trans hu

/-- A step of a thread is a step of its party. -/
theorem shape_step (h : Shape calls s n p) (hf : (calls t).len.toInt ≤ (calls t).val.length)
    (hs : Shared.step calls s t = some (s', ())) : Follows calls s t p s' := by
  have hok := h.pcs t
  cases hpc : s.pc t <;> rw [hpc] at hok
  case openFile => exact h.openFile_step hpc hs
  case create i => exact h.create_step hpc hs
  case read g => exact h.read_step hf hpc hs
  case write g kv => exact h.write_step hpc hs
  -- the other steps leave the file alone
  all_goals simp only [Shared.step, hpc] at hs
  case test =>
    cases hs
    refine h.skip hpc ⟨nofun, nofun⟩ rfl rfl ?_ ?_
    · split <;> rfl
    · split <;> trivial
  case access =>
    cases hs
    refine h.skip hpc ⟨nofun, nofun⟩ rfl rfl ?_ ?_
    · split <;> rfl
    · split <;> trivial
  case publish =>
    cases hs
    exact h.skip hpc ⟨nofun, nofun⟩ rfl rfl rfl trivial
  case call =>
    split at hs
    · cases hs
      exact h.fail hpc nofun rfl rfl rfl rfl nofun
    cases hs
    by_cases hlen : (calls t).len ≤ 0
    · rw [if_pos hlen]
      exact h.fail hpc nofun rfl rfl rfl rfl nofun
    · rw [if_neg hlen]
      rw [Int32.le_iff_toInt_le, Int32.toInt_zero] at hlen
      exact h.skip hpc ⟨nofun, nofun⟩ rfl rfl rfl (Int.not_le.mp hlen)
  case lock g =>
    split at hs <;> [skip; cases hs]
    cases hs
    exact h.skip hpc ⟨nofun, nofun⟩ rfl rfl rfl hok
  case unlock g ret =>
    cases hs
    exact h.skip hpc ⟨nofun, nofun⟩ rfl rfl rfl hok
  case ret ret =>
    cases hs
    exact h.skip hpc ⟨nofun, nofun⟩ rfl rfl rfl hok
  case done ret => cases hs

end

end Linkkit.Proof.Kv
