import Linkkit.Proof.Kv.Steps

/-!
# Opening the store

`kv_open` creates the file if there is none, and takes a file that is there
as it is, whatever `create_hash_file` left in it. So an open store has all its
rows as long as every creation of a file has written them all
(`opened_store_whole_iff`); one that stopped before leaves a file that a later
`kv_open` takes for the store (`partial_store_opened`).
-/

namespace Linkkit.Proof.Kv

open Impl.Kv Spec.Kv

/-! ## Creating the file -/

section

variable (accepts : Nat → Option Nat)

/-- Rows written so far, whole or not, end before row `i + n`. -/
theorem length_createRows_le (n i : ℕ) {f : List Byte} (hf : f.length = i * rowLen) :
    (createRows accepts n i f).2.length ≤ (i + n) * rowLen := by
  induction n generalizing i f with
  | zero => exact Nat.le_of_eq hf
  | succ n ih =>
    have hi : (i + 1) * rowLen ≤ (i + (n + 1)) * rowLen := Nat.mul_le_mul_right _ (by omega)
    rw [Nat.succ_mul] at hi
    rw [createRows]
    cases accepts i with
    | none => dsimp only; omega
    | some m =>
      have hl : ((zeros rowLen).take m).length ≤ rowLen := by
        rw [List.length_take, List.length_replicate]; exact Nat.min_le_right _ _
      have hp : (pwrite f (i * rowLen) ((zeros rowLen).take m)).length =
          i * rowLen + ((zeros rowLen).take m).length := by
        rw [length_pwrite, hf]; omega
      dsimp only
      split
      · dsimp only; omega
      · rename_i hw
        rw [not_not] at hw
        have h := ih (i + 1) (hp.trans (by rw [hw, Nat.succ_mul]))
        rwa [show i + 1 + n = i + (n + 1) by omega] at h

/-- A write that is not whole stops the loop before the end of the file. -/
theorem createRows_short (n i : ℕ) {f : List Byte} (hf : f.length = i * rowLen)
    (hs : ∃ j, i ≤ j ∧ j < i + n ∧ ¬ ∃ m, accepts j = some m ∧ rowLen ≤ m) :
    ∃ f', createRows accepts n i f = (false, f') ∧ f'.length < (i + n) * rowLen := by
  induction n generalizing i f with
  | zero => obtain ⟨j, h₁, h₂, -⟩ := hs; omega
  | succ n ih =>
    have hrow : 0 < rowLen := by decide
    have hi : (i + 1) * rowLen ≤ (i + (n + 1)) * rowLen := Nat.mul_le_mul_right _ (by omega)
    rw [Nat.succ_mul] at hi
    rw [createRows]
    cases hm : accepts i with
    | none => exact ⟨f, rfl, by omega⟩
    | some m =>
      have hl : ((zeros rowLen).take m).length = min m rowLen := by
        rw [List.length_take, List.length_replicate]
      have hp : (pwrite f (i * rowLen) ((zeros rowLen).take m)).length = i * rowLen + min m rowLen := by
        rw [length_pwrite, hf, hl]; omega
      dsimp only
      rw [hl]
      by_cases hw : min m rowLen = rowLen
      · rw [if_neg (not_not.mpr hw), ← show i + 1 + n = i + (n + 1) by omega]
        obtain ⟨j, h₁, h₂, h₃⟩ := hs
        have hji : j ≠ i := fun he => h₃ ⟨m, he ▸ hm, by omega⟩
        exact ih (i + 1) (hp.trans (by rw [hw, Nat.succ_mul])) ⟨j, by omega, by omega, h₃⟩
      · rw [if_pos hw]
        exact ⟨_, rfl, by rw [hp]; omega⟩

theorem createRows_fresh {create : CreateSys} (h : WholeWrites create) :
    createRows create.accepts tableColSize 0 [] = (true, storeOf fun _ => emptyRow) := by
  have hr := createRows_whole create.accepts tableColSize 0 fun j _ hj => h j (by omega)
  have h₀ : (blocks 0 fun _ => zeros rowLen) = [] := rfl
  rwa [h₀, Nat.zero_add, zeros_rowLen] at hr

theorem createRows_stopped {create : CreateSys} {n : ℕ} (h : ¬ (tableColSize ≤ n ∧ WholeWrites create)) :
    (createRows create.accepts (min n tableColSize) 0 []).2.length < storeLen := by
  by_cases hn : tableColSize ≤ n
  · have hs : ∃ j, 0 ≤ j ∧ j < 0 + tableColSize ∧ ¬ ∃ m, create.accepts j = some m ∧ rowLen ≤ m := by
      by_contra hall
      exact h ⟨hn, fun i hi => by_contra fun hw => hall ⟨i, Nat.zero_le i, by omega, hw⟩⟩
    obtain ⟨f, hf, hl⟩ := createRows_short create.accepts tableColSize 0 (f := []) rfl hs
    rw [Nat.min_eq_right hn, hf]
    rwa [Nat.zero_add] at hl
  · have hl := length_createRows_le create.accepts n 0 (f := []) rfl
    have hlt : n * rowLen < storeLen := Nat.mul_lt_mul_of_pos_right (by omega) (by decide)
    rw [Nat.min_eq_left (by omega)]
    rw [Nat.zero_add] at hl
    omega

end

/-! ## One event -/

section

variable {s : KvState}

/-- There is no file and no handle, or the file is a store of 384 rows. -/
def NoneOrWhole (s : KvState) : Prop := Creates s ∨ ∃ t, Repr s t

theorem fresh_file (create : CreateSys) (h : WholeWrites create) (file : Bool) :
    Repr ⟨file, some (createRows create.accepts tableColSize 0 []).2⟩ emptyTable :=
  ⟨fun _ => WfRow.empty, by rw [createRows_fresh h]; rfl⟩

/-- What a call does before it reads a row, on no file. -/
theorem ensureOpen_creates {sys : Sys} (h : Creates s) : ensureOpen sys s =
    if sys.mallocFile ∧ sys.create.opens then
      ⟨(createRows sys.create.accepts tableColSize 0 []).1 && sys.create.fsyncs,
        some (createRows sys.create.accepts tableColSize 0 []).2⟩
    else ⟨false, none⟩ := by
  obtain ⟨file, disk⟩ := s
  obtain ⟨rfl, rfl⟩ : file = false ∧ disk = none := h
  cases hm : sys.mallocFile
  · simp [ensureOpen, kvOpen, hm]
  cases ho : sys.create.opens
  · simp [ensureOpen, kvOpen, hm, createHashFile, ho]
  · simp only [ensureOpen, kvOpen, hm, createHashFile, ho, Bool.not_true, Bool.false_eq_true, if_false,
      Option.getD_none, and_self, if_true]
    cases hr : createRows sys.create.accepts tableColSize 0 [] with
    | mk whole f =>
      cases whole
      · rfl
      · cases hf : sys.create.fsyncs <;> simp

theorem noneOrWhole_ensureOpen {sys : Sys} (h : NoneOrWhole s)
    (hc : Creates s → sys.mallocFile → sys.create.opens → WholeWrites sys.create) :
    NoneOrWhole (ensureOpen sys s) := by
  rcases h with h | ⟨t, hr⟩
  · rw [ensureOpen_creates h]
    split
    · rename_i ho
      exact .inr ⟨_, fresh_file sys.create (hc h ho.1 ho.2) _⟩
    · exact .inl ⟨rfl, rfl⟩
  · obtain ⟨file, disk⟩ := s
    cases file
    · obtain ⟨hw, hd⟩ := hr
      cases hd
      cases hm : sys.mallocFile
      · exact .inr ⟨t, by simpa [ensureOpen, kvOpen, hm] using ⟨hw, rfl⟩⟩
      · exact .inr ⟨t, by rw [ensureOpen_malloc hm rfl]; exact ⟨hw, rfl⟩⟩
    · exact .inr ⟨t, hr⟩

theorem ensureOpen_file (sys : Sys) (h : s.file = true) : ensureOpen sys s = s := by
  rw [ensureOpen, if_pos h]

/-- A call that gets no handle. -/
theorem callStep_closed (sys : Sys) (h : (ensureOpen sys s).file = false) (c : Call) :
    ∃ o, callStep sys s c = some (ensureOpen sys s, o) := by
  cases c with
  | set key val len => exact ⟨.set (-1), by simp [callStep, halKvSet, kvSet, h]⟩
  | get key buf n => exact ⟨.get (-1) (some buf) (some n), by simp [callStep, halKvGet, kvGet, h]⟩
  | del key => exact ⟨.del (-1), by simp [callStep, halKvDel, kvDel, h]⟩

/-- A call that gets a handle, and whose system calls on rows succeed. -/
theorem callStep_opened {malloc : Bool} {create : CreateSys}
    (h : (ensureOpen { mallocFile := malloc, create := create } s).file = true) (c : Call) :
    callStep { mallocFile := malloc, create := create } s c =
      step (ensureOpen { mallocFile := malloc, create := create } s) c := by
  have ho := ensureOpen_file .ok h
  cases c with
  | set key val len => simp only [step, callStep, halKvSet, kvSet, ho]; rfl
  | get key buf n => simp only [step, callStep, halKvGet, kvGet, ho]; rfl
  | del key => simp only [step, callStep, halKvDel, kvDel, ho]; rfl

theorem noneOrWhole_step {e : OpenEvent} (h : NoneOrWhole s) (hf : e.Fits) (hc : CreatesWhole s e) :
    ∃ s' o, openStep s e = some (s', o) ∧ NoneOrWhole s' := by
  have hclose : NoneOrWhole ⟨false, s.disk⟩ := by
    rcases h with h | ⟨t, hr⟩
    · exact .inl ⟨rfl, h.2⟩
    · exact .inr ⟨t, hr.wf, hr.disk⟩
  cases e with
  | call malloc create c =>
    have ho : NoneOrWhole (ensureOpen { mallocFile := malloc, create := create } s) :=
      noneOrWhole_ensureOpen h hc
    cases hfile : (ensureOpen { mallocFile := malloc, create := create } s).file with
    | false =>
      obtain ⟨o, hs⟩ := callStep_closed _ hfile c
      exact ⟨_, some o, by rw [openStep, hs]; rfl, ho⟩
    | true =>
      obtain ⟨t, hr⟩ := ho.resolve_left fun hn => by rw [hn.1] at hfile; cases hfile
      obtain ⟨s', hs, hr'⟩ := step_repr hr hf
      exact ⟨s', some _, by rw [openStep, callStep_opened hfile, hs]; rfl, .inr ⟨_, hr'⟩⟩
  | stop create n =>
    rw [openStep]
    split
    · rename_i ho
      obtain ⟨hn, hw⟩ := hc ho.1 ho.2
      rw [Nat.min_eq_right hn]
      exact ⟨_, _, rfl, .inr ⟨_, fresh_file create hw false⟩⟩
    · exact ⟨_, _, rfl, hclose⟩
  | restart => exact ⟨_, _, rfl, hclose⟩

theorem NoneOrWhole.openWhole (h : NoneOrWhole s) : OpenWhole (ensureOpen .ok s) := by
  intro hfile
  have ho : NoneOrWhole (ensureOpen .ok s) :=
    noneOrWhole_ensureOpen h fun _ _ _ i _ => ⟨rowLen, rfl, Nat.le_refl _⟩
  obtain ⟨t, hr⟩ := ho.resolve_left fun hn => by rw [hn.1] at hfile; cases hfile
  have hl := length_storeOf hr.rows
  refine ⟨_, hr.disk, hl, fun key => ?_⟩
  have := row_end_le (hashGen_lt key)
  rw [hl, Nat.mul_assoc, Nat.succ_mul]
  exact Nat.not_lt.mpr this

/-- A file that is left short is taken for the store. -/
theorem short_opened {f : List Byte} (hd : s.disk = some f) (hl : f.length < storeLen) :
    ¬ OpenWhole (ensureOpen .ok s) := by
  rw [ensureOpen_ok hd]
  intro h
  obtain ⟨f', hf', hl', -⟩ := h rfl
  cases hf'
  exact absurd hl' (Nat.ne_of_lt hl)

theorem openStep_leaves_short {e : OpenEvent} (hc : ¬ CreatesWhole s e) :
    ∃ s' o, openStep s e = some (s', o) ∧ ¬ OpenWhole (ensureOpen .ok s') := by
  cases e with
  | call malloc create c =>
    simp only [CreatesWhole, Classical.not_imp] at hc
    obtain ⟨h, hm, ho, hw⟩ := hc
    have hs : ∃ j, 0 ≤ j ∧ j < 0 + tableColSize ∧ ¬ ∃ m, create.accepts j = some m ∧ rowLen ≤ m := by
      by_contra hall
      exact hw fun i hi => by_contra fun hw => hall ⟨i, Nat.zero_le i, by omega, hw⟩
    obtain ⟨f, hf, hl⟩ := createRows_short create.accepts tableColSize 0 (f := []) rfl hs
    rw [Nat.zero_add] at hl
    have he : ensureOpen { mallocFile := malloc, create := create } s = ⟨false, some f⟩ := by
      rw [ensureOpen_creates h, if_pos ⟨hm, ho⟩, hf]
      rfl
    obtain ⟨o, hs⟩ := callStep_closed { mallocFile := malloc, create := create } (by rw [he]) c
    rw [he] at hs
    exact ⟨_, some o, by rw [openStep, hs]; rfl, short_opened rfl hl⟩
  | stop create n =>
    simp only [CreatesWhole, Classical.not_imp] at hc
    obtain ⟨h, ho, hw⟩ := hc
    rw [openStep, if_pos ⟨h, ho⟩]
    exact ⟨_, _, rfl, short_opened rfl (createRows_stopped hw)⟩
  | restart => exact absurd trivial hc

end

/-! ## Runs -/

/-- From no file on: after every part of the run the store that is open, or
that a `kv_open` would open then, has all its rows, exactly if every event that
creates a file writes them all; and then no event has a fault. -/
theorem opened_store_whole_iff {es : List OpenEvent} (hf : ∀ e ∈ es, e.Fits) :
    ((∀ js s hist, js <+: es → run openStep ⟨false, none⟩ js = some (s, hist) →
        OpenWhole (ensureOpen .ok s)) ↔ Along openStep CreatesWhole ⟨false, none⟩ es) ∧
      (Along openStep CreatesWhole ⟨false, none⟩ es →
        ∃ s hist, run openStep ⟨false, none⟩ es = some (s, hist)) := by
  have h₀ : NoneOrWhole ⟨false, none⟩ := .inl ⟨rfl, rfl⟩
  have hstep : ∀ (s : KvState) (hist : List (OpenEvent × Option Reply)) (e : OpenEvent), NoneOrWhole s →
      e.Fits → CreatesWhole s e → ∃ s' o, openStep s e = some (s', o) ∧ NoneOrWhole s' :=
    fun s _ e h hf hc => noneOrWhole_step h hf hc
  constructor
  · exact along_iff (fun s _ h => h.openWhole) hstep (fun s _ e _ _ hc => openStep_leaves_short hc) h₀ hf
  · intro ha
    obtain ⟨s, hist, hr, -⟩ := run_inv (fun s hist e h hv => hstep s hist e h hv.1 hv.2) h₀
      ((Along.of_forall hf).and ha)
    exact ⟨s, hist, hr⟩

/-- A store created, and opened again after a restart. -/
def restartEvents : List OpenEvent :=
  [.call true {} (.get keyA [0] 1), .restart, .call true {} (.get keyA [0] 1)]

theorem opened_store_restart : (∃ s hist, run openStep ⟨false, none⟩ restartEvents = some (s, hist)) ∧
    ∀ js s hist, js <+: restartEvents → run openStep ⟨false, none⟩ js = some (s, hist) →
      OpenWhole (ensureOpen .ok s) := by
  have hw : WholeWrites {} := fun i _ => ⟨rowLen, rfl, Nat.le_refl _⟩
  have ha : Along openStep CreatesWhole ⟨false, none⟩ restartEvents :=
    ⟨fun _ _ _ => hw, fun _ _ _ => ⟨trivial, fun _ _ _ => ⟨fun _ _ _ => hw, fun _ _ _ => trivial⟩⟩⟩
  obtain ⟨hiff, hrun⟩ := opened_store_whole_iff (show ∀ e ∈ restartEvents, e.Fits by decide)
  exact ⟨hrun ha, hiff.mpr ha⟩

/-- The first write of `create_hash_file` fails, and the next call opens the
empty file. -/
theorem partial_store_opened : ∃ s hist, run openStep ⟨false, none⟩
      [.call true { accepts := fun _ => none } (.get keyA [0] 1), .call true {} (.get keyA [0] 1)] =
        some (s, hist) ∧ s.file = true ∧ s.disk = some [] ∧
    ([] : List Byte).length < (hashGen keyA + 1) * itemMaxLen * tableRowSize ∧ ¬ OpenWhole s := by
  refine ⟨⟨true, some []⟩, _, rfl, rfl, rfl, by decide, fun h => ?_⟩
  obtain ⟨f, hf, hl, -⟩ := h rfl
  cases hf
  cases hl

end Linkkit.Proof.Kv
