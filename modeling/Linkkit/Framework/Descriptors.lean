import Mathlib.Data.List.Nodup
import Mathlib.Logic.Function.Basic

/-!
# Descriptors

The descriptors a process has open: for each number, none if it is closed,
else the address it is connected to, if any. A number is opened only while it
is closed (`opens` has no value otherwise), as the kernel does it; so closing
what was opened leaves the table as it was (`close_of_opens`).

`Holds` says that the open numbers are those of the handles a program holds,
each of them once; opening and closing keep it.
-/

namespace Linkkit

/-- For each number, none if it is closed, else its peer if it has one. -/
abbrev Descriptors (ι α : Type*) := ι → Option (Option α)

namespace Descriptors

variable {ι α : Type*} [DecidableEq ι]

/-- No descriptor is open. -/
def none : Descriptors ι α := fun _ => Option.none

/-- The number is open. -/
def IsOpen (t : Descriptors ι α) (fd : ι) : Prop := (t fd).isSome

instance (t : Descriptors ι α) (fd : ι) : Decidable (t.IsOpen fd) := inferInstanceAs (Decidable (_ = _))

/-- A descriptor opened with a number that is closed. -/
def opens (t : Descriptors ι α) (fd : ι) : Option (Descriptors ι α) :=
  if t.IsOpen fd then Option.none else some (Function.update t fd (some Option.none))

/-- A descriptor connected to a peer. -/
def connect (t : Descriptors ι α) (fd : ι) (peer : α) : Descriptors ι α :=
  Function.update t fd (some (some peer))

/-- A descriptor closed. -/
def close (t : Descriptors ι α) (fd : ι) : Descriptors ι α := Function.update t fd Option.none

variable {t t' : Descriptors ι α} {fd fd' : ι} {peer : α}

omit [DecidableEq ι] in
@[simp] theorem not_isOpen_none : ¬ (none : Descriptors ι α).IsOpen fd := Bool.false_ne_true

theorem opens_eq_some : t.opens fd = some t' ↔ ¬ t.IsOpen fd ∧ t' = Function.update t fd (some Option.none) := by
  by_cases h : t.IsOpen fd <;> simp [opens, h, eq_comm]

theorem opens_of_closed (h : ¬ t.IsOpen fd) : ∃ t', t.opens fd = some t' := ⟨_, if_neg h⟩

theorem isOpen_of_opens (h : t.opens fd = some t') : t'.IsOpen fd' ↔ fd' = fd ∨ t.IsOpen fd' := by
  obtain ⟨-, rfl⟩ := opens_eq_some.mp h
  by_cases he : fd' = fd
  · subst he; simp [IsOpen]
  · simp [IsOpen, he]

/-- What was opened and connected. -/
theorem connect_of_opens (h : t.opens fd = some t') (peer : α) : t'.connect fd peer = t.connect fd peer := by
  obtain ⟨-, rfl⟩ := opens_eq_some.mp h
  exact Function.update_idem _ _ _

/-- What was opened and closed again. -/
theorem close_of_opens (h : t.opens fd = some t') : t'.close fd = t := by
  obtain ⟨hn, rfl⟩ := opens_eq_some.mp h
  rw [close, Function.update_idem]
  exact Function.update_eq_self_iff.mpr (Option.not_isSome_iff_eq_none.mp hn).symm

theorem connect_self : t.connect fd peer fd = some (some peer) := Function.update_self ..

theorem connect_of_ne (h : fd' ≠ fd) : t.connect fd peer fd' = t fd' := Function.update_of_ne h ..

theorem close_of_ne (h : fd' ≠ fd) : t.close fd fd' = t fd' := Function.update_of_ne h ..

theorem isOpen_connect : (t.connect fd peer).IsOpen fd' ↔ fd' = fd ∨ t.IsOpen fd' := by
  by_cases h : fd' = fd
  · subst h; simp [connect, IsOpen]
  · simp [connect, IsOpen, h]

theorem isOpen_close : (t.close fd).IsOpen fd' ↔ fd' ≠ fd ∧ t.IsOpen fd' := by
  by_cases h : fd' = fd
  · subst h; simp [close, IsOpen]
  · simp [close, IsOpen, h]

/-- A number opened for `v`, if it can be, and closed again if it `fails`. -/
theorem create_cases {null ret : ι} {fails : Prop} [Decidable fails] (v : α)
    (h : (if fd = null then some (null, t) else (t.opens fd).bind fun t =>
      if fails then some (null, t.close fd) else some (fd, t.connect fd v)) = some (ret, t')) :
    (ret = null ∧ t' = t) ∨ (ret ≠ null ∧ ¬ t.IsOpen ret ∧ t' = t.connect ret v) := by
  split at h
  · cases h
    exact .inl ⟨rfl, rfl⟩
  rename_i hne
  obtain ⟨t₁, ho, h⟩ := Option.bind_eq_some_iff.mp h
  split at h
  · cases h
    exact .inl ⟨rfl, close_of_opens ho⟩
  · cases h
    exact .inr ⟨hne, (opens_eq_some.mp ho).1, connect_of_opens ho v⟩

/-! ## Handles -/

section

variable {η : Type*} {ofFd : ι → η} {toFd : η → ι} {held : List η}

omit [DecidableEq ι] in
/-- The open numbers are those of the handles `held`, each held once. -/
structure Holds (ofFd : ι → η) (toFd : η → ι) (t : Descriptors ι α) (held : List η) : Prop where
  nodup : held.Nodup
  handle : ∀ h ∈ held, ofFd (toFd h) = h
  isOpen : ∀ fd, t.IsOpen fd ↔ ∃ h ∈ held, toFd h = fd

namespace Holds

omit [DecidableEq ι] in
/-- Handles of one number are the same. -/
theorem eq_of_toFd (h : Holds ofFd toFd t held) {x y : η} (hx : x ∈ held) (hy : y ∈ held) (he : toFd x = toFd y) :
    x = y := by
  rw [← h.handle x hx, he, h.handle y hy]

omit [DecidableEq ι] in
theorem isOpen_of_mem (h : Holds ofFd toFd t held) {x : η} (hx : x ∈ held) : t.IsOpen (toFd x) :=
  (h.isOpen _).mpr ⟨x, hx, rfl⟩

omit [DecidableEq ι] in
theorem none : Holds ofFd toFd (Descriptors.none : Descriptors ι α) [] :=
  ⟨List.nodup_nil, fun h hh => absurd hh List.not_mem_nil, fun fd => by simp⟩

omit [DecidableEq ι] in
/-- A table with the same open numbers. -/
theorem congr (h : Holds ofFd toFd t held) (ht : ∀ fd, t'.IsOpen fd ↔ t.IsOpen fd) : Holds ofFd toFd t' held :=
  ⟨h.nodup, h.handle, fun fd => (ht fd).trans (h.isOpen fd)⟩

omit [DecidableEq ι] in
/-- A number that was closed is opened, and its handle held. -/
theorem cons (h : Holds ofFd toFd t held) (hto : toFd (ofFd fd) = fd) (hn : ¬ t.IsOpen fd)
    (ht : ∀ fd', t'.IsOpen fd' ↔ fd' = fd ∨ t.IsOpen fd') : Holds ofFd toFd t' (ofFd fd :: held) := by
  have hnew : ofFd fd ∉ held := fun hm => hn (hto ▸ h.isOpen_of_mem hm)
  refine ⟨List.nodup_cons.mpr ⟨hnew, h.nodup⟩, List.forall_mem_cons.mpr ⟨by rw [hto], h.handle⟩, fun fd' => ?_⟩
  rw [ht, h.isOpen fd', List.exists_mem_cons_iff, hto, eq_comm]

/-- The number of a handle is closed, and the handle given up. -/
theorem erase [DecidableEq η] (h : Holds ofFd toFd t held) {x : η} (hx : x ∈ held) :
    Holds ofFd toFd (t.close (toFd x)) (held.erase x) := by
  have herase : ∀ {y}, y ∈ held.erase x ↔ y ≠ x ∧ y ∈ held := h.nodup.mem_erase_iff
  refine ⟨h.nodup.erase x, fun y hy => h.handle y (herase.mp hy).2, fun fd' => ?_⟩
  rw [isOpen_close, h.isOpen fd']
  constructor
  · rintro ⟨hne, y, hy, rfl⟩
    exact ⟨y, herase.mpr ⟨fun he => hne (by rw [he]), hy⟩, rfl⟩
  · rintro ⟨y, hy, rfl⟩
    obtain ⟨hne, hy⟩ := herase.mp hy
    exact ⟨fun he => hne (h.eq_of_toFd hy hx he), y, hy, rfl⟩

end Holds

end

end Descriptors

end Linkkit
