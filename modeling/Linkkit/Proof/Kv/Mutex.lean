import Linkkit.Proof.Kv.Threads

/-!
# Two threads that use an open store

Once there is a handle both threads use it, and its mutex keeps one from
reading a row that the other has read and not written yet (`Locked`), so what
both set is found (`both_found_opened`).
-/

namespace Linkkit.Proof.Kv

open Impl.Kv Spec.Kv

section

variable {calls : Thread → SetCall} {s s' : Shared} {t : Thread} {pc : Pc}

/-- A thread that uses the handle `g` only, or none. -/
def Uses (g : Thread) : Pc → Prop
  | .lock h => h = g
  | .read h => h = g
  | .write h _ => h = g
  | .unlock h _ => h = g
  | .test => True
  | .call => True
  | .ret _ => True
  | .done _ => True
  | _ => False

/-- A thread that holds a mutex. -/
def Holds : Pc → Prop
  | .read _ => True
  | .write _ _ => True
  | .unlock _ _ => True
  | _ => False

/-- Both threads use the handle `g`, and who holds its mutex owns it. -/
structure Locked (g : Thread) (s : Shared) : Prop where
  file : s.file = some g
  uses : ∀ t, Uses g (s.pc t)
  owner : ∀ t, Holds (s.pc t) → s.owner g = some t

theorem Locked.not_harms {g : Thread} (h : Locked g s) (t : Thread) : ¬ Harms calls s t := by
  have hu := h.uses t
  rw [Harms]
  cases hpc : s.pc t with
  | create i =>
    rw [hpc] at hu
    exact hu.elim
  | read g' =>
    rintro ⟨hw, -⟩
    have ht := h.owner t (by rw [hpc]; trivial)
    have hother := h.owner t.other (by cases hpc' : s.pc t.other <;> rw [hpc'] at hw <;> trivial)
    rw [ht] at hother
    exact Thread.ne_iff.mpr rfl (Option.some.inj hother).symm
  | _ => exact id

theorem Locked.uses_update {g : Thread} (h : Locked g s) (huses : Uses g pc) :
    ∀ u, Uses g (Function.update s.pc t pc u) :=
  (Function.forall_update_iff s.pc fun _ pc => Uses g pc).mpr ⟨huses, fun u _ => h.uses u⟩

/-- Thread `t` goes on at `pc`, and the mutex stays as it is. -/
theorem Locked.goto {g : Thread} (h : Locked g s) (hpc : s'.pc = Function.update s.pc t pc)
    (hfile : s'.file = s.file) (howner : s'.owner = s.owner) (huses : Uses g pc)
    (hholds : Holds pc → Holds (s.pc t)) : Locked g s' := by
  refine ⟨hfile.trans h.file, by rw [hpc]; exact h.uses_update huses, ?_⟩
  rw [hpc, howner]
  exact (Function.forall_update_iff s.pc fun u pc => Holds pc → s.owner g = some u).mpr
    ⟨fun hu => h.owner t (hholds hu), fun u _ => h.owner u⟩

theorem Locked.lock_step {g : Thread} (h : Locked g s) (hfree : s.owner g = none) :
    Locked g ({ s with owner := Function.update s.owner g (some t) }.goto t (.read g)) := by
  refine ⟨h.file, h.uses_update rfl, ?_⟩
  refine (Function.forall_update_iff s.pc fun u pc => Holds pc → Function.update s.owner g (some t) g = some u).mpr ?_
  rw [Function.update_self]
  refine ⟨fun _ => rfl, fun u _ hu => ?_⟩
  -- nobody held the mutex
  have := h.owner u hu
  rw [hfree] at this
  cases this

theorem Locked.unlock_step {g : Thread} (h : Locked g s) (hheld : Holds (s.pc t)) {ret : Int} :
    Locked g ({ s with owner := Function.update s.owner g none }.goto t (.ret ret)) := by
  refine ⟨h.file, h.uses_update trivial, ?_⟩
  refine (Function.forall_update_iff s.pc fun u pc => Holds pc → Function.update s.owner g none g = some u).mpr
    ⟨False.elim, fun u hut hu => ?_⟩
  -- only `t` held the mutex
  have := h.owner u hu
  rw [h.owner t hheld] at this
  exact absurd (Option.some.inj this).symm hut

theorem Locked.step {g : Thread} (h : Locked g s) (hs : Shared.step calls s t = some (s', ())) :
    Locked g s' := by
  have hu := h.uses t
  cases hpc : s.pc t <;> rw [hpc] at hu <;> simp only [Shared.step, hpc] at hs
  case access => exact hu.elim
  case openFile => exact hu.elim
  case create => exact hu.elim
  case publish => exact hu.elim
  case test =>
    rw [h.file] at hs
    cases hs
    exact h.goto rfl rfl rfl trivial False.elim
  case call =>
    rw [h.file] at hs
    cases hs
    refine h.goto rfl rfl rfl ?_ fun hh => ?_
    · split <;> trivial
    · split at hh <;> exact hh.elim
  case lock g' =>
    obtain rfl : g' = g := hu
    split at hs <;> [skip; cases hs]
    rename_i hfree
    cases hs
    exact h.lock_step hfree
  case read g' =>
    have hheld : Holds (s.pc t) := by rw [hpc]; trivial
    split at hs
    · cases hs
      exact h.goto rfl rfl rfl hu fun _ => hheld
    split at hs
    · cases hs
    · cases hs
      exact h.goto rfl rfl rfl hu fun _ => hheld
    · cases hs
      exact h.goto rfl rfl rfl hu fun _ => hheld
  case write g' kv =>
    cases hs
    exact h.goto rfl rfl rfl hu fun _ => by rw [hpc]; trivial
  case unlock g' ret =>
    obtain rfl : g' = g := hu
    cases hs
    exact h.unlock_step (by rw [hpc]; trivial)
  case ret ret =>
    cases hs
    exact h.goto rfl rfl rfl trivial False.elim
  case done => cases hs

/-- A process with the handle `g`, on the file of `k`, both threads about to
call. -/
def withHandle (g : Thread) (k : KvState) : Shared := ⟨some g, k.disk, fun _ => none, fun _ => .test⟩

theorem locked_withHandle (g : Thread) (k : KvState) : Locked g (withHandle g k) :=
  ⟨rfl, fun _ => trivial, fun _ h => h.elim⟩

theorem shape_withHandle (g : Thread) {k : KvState} {table : KvTable} (h : Repr k table) :
    Shape calls (withHandle g k) tableColSize ⟨fun _ => .before, table, fun _ => []⟩ where
  wf := h.wf
  disk := by
    show k.disk.getD [] = _
    rw [h.disk]
    rfl
  le := Nat.le_refl _
  whole _ := .inl rfl
  phase _ := rfl
  pcs _ := trivial

/-- With a handle, and a file that calls on a fresh one left: where both calls
return 0, both keys are found with their values, if those are small. -/
theorem both_found_opened {k₀ k : KvState} (hk : Fresh k₀) {cs : List Call} (hc : ∀ c ∈ cs, c.Fits)
    {h₀ : List Event} (hrun : run step k₀ cs = some (k, h₀)) (g : Thread)
    (hkeys : (calls .first).key ≠ (calls .second).key)
    (hf : ∀ t, (calls t).len.toInt ≤ (calls t).val.length) (hsmall : ∀ t, Small (calls t))
    {ts : List Thread} {hist : List (Thread × Unit)}
    (hr : run (Shared.step calls) (withHandle g k) ts = some (s, hist)) (hd : BothSet s) :
    BothFound calls s := by
  have hkey := keyOf_injective hkeys
  obtain ⟨k', table, h', hrun', -, ht⟩ := run_repr (fresh_repr hk) hc
  rw [hrun] at hrun'
  cases hrun'
  obtain ⟨-, n, p, h, hp⟩ := run_keeps
    (fun s _ => Locked g s ∧ ∃ n p, Shape calls s n p ∧ p.Sound hashGen (keyOf calls) (valueOf calls))
    (fun s _ t s' _ ⟨hl, n, p, h, hp⟩ hs => by
      obtain ⟨n', p', a, h', hp', -⟩ := sound_step hf hkey hsmall h hp hs (hl.not_harms t)
      exact ⟨hl.step hs, n', p', h', hp'⟩)
    ⟨locked_withHandle g k, tableColSize, _, shape_withHandle g ht, ⟨nofun, nofun, nofun, nofun⟩⟩ hr
  exact bothFound_of_sound hsmall hd h hp

end

end Linkkit.Proof.Kv
