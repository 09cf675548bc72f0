import Mathlib.Algebra.GroupWithZero.Nat
import Mathlib.Data.List.Basic
import Mathlib.Data.List.Infix

/-!
# Runs of a deterministic machine

A machine is its step function `σ → ι → Option (σ × ο)`: from a state, an
input gives the next state and an output, or has no value (the step would
fault). `run` makes a list of steps and keeps their history. `Along step ok`
says that every input of a run meets `ok` in the state it is made in.

* `run_inv`, `along_inv`: an invariant of states and histories, from one step
  to runs;
* `along_iff`, `run_iff`: where every step that breaks `ok` falsifies `P` at
  once, the runs along which `P` always holds are those that keep to `ok`;
* `run_sim`: forward simulation by an abstract machine.

`Since P N h` is the history property "`P` happened, and only `N` since"
(`SinceFor`: for so long), and `Each P h` says of every event of the history what `P` says of it and the events
before it.
-/

namespace Linkkit

variable {σ ι ο : Type*} (step : σ → ι → Option (σ × ο))

/-- The state after the inputs `is` from `s`, with the history of the inputs
and their outputs. -/
def run : σ → List ι → Option (σ × List (ι × ο))
  | s, [] => some (s, [])
  | s, i :: is => (step s i).bind fun r => (run r.1 is).map fun t => (t.1, (i, r.2) :: t.2)

/-- Every input of the run meets `ok` in the state it is made in. -/
def Along (ok : σ → ι → Prop) : σ → List ι → Prop
  | _, [] => True
  | s, i :: is => ok s i ∧ ∀ s' o, step s i = some (s', o) → Along ok s' is

variable {step}

@[simp] theorem run_nil (s : σ) : run step s [] = some (s, []) := rfl

theorem run_cons_of_step {s s' : σ} {i : ι} {o : ο} (h : step s i = some (s', o)) (is : List ι) :
    run step s (i :: is) = (run step s' is).map fun r => (r.1, (i, o) :: r.2) := by
  simp only [run, h, Option.bind_some]

/-- The first step of a run that has a value, and the run after it. -/
theorem run_cons {s s'' : σ} {i : ι} {is : List ι} {h : List (ι × ο)}
    (hr : run step s (i :: is) = some (s'', h)) :
    ∃ s' o h', step s i = some (s', o) ∧ run step s' is = some (s'', h') ∧ h = (i, o) :: h' := by
  cases hs : step s i with
  | none => simp [run, hs] at hr
  | some r =>
    obtain ⟨s', o⟩ := r
    rw [run_cons_of_step hs, Option.map_eq_some_iff] at hr
    obtain ⟨⟨t, h'⟩, hr', e⟩ := hr
    cases e
    exact ⟨s', o, h', rfl, hr', rfl⟩

theorem along_cons_of_step {ok : σ → ι → Prop} {s s' : σ} {i : ι} {o : ο} (h : step s i = some (s', o))
    {is : List ι} : Along step ok s (i :: is) ↔ ok s i ∧ Along step ok s' is := by
  refine and_congr_right fun _ => ⟨fun ha => ha s' o h, fun ha t o' hs => ?_⟩
  rw [h] at hs
  cases hs
  exact ha

theorem Along.mono {ok ok' : σ → ι → Prop} (hok : ∀ s i, ok s i → ok' s i) {s : σ} {is : List ι}
    (h : Along step ok s is) : Along step ok' s is := by
  induction is generalizing s with
  | nil => trivial
  | cons i is ih => exact ⟨hok _ _ h.1, fun s' o hs => ih (h.2 s' o hs)⟩

/-- A condition on the inputs alone. -/
theorem Along.of_forall {ok : ι → Prop} {s : σ} {is : List ι} (h : ∀ i ∈ is, ok i) :
    Along step (fun _ i => ok i) s is := by
  induction is generalizing s with
  | nil => trivial
  | cons i is ih =>
    exact ⟨h i List.mem_cons_self, fun s' o _ => ih fun j hj => h j (List.mem_cons_of_mem _ hj)⟩

theorem Along.of_prefix {ok : σ → ι → Prop} {s : σ} {is js : List ι} (h : Along step ok s is)
    (hj : js <+: is) : Along step ok s js := by
  induction js generalizing s is with
  | nil => trivial
  | cons j js ih =>
    obtain ⟨is', rfl, hp⟩ : ∃ is', is = j :: is' ∧ js <+: is' := by
      obtain ⟨r, rfl⟩ := hj
      exact ⟨js ++ r, rfl, List.prefix_append js r⟩
    exact ⟨h.1, fun s' o hs => ih (h.2 s' o hs) hp⟩

theorem Along.and {ok ok' : σ → ι → Prop} {s : σ} {is : List ι} (h : Along step ok s is)
    (h' : Along step ok' s is) : Along step (fun s i => ok s i ∧ ok' s i) s is := by
  induction is generalizing s with
  | nil => trivial
  | cons i is ih => exact ⟨⟨h.1, h'.1⟩, fun s' o hs => ih (h.2 s' o hs) (h'.2 s' o hs)⟩

section Invariant

variable {Inv : σ → List (ι × ο) → Prop}

/-- An invariant that every step meeting `ok` has and keeps: the run has a
value and ends in the invariant. -/
theorem run_inv {ok : σ → ι → Prop}
    (hstep : ∀ s h i, Inv s h → ok s i → ∃ s' o, step s i = some (s', o) ∧ Inv s' (h ++ [(i, o)]))
    {s : σ} (h₀ : Inv s []) {is : List ι} (hok : Along step ok s is) :
    ∃ s' h, run step s is = some (s', h) ∧ Inv s' h := by
  suffices key : ∀ (is : List ι) (s : σ) (g : List (ι × ο)), Inv s g → Along step ok s is →
      ∃ s' h, run step s is = some (s', h) ∧ Inv s' (g ++ h) from key is s [] h₀ hok
  intro is
  induction is with
  | nil => exact fun s g hg _ => ⟨s, [], rfl, by rwa [List.append_nil]⟩
  | cons i is ih =>
    intro s g hg ha
    obtain ⟨s', o, hs, hi⟩ := hstep s g i hg ha.1
    obtain ⟨s'', h, hr, hi'⟩ := ih s' _ hi (ha.2 s' o hs)
    refine ⟨s'', (i, o) :: h, by rw [run_cons_of_step hs, hr]; rfl, ?_⟩
    rwa [List.append_assoc, List.singleton_append] at hi'

/-- What the invariant gives holds after every part of a run whose steps meet
`ok`. -/
theorem along_inv {P : σ → List (ι × ο) → Prop} {ok : σ → ι → Prop} (hP : ∀ s h, Inv s h → P s h)
    (hstep : ∀ s h i, Inv s h → ok s i → ∃ s' o, step s i = some (s', o) ∧ Inv s' (h ++ [(i, o)]))
    {s : σ} (h₀ : Inv s []) {is : List ι} (hok : Along step ok s is) :
    ∀ js s' h, js <+: is → run step s js = some (s', h) → P s' h := by
  intro js s' h hj hr
  obtain ⟨s'', h', hr', hi⟩ := run_inv hstep h₀ (hok.of_prefix hj)
  rw [hr] at hr'
  cases hr'
  exact hP _ _ hi

/-- What the invariant gives of each step. -/
theorem along_of_inv {ok c : σ → ι → Prop} (hc : ∀ s h i, Inv s h → ok s i → c s i)
    (hstep : ∀ s h i, Inv s h → ok s i → ∃ s' o, step s i = some (s', o) ∧ Inv s' (h ++ [(i, o)]))
    {s : σ} {g : List (ι × ο)} (h₀ : Inv s g) {is : List ι} (hok : Along step ok s is) :
    Along step c s is := by
  induction is generalizing s g with
  | nil => trivial
  | cons i is ih =>
    refine ⟨hc s g i h₀ hok.1, fun s' o hs => ?_⟩
    obtain ⟨t, o', ht, hi⟩ := hstep s g i h₀ hok.1
    rw [hs] at ht
    cases ht
    exact ih hi (hok.2 s' o hs)

/-- If the invariant gives `P`, steps meeting `c` keep the invariant, and a
step that breaks `c` leads to a state without `P`, then `P` holds after every
part of a run exactly if all its steps meet `c`. -/
theorem along_iff {P : σ → List (ι × ο) → Prop} {valid : ι → Prop} {c : σ → ι → Prop}
    (hP : ∀ s h, Inv s h → P s h)
    (hstep : ∀ s h i, Inv s h → valid i → c s i →
      ∃ s' o, step s i = some (s', o) ∧ Inv s' (h ++ [(i, o)]))
    (hbad : ∀ s h i, Inv s h → valid i → ¬ c s i →
      ∃ s' o, step s i = some (s', o) ∧ ¬ P s' (h ++ [(i, o)]))
    {s : σ} (h₀ : Inv s []) {is : List ι} (hv : ∀ i ∈ is, valid i) :
    (∀ js s' h, js <+: is → run step s js = some (s', h) → P s' h) ↔ Along step c s is := by
  refine ⟨?_, fun ha => along_inv hP (fun s h i hi hok => hstep s h i hi hok.1 hok.2) h₀
    ((Along.of_forall hv).and ha)⟩
  suffices key : ∀ (is : List ι) (s : σ) (g : List (ι × ο)), Inv s g → (∀ i ∈ is, valid i) →
      (∀ js s' h, js <+: is → run step s js = some (s', h) → P s' (g ++ h)) →
        Along step c s is from key is s [] h₀ hv
  intro is
  induction is with
  | nil => exact fun s g hg _ _ => trivial
  | cons i is ih =>
    intro s g hg hv hall
    have hi := hv i List.mem_cons_self
    have hc : c s i := by
      by_contra hn
      obtain ⟨s', o, hs, hnp⟩ := hbad s g i hg hi hn
      exact hnp (hall [i] s' [(i, o)] (List.prefix_append [i] is) (by rw [run_cons_of_step hs]; rfl))
    refine ⟨hc, fun s' o hs => ?_⟩
    obtain ⟨t, o', ht, hinv⟩ := hstep s g i hg hi hc
    rw [hs] at ht
    cases ht
    refine ih s' _ hinv (fun j hj => hv j (List.mem_cons_of_mem _ hj)) fun js s'' h hj hr => ?_
    have := hall (i :: js) s'' ((i, o) :: h) (List.cons_prefix_cons.mpr ⟨rfl, hj⟩)
      (by rw [run_cons_of_step hs, hr]; rfl)
    rwa [List.append_assoc, List.singleton_append]

/-- The same for a run that has a value, of steps that need not have one. -/
theorem run_iff {P : σ → List (ι × ο) → Prop} {c : σ → ι → Prop} (hP : ∀ s h, Inv s h → P s h)
    (hstep : ∀ s h i s' o, Inv s h → c s i → step s i = some (s', o) → Inv s' (h ++ [(i, o)]))
    (hbad : ∀ s h i s' o, Inv s h → ¬ c s i → step s i = some (s', o) → ¬ P s' (h ++ [(i, o)]))
    {s s' : σ} (h₀ : Inv s []) {is : List ι} {h : List (ι × ο)} (hr : run step s is = some (s', h)) :
    (∀ js s' h, js <+: is → run step s js = some (s', h) → P s' h) ↔ Along step c s is := by
  suffices key : ∀ (is : List ι) (s s' : σ) (g h : List (ι × ο)), Inv s g → run step s is = some (s', h) →
      ((∀ js s' h, js <+: is → run step s js = some (s', h) → P s' (g ++ h)) ↔ Along step c s is) from
    key is s s' [] h h₀ hr
  intro is
  induction is with
  | nil =>
    intro s s' g h hg _
    refine iff_of_true (fun js s' h hj hr => ?_) trivial
    rw [List.prefix_nil.mp hj] at hr
    cases hr
    rw [List.append_nil]
    exact hP s g hg
  | cons i is ih =>
    intro s s' g h hg hr
    obtain ⟨t, o, h', hs, hr', rfl⟩ := run_cons hr
    have hshift : ∀ {js s' h}, run step s (i :: js) = some (s', h) →
        ∃ h', run step t js = some (s', h') ∧ g ++ h = g ++ [(i, o)] ++ h' := fun {js s' h} hj => by
      obtain ⟨t', o', h', hs', hj', rfl⟩ := run_cons hj
      rw [hs] at hs'
      cases hs'
      exact ⟨h', hj', by rw [List.append_assoc, List.singleton_append]⟩
    constructor
    · intro hall
      have hc : c s i := by
        by_contra hn
        exact hbad s g i t o hg hn hs (hall [i] t [(i, o)] (List.prefix_append [i] is)
          (by rw [run_cons_of_step hs]; rfl))
      refine ⟨hc, fun t' o' hs' => ?_⟩
      rw [hs] at hs'
      cases hs'
      refine (ih t s' _ h' (hstep s g i t o hg hc hs) hr').mp fun js s'' k hj hk => ?_
      have := hall (i :: js) s'' ((i, o) :: k) (List.cons_prefix_cons.mpr ⟨rfl, hj⟩)
        (by rw [run_cons_of_step hs, hk]; rfl)
      rwa [List.append_assoc, List.singleton_append]
    · rintro ⟨hc, ha⟩ js s'' k hj hk
      cases js with
      | nil =>
        cases hk
        rw [List.append_nil]
        exact hP s g hg
      | cons j js =>
        obtain ⟨rfl, hj'⟩ := List.cons_prefix_cons.mp hj
        obtain ⟨k', hk', he⟩ := hshift hk
        rw [he]
        exact (ih t s' _ h' (hstep s g _ t o hg hc hs) hr').mpr (ha t o hs) js s'' k' hj' hk'

/-- If steps that are `ok` have a value exactly if their input meets `c`, so do
runs of them. -/
theorem run_isSome_iff {ok : σ → ι → Prop} {c : ι → Prop}
    (hstep : ∀ s h i s' o, Inv s h → step s i = some (s', o) → Inv s' (h ++ [(i, o)]))
    (hc : ∀ s h i, Inv s h → ok s i → ((step s i).isSome = true ↔ c i))
    {s : σ} {g : List (ι × ο)} (h₀ : Inv s g) {is : List ι} (hok : Along step ok s is) :
    (run step s is).isSome = true ↔ ∀ i ∈ is, c i := by
  induction is generalizing s g with
  | nil => exact iff_of_true rfl fun i hi => absurd hi List.not_mem_nil
  | cons i is ih =>
    rw [List.forall_mem_cons, ← hc s g i h₀ hok.1]
    cases hs : step s i with
    | none => simp [run, hs]
    | some r =>
      obtain ⟨s', o⟩ := r
      rw [run_cons_of_step hs, Option.isSome_map, ih (hstep s g i s' o h₀ hs) (hok.2 s' o hs),
        and_iff_right Option.isSome_some]

end Invariant

/-- An invariant that every step keeps holds after a run that has a value. -/
theorem run_keeps (Inv : σ → List (ι × ο) → Prop)
    (hstep : ∀ s h i s' o, Inv s h → step s i = some (s', o) → Inv s' (h ++ [(i, o)]))
    {s s' : σ} (h₀ : Inv s []) {is : List ι} {h : List (ι × ο)} (hr : run step s is = some (s', h)) :
    Inv s' h :=
  (run_iff (fun _ _ hi => hi) (fun s h i s' o hi _ hs => hstep s h i s' o hi hs)
    (fun _ _ _ _ _ _ hn => absurd trivial hn) h₀ hr).mpr (Along.of_forall fun _ _ => trivial) is s' h
    (List.prefix_refl is) hr

/-- A run all of whose steps meet `c` ends in `Good`; with a step that does
not, it ends in `Bad`, which no step leaves. -/
theorem run_good_or_bad (Good Bad : σ → Prop) {c : σ → ι → Prop}
    (hgood : ∀ s i s' o, Good s → c s i → step s i = some (s', o) → Good s')
    (hbreak : ∀ s i s' o, Good s → ¬ c s i → step s i = some (s', o) → Bad s')
    (hbad : ∀ s i s' o, Bad s → step s i = some (s', o) → Bad s')
    {s s' : σ} (h₀ : Good s) {is : List ι} {h : List (ι × ο)} (hr : run step s is = some (s', h)) :
    (Along step c s is → Good s') ∧ (¬ Along step c s is → Bad s') := by
  induction is generalizing s h with
  | nil =>
    cases hr
    exact ⟨fun _ => h₀, fun hn => absurd trivial hn⟩
  | cons i is ih =>
    obtain ⟨t, o, h', hs, hr', -⟩ := run_cons hr
    rw [along_cons_of_step hs]
    by_cases hc : c s i
    · rw [and_iff_right hc]
      exact ih (hgood s i t o h₀ hc hs) hr'
    · have hbad' : Bad s' := run_keeps (fun s _ => Bad s)
        (fun s _ i s' o hb hs => hbad s i s' o hb hs) (hbreak s i t o h₀ hc hs) hr'
      exact ⟨fun ha => absurd ha.1 hc, fun _ => hbad'⟩

/-- A run after another one. -/
theorem run_append {s s' s'' : σ} {is js : List ι} {h h' : List (ι × ο)}
    (hi : run step s is = some (s', h)) (hj : run step s' js = some (s'', h')) :
    run step s (is ++ js) = some (s'', h ++ h') := by
  induction is generalizing s h with
  | nil =>
    cases hi
    exact hj
  | cons i is ih =>
    obtain ⟨t, o, g, hs, hr, rfl⟩ := run_cons hi
    rw [List.cons_append, run_cons_of_step hs, ih hr]
    rfl

/-- The inputs of the history are those of the run. -/
theorem run_inputs {s s' : σ} {is : List ι} {h : List (ι × ο)} (hr : run step s is = some (s', h)) :
    h.map Prod.fst = is := by
  induction is generalizing s h with
  | nil => cases hr; rfl
  | cons i is ih =>
    obtain ⟨t, o, h', -, hr', rfl⟩ := run_cons hr
    rw [List.map_cons, ih hr']

/-- A part of a run that has a value has one. -/
theorem run_prefix {s s' : σ} {is js : List ι} {h : List (ι × ο)} (hr : run step s is = some (s', h))
    (hj : js <+: is) : ∃ t g, run step s js = some (t, g) := by
  induction js generalizing s is h with
  | nil => exact ⟨s, [], rfl⟩
  | cons j js ih =>
    obtain ⟨is', rfl⟩ := hj
    obtain ⟨t, o, h', hs, hr', -⟩ := run_cons hr
    obtain ⟨t', g, hg⟩ := ih hr' (List.prefix_append js is')
    exact ⟨t', (j, o) :: g, by rw [run_cons_of_step hs, hg]; rfl⟩

/-- A condition on the inputs alone, of a run that has a value. -/
theorem along_inputs_iff {ok : ι → Prop} {s s' : σ} {is : List ι} {h : List (ι × ο)}
    (hr : run step s is = some (s', h)) : Along step (fun _ i => ok i) s is ↔ ∀ i ∈ is, ok i := by
  refine ⟨fun ha => ?_, Along.of_forall⟩
  induction is generalizing s h with
  | nil => intro i hi; cases hi
  | cons i is ih =>
    obtain ⟨t, o, h', hs, hr', -⟩ := run_cons hr
    intro j hj
    rcases List.mem_cons.mp hj with rfl | hj
    · exact ha.1
    · exact ih hr' (ha.2 t o hs) j hj

/-- Forward simulation: related states make every input that is `ok` with the
same output, to related states; so do whole runs. -/
theorem run_sim {α : Type*} {astep : α → ι → α × ο} {R : σ → α → Prop} {ok : ι → Prop}
    (hstep : ∀ s a i, R s a → ok i → ∃ s', step s i = some (s', (astep a i).2) ∧ R s' (astep a i).1)
    {s : σ} {a : α} (h₀ : R s a) {is : List ι} (hok : ∀ i ∈ is, ok i) :
    ∃ s' a' h, run step s is = some (s', h) ∧
      run (fun a i => some (astep a i)) a is = some (a', h) ∧ R s' a' := by
  induction is generalizing s a with
  | nil => exact ⟨s, a, [], rfl, rfl, h₀⟩
  | cons i is ih =>
    obtain ⟨s', hs, hr⟩ := hstep s a i h₀ (hok i List.mem_cons_self)
    obtain ⟨s'', a'', h, h₁, h₂, hr'⟩ := ih hr fun j hj => hok j (List.mem_cons_of_mem _ hj)
    refine ⟨s'', a'', (i, (astep a i).2) :: h, by rw [run_cons_of_step hs, h₁]; rfl, ?_, hr'⟩
    have hs' : (fun a i => some (astep a i)) a i = some ((astep a i).1, (astep a i).2) := rfl
    rw [run_cons_of_step hs', h₂]; rfl

/-! ## Histories -/

section Since

variable {α : Type*} {P N : α → Prop} {h : List α} {e : α}

/-- Some event of the history meets `P`, and all events after it meet `N`. -/
def Since (P N : α → Prop) (h : List α) : Prop :=
  ∃ pre a post, h = pre ++ a :: post ∧ P a ∧ ∀ e ∈ post, N e

@[simp] theorem not_since_nil : ¬ Since P N [] := by
  rintro ⟨pre, a, post, h, -⟩
  simp at h

theorem since_append_singleton : Since P N (h ++ [e]) ↔ P e ∨ Since P N h ∧ N e := by
  constructor
  · rintro ⟨pre, a, post, he, ha, hn⟩
    rcases List.eq_nil_or_concat post with rfl | ⟨post, b, rfl⟩
    · obtain ⟨-, rfl⟩ := List.append_singleton_inj.mp he
      exact .inl ha
    · rw [List.concat_eq_append, ← List.cons_append, ← List.append_assoc] at he
      obtain ⟨rfl, rfl⟩ := List.append_singleton_inj.mp he
      exact .inr ⟨⟨pre, a, post, rfl, ha, fun c hc => hn c (by simp [hc])⟩, hn _ (by simp)⟩
  · rintro (he | ⟨⟨pre, a, post, rfl, ha, hn⟩, he⟩)
    · exact ⟨h, e, [], rfl, he, by simp⟩
    · refine ⟨pre, a, post ++ [e], by simp, ha, fun c hc => ?_⟩
      rcases List.mem_append.mp hc with hc | hc
      · exact hn c hc
      · rwa [List.mem_singleton.mp hc]

/-- Some event of the history meets `P`, all events after it meet `N`, and these
take `n` together, each what `w` says. -/
def SinceFor (P N : α → Prop) (w : α → Nat) (n : Nat) (h : List α) : Prop :=
  ∃ pre a post, h = pre ++ a :: post ∧ P a ∧ (∀ e ∈ post, N e) ∧ (post.map w).sum = n

theorem sinceFor_append_singleton {w : α → Nat} {n : Nat} : SinceFor P N w n (h ++ [e]) ↔
    P e ∧ n = 0 ∨ N e ∧ ∃ m, SinceFor P N w m h ∧ n = m + w e := by
  constructor
  · rintro ⟨pre, a, post, he, ha, hn, rfl⟩
    rcases List.eq_nil_or_concat post with rfl | ⟨post, b, rfl⟩
    · obtain ⟨-, rfl⟩ := List.append_singleton_inj.mp he
      exact .inl ⟨ha, rfl⟩
    · rw [List.concat_eq_append, ← List.cons_append, ← List.append_assoc] at he
      obtain ⟨rfl, rfl⟩ := List.append_singleton_inj.mp he
      exact .inr ⟨hn _ (by simp), _, ⟨pre, a, post, rfl, ha, fun c hc => hn c (by simp [hc]), rfl⟩, by simp⟩
  · rintro (⟨he, rfl⟩ | ⟨he, m, ⟨pre, a, post, rfl, ha, hn, rfl⟩, rfl⟩)
    · exact ⟨h, e, [], rfl, he, by simp, rfl⟩
    · refine ⟨pre, a, post ++ [e], by simp, ha, fun c hc => ?_, by simp⟩
      rcases List.mem_append.mp hc with hc | hc
      · exact hn c hc
      · rwa [List.mem_singleton.mp hc]

theorem since_map {β : Type*} (f : β → α) {h : List β} :
    Since (fun b => P (f b)) (fun b => N (f b)) h ↔ Since P N (h.map f) := by
  constructor
  · rintro ⟨pre, a, post, rfl, ha, hn⟩
    exact ⟨pre.map f, f a, post.map f, by simp, ha, by simpa using hn⟩
  · rintro ⟨pre, a, post, he, ha, hn⟩
    obtain ⟨pre', l, rfl, rfl, hl⟩ := List.map_eq_append_iff.mp he
    obtain ⟨a', post', rfl, rfl, rfl⟩ := List.map_eq_cons_iff.mp hl
    exact ⟨pre', a', post', rfl, ha, by simpa using hn⟩

/-- In every part of a history that has `P` with no `Q` after it there is no
`Q` at all, exactly if no `P` comes after a `Q`. -/
theorem forall_since_iff {Q : α → Prop} (hPQ : ∀ a, P a → ¬ Q a) :
    (∀ j, j <+: h → Since P (fun a => ¬ Q a) j → ∀ a ∈ j, ¬ Q a) ↔
      h.Pairwise fun a b => Q a → ¬ P b := by
  induction h using List.reverseRecOn with
  | nil =>
    refine iff_of_true (fun j hj _ a ha => ?_) List.Pairwise.nil
    rw [List.prefix_nil.mp hj] at ha
    cases ha
  | append_singleton l e ih =>
    rw [List.pairwise_append, ← ih]
    constructor
    · intro hall
      refine ⟨fun j hj => hall j (hj.trans (List.prefix_append l [e])), List.pairwise_singleton _ e, ?_⟩
      intro a ha b hb hq hp
      obtain rfl := List.mem_singleton.mp hb
      exact hall (l ++ [b]) (List.prefix_refl _) (since_append_singleton.mpr (.inl hp)) a
        (List.mem_append_left _ ha) hq
    · rintro ⟨hall, -, hlast⟩ j hj hs a ha
      rcases List.prefix_concat_iff.mp hj with rfl | hj
      · rcases List.mem_append.mp ha with hl | he
        · rcases since_append_singleton.mp hs with hp | ⟨hs', -⟩
          · exact fun hq => hlast a hl e (List.mem_singleton_self e) hq hp
          · exact hall l (List.prefix_refl l) hs' a hl
        · obtain rfl := List.mem_singleton.mp he
          rcases since_append_singleton.mp hs with hp | ⟨-, hn⟩
          · exact hPQ a hp
          · exact hn
      · exact hall j hj hs a ha

end Since

section Each

variable {α : Type*} {P : List α → α → Prop} {h : List α} {e : α}

end Each

end Linkkit
