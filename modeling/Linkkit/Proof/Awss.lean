import Linkkit.Proof.Awss.Frames

/-!
# What monitor mode does

`stop_sniff` clears `s_enable_sniffer` and nothing sets it again:

* `keeps_run`: in any run the flag is 1 until the first Close and 0 from then
  on, and no sniffer leaves its loop before;
* `listens`: a sniffer in its loop passes every frame on to its callback;
* `monitors_iff`: a run does what is promised exactly if no Open in it comes
  after a Close.
-/

namespace Linkkit.Proof.Awss

open Impl.Awss Spec.Awss

variable {port : Port} {s s' : State} {e : Event} {h : List (Event × Unit)}

/-! ## One turn -/

/-- Each way through the body ends at the test of the loop. -/
theorem snifferBody_pc (port : Port) (packet : Option (List Byte)) (t : Sniffer) :
    (snifferBody port packet t).1.pc = .test := by
  unfold snifferBody
  dsimp only
  repeat' split
  all_goals rfl

theorem listens (port : Port) {t : Sniffer} (ht : t.pc ≠ .done) : Listens port t :=
  ⟨ht, fun _ hp => snifferBody_frame port hp t⟩

/-! ## Runs -/

/-- The flag is 1 until the first Close, and no sniffer leaves its loop before;
from then on it is 0. -/
structure Keeps (s : State) (h : List (Event × Unit)) : Prop where
  before : (∀ e ∈ h.map Prod.fst, ¬ Event.IsClose e) → s.sEnableSniffer = 1 ∧ ∀ t ∈ s.sniffers, t.pc ≠ .done
  after : ∀ e ∈ h.map Prod.fst, Event.IsClose e → s.sEnableSniffer = 0

theorem keeps_start : Keeps start [] where
  before _ := ⟨rfl, fun _ ht => absurd ht List.not_mem_nil⟩
  after _ he := absurd he List.not_mem_nil

/-- A step other than a Close, which keeps the flag and, while it is 1, leaves
no sniffer out of its loop. -/
theorem Keeps.of_flag (hk : Keeps s h) (hc : ¬ e.IsClose) (hflag : s'.sEnableSniffer = s.sEnableSniffer)
    (hpc : s.sEnableSniffer = 1 → (∀ t ∈ s.sniffers, t.pc ≠ .done) → ∀ t ∈ s'.sniffers, t.pc ≠ .done) :
    Keeps s' (h ++ [(e, ())]) := by
  constructor
  · intro hno
    obtain ⟨hf, ht⟩ := hk.before fun e he => hno e (by simp [List.map_append, he])
    exact ⟨hflag.trans hf, hpc hf ht⟩
  · intro e' he hc'
    rw [List.map_append, List.mem_append] at he
    rcases he with he | he
    · exact hflag.trans (hk.after e' he hc')
    · obtain rfl := List.mem_singleton.mp he
      exact absurd hc' hc

/-- A sniffer that steps to a thread that is not behind its loop. -/
theorem set_pc {l : List Sniffer} {i : Nat} {t : Sniffer} (hl : ∀ t ∈ l, t.pc ≠ .done) (ht : t.pc ≠ .done) :
    ∀ t' ∈ l.set i t, t'.pc ≠ .done :=
  fun t' hm => (List.mem_or_eq_of_mem_set hm).elim (hl t') fun he => he ▸ ht

theorem open_keeps (hk : Keeps s h) {cb : Callback} {revBuffer : Buf maxRevBuffer}
    (hs : step port s (.openMonitor cb revBuffer) = some (s', ())) :
    Keeps s' (h ++ [(.openMonitor cb revBuffer, ())]) := by
  obtain ⟨s₁, ho, hs⟩ := Option.map_eq_some_iff.mp hs
  cases hs
  rw [halAwssOpenMonitor] at ho
  split at ho <;> [cases ho; skip]
  cases ho
  refine hk.of_flag nofun rfl fun _ hl t ht => ?_
  rcases List.mem_append.mp ht with ht | ht
  · exact hl t ht
  · rw [List.mem_singleton.mp ht]
    exact nofun

theorem close_keeps (hs : step port s .closeMonitor = some (s', ())) :
    Keeps s' (h ++ [(.closeMonitor, ())]) := by
  cases hs
  constructor
  · intro hno
    exact absurd rfl (hno .closeMonitor (by simp))
  · exact fun _ _ _ => rfl

theorem test_keeps (hk : Keeps s h) {i : Nat} (hs : step port s (.test i) = some (s', ())) :
    Keeps s' (h ++ [(.test i, ())]) := by
  obtain ⟨t, -, hs⟩ := Option.bind_eq_some_iff.mp hs
  split at hs <;> [skip; cases hs]
  cases hs
  refine hk.of_flag nofun rfl fun hf hl => set_pc hl ?_
  rw [snifferTest, if_pos hf.symm]
  exact nofun

theorem recv_keeps (hk : Keeps s h) {i : Nat} {packet : Option (List Byte)}
    (hs : step port s (.recv i packet) = some (s', ())) : Keeps s' (h ++ [(.recv i packet, ())]) := by
  obtain ⟨t, -, hs⟩ := Option.bind_eq_some_iff.mp hs
  split at hs <;> [skip; cases hs]
  cases hs
  refine hk.of_flag nofun rfl fun _ hl => set_pc hl ?_
  rw [snifferBody_pc]
  exact nofun

theorem keeps_run {es : List Event} (hr : run (step port) start es = some (s, h)) : Keeps s h := by
  refine run_keeps Keeps (fun s h i s' o hk hs => ?_) keeps_start hr
  cases i with
  | openMonitor cb revBuffer => exact open_keeps hk hs
  | closeMonitor => exact close_keeps hs
  | test i => exact test_keeps hk hs
  | recv i packet => exact recv_keeps hk hs

/-- What is promised of a state that a run reaches: that no Close comes before
the last Open. -/
theorem monitors_iff_of_keeps (hk : Keeps s h) : Monitors port s h ↔
    (Since Event.IsOpen (fun e => ¬ e.IsClose) (h.map Prod.fst) → ∀ e ∈ h.map Prod.fst, ¬ Event.IsClose e) := by
  rw [Monitors, since_map (P := Event.IsOpen) (N := fun e => ¬ e.IsClose) Prod.fst,
    since_map (P := Event.IsClose) (N := fun e => ¬ e.IsOpen) Prod.fst]
  constructor
  · intro hm hs e he hc
    have hflag : (1 : Int32) = s.sEnableSniffer := (hm.1 hs).1
    rw [hk.after e he hc] at hflag
    exact absurd hflag (by decide)
  · intro hno
    refine ⟨fun hs => ?_, ?_⟩
    · obtain ⟨hf, ht⟩ := hk.before (hno hs)
      exact ⟨hf.symm, fun t hm => listens port (ht t hm)⟩
    · rintro ⟨pre, e, post, he, hc, -⟩ (hflag : (1 : Int32) = s.sEnableSniffer)
      rw [hk.after e (by rw [he]; simp) hc] at hflag
      exact absurd hflag (by decide)

/-- Every part of a run does what monitor mode promises, exactly if no Open of
the run comes after a Close. -/
theorem monitors_iff {es : List Event} (hr : run (step port) start es = some (s, h)) :
    (∀ js s' h', js <+: es → run (step port) start js = some (s', h') → Monitors port s' h') ↔
      es.Pairwise fun a b => a.IsClose → ¬ b.IsOpen := by
  rw [← forall_since_iff (P := Event.IsOpen) (Q := Event.IsClose) fun a ho hc => by rw [hc] at ho; exact ho]
  constructor
  · intro hall js hj
    obtain ⟨s', h', hr'⟩ := run_prefix hr hj
    rw [← run_inputs hr']
    exact (monitors_iff_of_keeps (keeps_run hr')).mp (hall js s' h' hj hr')
  · intro hall js s' h' hj hr'
    refine (monitors_iff_of_keeps (keeps_run hr')).mpr ?_
    rw [run_inputs hr']
    exact hall js hj

/-- Provisioning once: an Open, a frame that is received, a Close. -/
def onceEvents : List Event :=
  [.openMonitor 7 (Buf.zero _), .test 0, .recv 0 (some [0, 0, 4, 0, 0x80]), .closeMonitor]

theorem monitors_once : ∃ s h, run (step jabsco) start onceEvents = some (s, h) ∧
    ((∀ js s' h', js <+: onceEvents → run (step jabsco) start js = some (s', h') → Monitors jabsco s' h') ↔
      onceEvents.Pairwise fun a b => a.IsClose → ¬ b.IsOpen) :=
  ⟨_, _, rfl, monitors_iff rfl⟩

/-- Provisioning again. -/
def againEvents : List Event :=
  [.openMonitor 7 (Buf.zero _), .closeMonitor, .openMonitor 7 (Buf.zero _)]

/-- The condition of the loop is false after the second Open, in both
wrappers. -/
theorem closed_again :
    (∃ s h, run (step ubuntu) start againEvents = some (s, h) ∧ ¬ LoopCondition s ∧ ¬ Monitors ubuntu s h) ∧
      ∃ s h, run (step jabsco) start againEvents = some (s, h) ∧ ¬ LoopCondition s ∧ ¬ Monitors jabsco s h := by
  have hsince {o : Event × Unit} {l : List (Event × Unit)} (ho : o.1.IsOpen) :
      Since (fun e => e.1.IsOpen) (fun e => ¬ e.1.IsClose) (l ++ [o]) := since_append_singleton.mpr (.inl ho)
  have hflag : ¬ (1 : Int32) = 0 := by decide
  exact ⟨⟨_, _, rfl, hflag, fun hm => hflag (hm.1 (hsince (l := [_, _]) trivial)).1⟩,
    ⟨_, _, rfl, hflag, fun hm => hflag (hm.1 (hsince (l := [_, _]) trivial)).1⟩⟩

end Linkkit.Proof.Awss
