import Mathlib.Data.List.Forall2
import Linkkit.Spec.Net.Session
import Linkkit.Proof.Net.Stream

/-!
# No byte of a connection is lost, repeated or moved

Whatever the calls at the two ends of a connection, and however they overlap:
what the reads say was received, followed by what is on its way, is what
the writes passed on (`session_stream`).
-/

namespace Linkkit.Proof.Net

open Impl.Net Spec.Net

variable {flight flight' : List Byte} {a : Move} {o : Outcome} {hist : List (Move × Outcome)}

/-- What a write that returns has passed on. -/
theorem write_accepts {fd now : UInt64} {buf : List Byte} {len timeoutMs : UInt32} {turns : List WriteTurn}
    {ret : Int32} {s : WriteState} (hlen : len.toNat < 0x80000000)
    (hr : halTcpWrite fd buf len timeoutMs now turns = (some ret, s)) :
    Accepts (.write fd buf len timeoutMs now turns, .wrote ret) s.accepted := by
  by_cases hfd : fd < fdSetsize
  · obtain ⟨s', hs, ⟨he, -⟩ | ⟨ret', he, hret⟩⟩ := halTcpWrite_cases buf hfd hlen timeoutMs now turns
    · rw [hr] at he
      simp at he
    · rw [hr] at he
      simp only [Prod.mk.injEq, Option.some.injEq] at he
      obtain ⟨rfl, rfl⟩ := he
      have hpos := (hs.returns hlen hret).1
      refine ⟨?_, fun hok => ?_⟩
      · rw [hs.accepted]
        exact List.take_prefix_take_left hs.le
      · show s.accepted = buf.take ret.toInt.toNat
        rw [hpos (Int32.not_lt.mp hok), hs.accepted, Int.toNat_natCast]
  · -- the descriptor does not fit in an `fd_set`
    unfold halTcpWrite at hr
    rw [if_pos (UInt64.not_lt.mp hfd)] at hr
    simp only [Prod.mk.injEq, Option.some.injEq] at hr
    obtain ⟨rfl, rfl⟩ := hr
    exact ⟨List.nil_prefix, fun hok => absurd (show (-1 : Int32) < 0 by decide) hok⟩

/-- What a read that returns has taken is what it says was received. -/
theorem read_received {fd now : UInt64} {buf : List Byte} {len timeoutMs : UInt32} {turns : List ReadTurn}
    {ret : Int32} {s : ReadState} (hlen : len.toNat < 0x80000000)
    (hr : halTcpRead fd buf len timeoutMs now turns = (some ret, s)) :
    s.buf.take ret.toInt.toNat = s.taken := by
  by_cases hfd : fd < fdSetsize
  · obtain ⟨s', hs, he | he⟩ := halTcpRead_cases buf hfd hlen timeoutMs now turns
    · rw [hr] at he
      simp at he
    · rw [hr] at he
      simp only [Prod.mk.injEq, Option.some.injEq] at he
      obtain ⟨hret, rfl⟩ := he
      obtain ⟨hpos, hzero⟩ := hs.returns hlen hret
      rcases Nat.eq_zero_or_pos s.taken.length with h₀ | h₀
      · have hle : ret.toInt ≤ 0 := by
          have := hzero.mpr h₀
          rwa [Int32.le_iff_toInt_le, Int32.toInt_zero] at this
        rw [Int.toNat_of_nonpos hle, List.take_zero]
        exact (List.eq_nil_of_length_eq_zero h₀).symm
      · rw [hpos h₀, Int.toNat_natCast, hs.buf, List.take_left]
  · unfold halTcpRead at hr
    rw [if_pos (UInt64.not_lt.mp hfd)] at hr
    simp only [Prod.mk.injEq, Option.some.injEq] at hr
    obtain ⟨rfl, rfl⟩ := hr
    rfl

/-- What was received and what is on its way, after a call that passes on
`bytes`. -/
theorem move_passes (ha : a.InBuffer) (hs : move flight a = some (flight', o)) :
    ∃ bytes, Accepts (a, o) bytes ∧ received (a, o) ++ flight' = flight ++ bytes := by
  cases a with
  | write fd buf len timeoutMs now turns =>
    rw [move] at hs
    generalize hr : halTcpWrite fd buf len timeoutMs now turns = r at hs
    obtain ⟨ret, s⟩ := r
    obtain ⟨ret, rfl, hs⟩ := Option.map_eq_some_iff.mp hs
    cases hs
    exact ⟨s.accepted, write_accepts ha.2 hr, rfl⟩
  | read fd buf len timeoutMs now turns =>
    rw [move] at hs
    generalize hr : halTcpRead fd buf len timeoutMs now turns = r at hs
    obtain ⟨ret, s⟩ := r
    dsimp only at hs
    split at hs
    · rename_i hp
      obtain ⟨ret, rfl, hs⟩ := Option.map_eq_some_iff.mp hs
      cases hs
      refine ⟨[], rfl, ?_⟩
      show s.buf.take ret.toInt.toNat ++ flight.drop s.taken.length = flight ++ []
      rw [read_received ha.2 hr, List.append_nil]
      exact List.prefix_iff_eq_append.mp hp
    · cases hs

/-- The bytes that the calls have passed on, call by call. -/
def Passed (flight : List Byte) (hist : List (Move × Outcome)) : Prop :=
  ∃ accepted, List.Forall₂ Accepts hist accepted ∧ hist.flatMap received ++ flight = accepted.flatten

theorem Passed.step (h : Passed flight hist) (ha : a.InBuffer) (hs : move flight a = some (flight', o)) :
    Passed flight' (hist ++ [(a, o)]) := by
  obtain ⟨accepted, hall, hstream⟩ := h
  obtain ⟨bytes, hbytes, hflight⟩ := move_passes ha hs
  refine ⟨accepted ++ [bytes], List.rel_append hall (.cons hbytes .nil), ?_⟩
  calc (hist ++ [(a, o)]).flatMap received ++ flight'
    _ = hist.flatMap received ++ (received (a, o) ++ flight') := by simp
    _ = (hist.flatMap received ++ flight) ++ bytes := by rw [hflight, List.append_assoc]
    _ = (accepted ++ [bytes]).flatten := by simp [hstream]

/-- What the calls pass on while no write reports an error. -/
theorem flatten_accepted {accepted : List (List Byte)} (h : List.Forall₂ Accepts hist accepted)
    (hok : ∀ e ∈ hist, ¬ WriteFails e) : accepted.flatten = hist.flatMap sent := by
  induction h with
  | nil => rfl
  | @cons e bytes hist accepted hbytes _ ih =>
    have he : bytes = sent e := by
      obtain ⟨a, o⟩ := e
      cases a with
      | write => exact hbytes.2 (hok _ List.mem_cons_self)
      | read => exact hbytes
    rw [List.flatten_cons, List.flatMap_cons, he, ih fun e he => hok e (List.mem_cons_of_mem _ he)]

/-- What the reads say was received, followed by what is on its way, is what
each write passed on, in their order: what it says was sent, or some of the
first bytes of its buffer if it reports an error. -/
theorem session_stream {moves : List Move} (hin : ∀ a ∈ moves, a.InBuffer) (hr : run move [] moves = some (flight, hist)) :
    (∃ accepted, List.Forall₂ Accepts hist accepted ∧ hist.flatMap received ++ flight = accepted.flatten) ∧
      ((∀ e ∈ hist, ¬ WriteFails e) → hist.flatMap received ++ flight = hist.flatMap sent) := by
  have hpassed : Passed flight hist := by
    have hkeep := run_keeps (fun flight h => (∀ e ∈ h, e.1.InBuffer) → Passed flight h)
      (fun _ _ _ _ _ hi hs hall =>
        (hi fun e he => hall e (List.mem_append_left _ he)).step (hall _ List.mem_concat_self) hs)
      (fun _ => ⟨[], .nil, rfl⟩) hr
    rw [← run_inputs hr] at hin
    exact hkeep fun e he => hin e.1 (List.mem_map_of_mem he)
  refine ⟨hpassed, fun hok => ?_⟩
  obtain ⟨accepted, hall, hstream⟩ := hpassed
  rw [hstream, flatten_accepted hall hok]

/-- Five bytes are sent in two calls, the second of which ends with an error,
and read in between and after. -/
def fiveBytes : List Move :=
  [.write 3 [1, 2, 3, 4, 5] 5 100 1000 [⟨1000, ⟨1, 0⟩, true, ⟨2, 0⟩, 1001⟩, ⟨1001, ⟨0, 0⟩, true, ⟨0, 0⟩, 1100⟩],
    .read 4 [0, 0] 1 100 1000 [⟨1000, ⟨1, 0⟩, .data [1]⟩],
    .write 3 [3, 4, 5] 3 100 1100 [⟨1100, ⟨1, 0⟩, true, ⟨2, 0⟩, 1101⟩, ⟨1101, ⟨1, 0⟩, true, ⟨-1, 32⟩, 1102⟩],
    .read 4 [0, 0] 2 100 1100 [⟨1100, ⟨-1, eintr⟩, .closed⟩, ⟨1101, ⟨1, 0⟩, .data [2, 3]⟩]]

theorem session_stream_five : ∃ flight hist, run move [] fiveBytes = some (flight, hist) ∧
    (∃ accepted, List.Forall₂ Accepts hist accepted ∧ hist.flatMap received ++ flight = accepted.flatten) ∧
      ((∀ e ∈ hist, ¬ WriteFails e) → hist.flatMap received ++ flight = hist.flatMap sent) := by
  have hin : ∀ a ∈ fiveBytes, a.InBuffer := by
    simp [fiveBytes, Move.InBuffer]
  have hr : run move [] fiveBytes = some (_, _) := rfl
  exact ⟨_, _, hr, session_stream hin hr⟩

end Linkkit.Proof.Net
