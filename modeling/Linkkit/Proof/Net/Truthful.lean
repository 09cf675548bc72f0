import Linkkit.Proof.Net.Stream

/-!
# What `HAL_TCP_Read` says of the connection

The last turn of the loop decides what is returned (`readTurn_last`), the turns
before it saw neither the end of the stream nor a failure (`readTurn_goes`).
What is returned is true exactly if no `recv` that is asked for nothing is taken
for the end of the stream, and the number of bytes is not one that reads as an
error (`truthful_iff`).
-/

namespace Linkkit.Proof.Net

open Impl.Net Spec.Net

variable {buf : List Byte} {len : UInt32} {tEnd : UInt64} {turn : ReadTurn} {s : ReadState}

/-! ## One turn -/

/-- `recv` returns 0, whatever it is asked for. -/
def EndsStream (len : UInt32) (tEnd : UInt64) (p : ReadTurn × ReadState) : Prop :=
  Receives tEnd p ∧ (p.1.recv.ret (asked len p)).val = 0

theorem endsStream_iff {p : ReadTurn × ReadState} :
    EndsStream len tEnd p ↔ SeesClose len tEnd p ∨ AsksNothing len tEnd p := by
  unfold EndsStream SeesClose AsksNothing
  by_cases h : asked len p = 0
  · simp [h]
  · simp [h, Nat.pos_of_ne_zero h]

theorem endsStream_of_close {p : ReadTurn × ReadState} (h : SeesClose len tEnd p) : EndsStream len tEnd p :=
  endsStream_iff.mpr (.inl h)

theorem endsStream_of_asks {p : ReadTurn × ReadState} (h : AsksNothing len tEnd p) : EndsStream len tEnd p :=
  endsStream_iff.mpr (.inr h)

/-- What a turn sees, and what it makes of it. -/
theorem readBody_cases (len : UInt32) (tEnd : UInt64) (turn : ReadTurn) (s : ReadState) :
    (RunsOut tEnd (turn, s) ∧ ¬ EndsStream len tEnd (turn, s) ∧ ¬ SeesFailure len tEnd (turn, s) ∧
      (readBody len tEnd turn s).1 = .out ∧ (readBody len tEnd turn s).2.errCode = s.errCode) ∨
    (EndsStream len tEnd (turn, s) ∧ ¬ SeesFailure len tEnd (turn, s) ∧
      (readBody len tEnd turn s).1 = .out ∧ (readBody len tEnd turn s).2.errCode = -1 ∧
      (readBody len tEnd turn s).2.lenRecv = s.lenRecv) ∨
    (SeesFailure len tEnd (turn, s) ∧ ¬ EndsStream len tEnd (turn, s) ∧
      (readBody len tEnd turn s).1 = .out ∧ (readBody len tEnd turn s).2.errCode = -2) ∨
    (¬ EndsStream len tEnd (turn, s) ∧ ¬ SeesFailure len tEnd (turn, s) ∧
      (readBody len tEnd turn s).1 ≠ .out ∧ (readBody len tEnd turn s).2.errCode = s.errCode) := by
  have hneg {x : Int32} (h : ¬ x > 0) (h₀ : ¬ x = 0) : x < 0 := by
    rw [gt_iff_lt, Int32.not_lt] at h
    exact Int32.lt_of_le_of_ne h h₀
  have hpos {x : Int32} (h : x > 0) : ¬ x < 0 ∧ x ≠ 0 :=
    ⟨Int32.lt_asymm h, fun he => Int32.lt_irrefl (by rwa [he] at h)⟩
  simp only [readBody, RunsOut, EndsStream, SeesFailure, Receives, Fails, asked]
  by_cases ht : linuxTimeLeft tEnd turn.now = 0
  · simp [ht]
  by_cases hs : turn.select.val > 0
  · obtain ⟨hs', hs₀⟩ := hpos hs
    by_cases hr : (turn.recv.ret (len - s.lenRecv).toNat).val > 0
    · obtain ⟨hr', hr₀⟩ := hpos hr
      simp [ht, hs, hs', hs₀, hr, hr', hr₀, ReadState.recv]
    by_cases hr₀ : (turn.recv.ret (len - s.lenRecv).toNat).val = 0
    · simp [ht, hs, hs', hs₀, hr₀, ReadState.recv]
    · by_cases he : (turn.recv.ret (len - s.lenRecv).toNat).errno = eintr
      · simp [ht, hs, hs', hs₀, hr, hr₀, he, ReadState.recv]
      · simp [ht, hs, hs', hs₀, hr, hr₀, he, hneg hr hr₀, ReadState.recv]
  by_cases hs₀ : turn.select.val = 0
  · simp [ht, hs₀]
  · by_cases he : turn.select.errno = eintr
    · simp [ht, hs, hs₀, he]
    · simp [ht, hs, hs₀, he, hneg hs hs₀]

/-- A turn that goes on saw nothing that the value returned has to say. -/
theorem readTurn_goes (h : (readTurn len tEnd turn s).1 = true) :
    ¬ EndsStream len tEnd (turn, s) ∧ ¬ SeesFailure len tEnd (turn, s) ∧
      (readBody len tEnd turn s).2.errCode = s.errCode ∧ (readBody len tEnd turn s).2.lenRecv < len := by
  unfold readTurn at h
  dsimp only at h
  split at h
  · cases h
  rename_i hout
  rcases readBody_cases len tEnd turn s with ⟨-, -, -, ho, -⟩ | ⟨-, -, ho, -⟩ | ⟨-, -, ho, -⟩ | ⟨he, hf, -, herr⟩
  · exact absurd ho hout
  · exact absurd ho hout
  · exact absurd ho hout
  · exact ⟨he, hf, herr, of_decide_eq_true h⟩

/-- A turn that ends the loop, and goes to its test, has read all. -/
theorem readTurn_full (h : (readTurn len tEnd turn s).1 = false) (hout : (readBody len tEnd turn s).1 ≠ .out) :
    len ≤ (readBody len tEnd turn s).2.lenRecv := by
  unfold readTurn at h
  dsimp only at h
  rw [if_neg hout] at h
  exact UInt32.not_lt.mp (of_decide_eq_false h)

/-! ## Runs -/

/-- What holds before every turn. -/
structure ReadGoing (buf : List Byte) (len : UInt32) (s : ReadState) : Prop extends ReadInv buf len s where
  errCode : s.errCode = 0
  lt : s.lenRecv = 0 ∨ s.lenRecv < len

theorem readTurn_going (h : ReadGoing buf len s)
    (hcount : (turn.recv.delivered (len - s.lenRecv).toNat).length < 0x80000000)
    (hgo : (readTurn len tEnd turn s).1 = true) : ReadGoing buf len (readTurn len tEnd turn s).2 := by
  obtain ⟨-, -, herr, hlt⟩ := readTurn_goes hgo
  refine ⟨readTurn_inv tEnd h.toReadInv hcount, ?_, .inr ?_⟩
  · rw [readTurn_snd, herr, h.errCode]
  · rwa [readTurn_snd]

theorem toInt32_eq_iff {x : UInt32} {y : Int32} : x.toInt32 = y ↔ x = y.toUInt32 :=
  ⟨fun h => by rw [← h, UInt32.toUInt32_toInt32], fun h => by rw [h, Int32.toInt32_toUInt32]⟩

/-- The turns of a loop that ends: those before the last saw nothing that the
value returned has to say. -/
theorem read_steps (buf : List Byte) (len : UInt32) (tEnd : UInt64) {turns : List ReadTurn} (hrecv : Transfers turns)
    (h : (loop (readTurn len tEnd) turns ⟨buf, 0, 0, []⟩).1 = true) :
    ∃ pre turn s', steps (readTurn len tEnd) turns ⟨buf, 0, 0, []⟩ = pre ++ [(turn, s')] ∧
      readTurn len tEnd turn s' = (false, (loop (readTurn len tEnd) turns ⟨buf, 0, 0, []⟩).2) ∧
      (∀ p ∈ pre, ¬ EndsStream len tEnd p ∧ ¬ SeesFailure len tEnd p) ∧
      (∀ p ∈ pre ++ [(turn, s')], ReadGoing buf len p.2) ∧
      ReadInv buf len (loop (readTurn len tEnd) turns ⟨buf, 0, 0, []⟩).2 := by
  have hcount : ∀ turn ∈ turns, ∀ n, (turn.recv.delivered n).length < 0x80000000 := fun turn ht n =>
    Nat.lt_of_le_of_lt (hrecv turn ht n) (by decide)
  have hgoing : ∀ p ∈ steps (readTurn len tEnd) turns ⟨buf, 0, 0, []⟩, ReadGoing buf len p.2 :=
    steps_keeps (ReadGoing buf len) (fun turn ht s h => readTurn_going h (hcount turn ht _))
      ⟨readInv_start buf len, rfl, .inl rfl⟩
  obtain ⟨pre, turn, s', hs, hlast, hpre⟩ := loop_last h
  have hmem : (turn, s') ∈ steps (readTurn len tEnd) turns ⟨buf, 0, 0, []⟩ := by
    rw [hs]
    exact List.mem_concat_self
  refine ⟨pre, turn, s', hs, hlast, fun p hp => ?_, hs ▸ hgoing, ?_⟩
  · obtain ⟨he, hf, -⟩ := readTurn_goes (hpre p hp)
    exact ⟨he, hf⟩
  · rw [show (loop (readTurn len tEnd) turns ⟨buf, 0, 0, []⟩).2 = (readTurn len tEnd turn s').2 by rw [hlast]]
    exact readTurn_inv tEnd (hgoing _ hmem).toReadInv (hcount turn (fst_mem_of_mem_steps hmem) _)

/-- What only the last turn can see is seen by a turn if it sees it. -/
theorem exists_last_iff {α : Type*} {P : α → Prop} {pre : List α} {a : α} (hpre : ∀ p ∈ pre, ¬ P p) :
    (∃ p ∈ pre ++ [a], P p) ↔ P a := by
  constructor
  · rintro ⟨p, hp, h⟩
    rcases List.mem_append.mp hp with hp | hp
    · exact absurd h (hpre p hp)
    · rwa [← List.mem_singleton.mp hp]
  · exact fun h => ⟨a, List.mem_concat_self, h⟩

/-- If no bytes were read, what the last turn saw decides. -/
theorem truthful_none {pre : List (ReadTurn × ReadState)} {s' : ReadState}
    (hpre : ∀ p ∈ pre, ¬ EndsStream len tEnd p ∧ ¬ SeesFailure len tEnd p) (herr : s'.errCode = 0)
    (hlast : (readTurn len tEnd turn s').1 = false) (h₀ : (readBody len tEnd turn s').2.lenRecv = 0) :
    Truthful len tEnd (pre ++ [(turn, s')]) (readBody len tEnd turn s').2.errCode ↔
      ∀ p ∈ pre ++ [(turn, s')], ¬ AsksNothing len tEnd p := by
  have hmem : (turn, s') ∈ pre ++ [(turn, s')] := List.mem_concat_self
  have hsees {P : ReadTurn × ReadState → Prop} (hpre : ∀ p ∈ pre, ¬ P p) (hlast : ¬ P (turn, s')) :
      ∀ p ∈ pre ++ [(turn, s')], ¬ P p := fun p hp h => hlast ((exists_last_iff hpre).mp ⟨p, hp, h⟩)
  have hquiet (he : ¬ EndsStream len tEnd (turn, s')) : ∀ p ∈ pre ++ [(turn, s')], ¬ EndsStream len tEnd p :=
    hsees (fun p hp => (hpre p hp).1) he
  have hask (he : ¬ EndsStream len tEnd (turn, s')) : ∀ p ∈ pre ++ [(turn, s')], ¬ AsksNothing len tEnd p :=
    fun p hp ha => hquiet he p hp (endsStream_of_asks ha)
  have hnothing (he : ¬ EndsStream len tEnd (turn, s')) (hf : ¬ SeesFailure len tEnd (turn, s')) :
      ∀ p ∈ pre ++ [(turn, s')], ¬ SeesClose len tEnd p ∧ ¬ SeesFailure len tEnd p :=
    fun p hp => ⟨fun hc => hquiet he p hp (endsStream_of_close hc),
      hsees (fun p hp => (hpre p hp).2) hf p hp⟩
  rcases readBody_cases len tEnd turn s' with
    ⟨hrun, he, hf, -, hcode⟩ | ⟨he, -, -, hcode, -⟩ | ⟨hf, he, -, hcode⟩ | ⟨he, hf, hout, hcode⟩
  · rw [hcode, herr]
    exact iff_of_true ⟨nofun, nofun, fun _ => ⟨.inr ⟨_, hmem, hrun⟩, hnothing he hf⟩⟩ (hask he)
  · rw [hcode]
    constructor
    · intro ht p hp ha
      have hclose := (exists_last_iff fun p hp hc => (hpre p hp).1 (endsStream_of_close hc)).mp (ht.closed rfl)
      have hask := (exists_last_iff fun p hp hc => (hpre p hp).1 (endsStream_of_asks hc)).mp ⟨p, hp, ha⟩
      exact absurd hask.2.1 (Nat.ne_of_gt hclose.2.1)
    · intro ha
      exact ⟨fun _ => ⟨_, hmem, (endsStream_iff.mp he).resolve_right (ha _ hmem)⟩, nofun, nofun⟩
  · rw [hcode]
    exact iff_of_true ⟨nofun, fun _ => ⟨_, hmem, hf⟩, nofun⟩ (hask he)
  · rw [hcode, herr]
    have hlen : len = 0 := by
      have := readTurn_full hlast hout
      rw [h₀] at this
      exact UInt32.le_antisymm this (UInt32.zero_le)
    exact iff_of_true ⟨nofun, nofun, fun _ => ⟨.inl hlen, hnothing he hf⟩⟩ (hask he)

/-- If bytes were read, their number is what is returned. -/
theorem truthful_some {pre : List (ReadTurn × ReadState)} {s' : ReadState}
    (hpre : ∀ p ∈ pre, ¬ EndsStream len tEnd p ∧ ¬ SeesFailure len tEnd p)
    (hgoing : ∀ p ∈ pre ++ [(turn, s')], ReadGoing buf len p.2) {s : ReadState} (hs : (readBody len tEnd turn s').2 = s)
    (h₀ : s.lenRecv ≠ 0) :
    Truthful len tEnd (pre ++ [(turn, s')]) s.lenRecv.toInt32 ↔
      s.lenRecv.toNat ≠ 0xffffffff ∧
        (s.lenRecv.toNat = 0xfffffffe → ∃ p ∈ pre ++ [(turn, s')], SeesFailure len tEnd p) := by
  have hone : s.lenRecv.toInt32 = -1 ↔ s.lenRecv.toNat = 0xffffffff := by
    rw [toInt32_eq_iff, ← UInt32.toNat_inj]
    rfl
  have htwo : s.lenRecv.toInt32 = -2 ↔ s.lenRecv.toNat = 0xfffffffe := by
    rw [toInt32_eq_iff, ← UInt32.toNat_inj]
    rfl
  constructor
  · intro ht
    refine ⟨fun hall => ?_, fun he => ht.failed (htwo.mpr he)⟩
    -- the end of the stream is not seen with all bytes read
    have hclose := (exists_last_iff fun p hp hc => (hpre p hp).1 (endsStream_of_close hc)).mp
      (ht.closed (hone.mpr hall))
    have hlen : s.lenRecv = s'.lenRecv := by
      rcases readBody_cases len tEnd turn s' with
        ⟨-, he, -⟩ | ⟨-, -, -, -, hl⟩ | ⟨-, he, -⟩ | ⟨he, -⟩
      · exact absurd (endsStream_of_close hclose) he
      · rw [← hs, hl]
      · exact absurd (endsStream_of_close hclose) he
      · exact absurd (endsStream_of_close hclose) he
    rcases (hgoing (turn, s') (List.mem_concat_self)).lt with hz | hlt
    · exact h₀ (hlen.trans hz)
    · rw [UInt32.lt_iff_toNat_lt, ← hlen] at hlt
      have := len.toNat_lt
      omega
  · rintro ⟨h₁, h₂⟩
    refine ⟨fun he => absurd (hone.mp he) h₁, fun he => h₂ (htwo.mp he), fun he => ?_⟩
    exact absurd (toInt32_eq_iff.mp he) h₀

/-- No `recv` is asked for nothing if bytes were read. -/
theorem not_asksNothing {p : ReadTurn × ReadState} (h : ReadGoing buf len p.2) (hlen : len ≠ 0) :
    ¬ AsksNothing len tEnd p := by
  rintro ⟨-, hask, -⟩
  have hle := h.le
  have hleft : (len - p.2.lenRecv).toNat = 0 := hask
  rw [toNat_left hle] at hleft
  rcases h.lt with hz | hlt
  · rw [hz, UInt32.toNat_zero, Nat.sub_zero] at hleft
    exact hlen (UInt32.toNat_inj.mp hleft)
  · rw [UInt32.lt_iff_toNat_lt] at hlt
    omega

/-- The value returned says the truth exactly if no `recv` that was asked for
nothing returned 0, and the number of bytes that the socket delivered is not
2 ^ 32 - 1, nor 2 ^ 32 - 2 without a failure. -/
theorem truthful_iff {fd : UInt64} (hfd : fd < fdSetsize) {timeoutMs : UInt32} {now : UInt64}
    {turns : List ReadTurn} (hrecv : Transfers turns) {ret : Int32}
    (hr : halTcpRead fd buf len timeoutMs now turns = (some ret, s)) :
    Truthful len (now + timeoutMs.toUInt64) (readSteps fd buf len timeoutMs now turns) ret ↔
      (∀ p ∈ readSteps fd buf len timeoutMs now turns, ¬ AsksNothing len (now + timeoutMs.toUInt64) p) ∧
        Countable len (now + timeoutMs.toUInt64) (readSteps fd buf len timeoutMs now turns) := by
  unfold readSteps
  unfold halTcpRead at hr
  rw [if_neg (UInt64.not_le.mpr hfd)] at hr ⊢
  generalize now + timeoutMs.toUInt64 = tEnd at hr ⊢
  have htaken := taken_loop len tEnd turns ⟨buf, 0, 0, []⟩
  have hsteps := read_steps buf len tEnd hrecv
  generalize loop (readTurn len tEnd) turns ⟨buf, 0, 0, []⟩ = l at hr htaken hsteps
  obtain ⟨ended, s₁⟩ := l
  cases ended with
  | false => cases hr
  | true =>
    cases hr
    obtain ⟨pre, turn, s', hmade, hlast, hpre, hgoing, hinv⟩ := hsteps rfl
    rw [hmade] at htaken ⊢
    have hbody : (readBody len tEnd turn s').2 = s := by rw [← readTurn_snd, hlast]
    have hcount : (delivered len tEnd (pre ++ [(turn, s')])).length = s.lenRecv.toNat := by
      rw [← hinv.taken]
      exact congrArg List.length htaken.symm
    by_cases h₀ : s.lenRecv = 0
    · have hend := truthful_none hpre (hgoing (turn, s') (List.mem_concat_self)).errCode
        (by rw [hlast]) (by rw [hbody, h₀])
      rw [hbody] at hend
      rw [if_neg (not_not.mpr h₀), Int32.toInt32_toUInt32, hend]
      rw [h₀] at hcount
      refine (and_iff_left ⟨?_, ?_⟩).symm
      · rw [hcount]
        decide
      · rw [hcount]
        exact fun he => absurd he (by decide)
    · have hlen : len ≠ 0 := by
        rintro rfl
        exact h₀ (UInt32.toNat_inj.mp (Nat.le_zero.mp hinv.le))
      rw [if_pos h₀, truthful_some hpre hgoing hbody h₀, ← hcount]
      refine ⟨fun h => ⟨fun p hp => not_asksNothing (hgoing p hp) hlen, h.1, h.2⟩, fun h => ⟨h.2.one, h.2.two⟩⟩

/-- The peer closes the stream before a byte has come. -/
theorem truthful_closed :
    let turns : List ReadTurn := [⟨1000, ⟨-1, eintr⟩, .closed⟩, ⟨1001, ⟨1, 0⟩, .closed⟩]
    ∃ s, halTcpRead 3 [0, 0] 2 100 1000 turns = (some (-1), s) ∧
      (Truthful 2 (1000 + UInt32.toUInt64 100) (readSteps 3 [0, 0] 2 100 1000 turns) (-1) ↔
        (∀ p ∈ readSteps 3 [0, 0] 2 100 1000 turns, ¬ AsksNothing 2 (1000 + UInt32.toUInt64 100) p) ∧
          Countable 2 (1000 + UInt32.toUInt64 100) (readSteps 3 [0, 0] 2 100 1000 turns)) := by
  refine ⟨_, rfl, truthful_iff (show (3 : UInt64) < fdSetsize by decide) (fun turn ht n => ?_) rfl⟩
  have hclosed : turn.recv = .closed := by
    rcases List.mem_cons.mp ht with rfl | ht
    · rfl
    · rw [List.mem_singleton.mp ht]
  rw [hclosed]
  exact Nat.zero_le _

/-- Nothing is asked for, of a peer that has sent a byte. -/
theorem truthful_asksNothing :
    let turns : List ReadTurn := [⟨1000, ⟨1, 0⟩, .data [7]⟩]
    (halTcpRead 3 [] 0 100 1000 turns).1 = some (-1) ∧
      ¬ Truthful 0 1100 (readSteps 3 [] 0 100 1000 turns) (-1) := by
  refine ⟨rfl, fun h => ?_⟩
  obtain ⟨p, hp, -, hask, -⟩ := h.closed rfl
  cases List.mem_singleton.mp hp
  exact absurd hask (by decide)

end Linkkit.Proof.Net
