import Linkkit.Spec.Net

/-!
# What `HAL_TCP_Write` and `HAL_TCP_Read` do to the stream

Whatever the clock and the system calls answer: the bytes that the socket
accepts from `HAL_TCP_Write` are the first `len_sent` of the buffer
(`WriteInv`), so what it returns says which ones (`tcpWrite_prefix`); and the
bytes that `HAL_TCP_Read` takes from the socket are those at the start of the
buffer (`ReadInv`), and never dropped for an error (`tcpRead_exact`). The bytes
accepted and taken are those of the calls that the turns make (`tcpWrite_traffic`,
`tcpRead_traffic`).
-/

namespace Linkkit.Proof.Net

open Impl.Net Spec.Net

/-! ## Counting -/

/-- A count of bytes as an `int`, added to a `uint32_t`. -/
theorem toNat_add_count {x : UInt32} {n : ℕ} (h : x.toNat + n < 0x100000000) :
    (x + (Int32.ofNat n).toUInt32).toNat = x.toNat + n := by
  have hn : (Int32.ofNat n).toUInt32 = UInt32.ofNat n := rfl
  rw [hn, UInt32.toNat_add, UInt32.toNat_ofNat']
  omega

theorem count_pos_iff {n : ℕ} (h : n < 0x80000000) : Int32.ofNat n > 0 ↔ 0 < n := by
  have := Int32.toInt_ofNat_of_lt h
  rw [gt_iff_lt, Int32.lt_iff_toInt_lt, this, Int32.toInt_zero]
  omega

theorem toInt32_of_lt {x : UInt32} (h : x.toNat < 0x80000000) : x.toInt32.toInt = x.toNat := by
  have hx : x.toInt32 = Int32.ofNat x.toNat := by
    show x.toInt32 = (UInt32.ofNat x.toNat).toInt32
    rw [UInt32.ofNat_toNat]
  rw [hx, Int32.toInt_ofNat_of_lt h]

/-- What is left of a buffer. -/
theorem toNat_left {len x : UInt32} (h : x.toNat ≤ len.toNat) : (len - x).toNat = len.toNat - x.toNat :=
  UInt32.toNat_sub_of_le len x (UInt32.le_iff_toNat_le.mpr h)

/-! ## Writing -/

section

variable {buf : List Byte} {len : UInt32} {tEnd : UInt64} {turn : WriteTurn} {s : WriteState}

/-- What was accepted is what was counted, and `net_err` is set if a call
failed. -/
structure WriteInv (buf : List Byte) (len : UInt32) (s : WriteState) : Prop where
  le : s.lenSent.toNat ≤ len.toNat
  accepted : s.accepted = buf.take s.lenSent.toNat
  failed : s.netErr ≠ 0 ↔ ∃ r ∈ s.returned, Fails r

/-- The invariant, and no call failed yet. -/
def Writing (buf : List Byte) (len : UInt32) (s : WriteState) : Prop := WriteInv buf len s ∧ s.netErr = 0

/-- What a piece of the code gives: a failed call takes it out of the loop. -/
def WriteFlow (buf : List Byte) (len : UInt32) (r : Flow × WriteState) : Prop :=
  WriteInv buf len r.2 ∧ (r.1 ≠ .out → r.2.netErr = 0)

/-- One more call. -/
theorem exists_mem_append_singleton {r : Ret} {l : List Ret} (h : ¬ ∃ r ∈ l, Fails r) :
    (∃ r' ∈ l ++ [r], Fails r') ↔ Fails r := by
  simp only [List.mem_append, List.mem_singleton]
  constructor
  · rintro ⟨r', hr | rfl, hf⟩
    · exact absurd ⟨r', hr, hf⟩ h
    · exact hf
  · exact fun hf => ⟨r, .inr rfl, hf⟩

theorem Writing.no_failure (h : Writing buf len s) : ¬ ∃ r ∈ s.returned, Fails r :=
  fun hf => h.1.failed.mpr hf h.2

/-- `net_err` after one more call that did not fail. -/
theorem Writing.succeeds (h : Writing buf len s) {r : Ret} (hr : ¬ Fails r) :
    s.netErr ≠ 0 ↔ ∃ r' ∈ s.returned ++ [r], Fails r' := by
  rw [exists_mem_append_singleton h.no_failure]
  exact iff_of_false (not_not.mpr h.2) hr

/-- `net_err` set after one that failed. -/
theorem Writing.fails (h : Writing buf len s) {r : Ret} (hr : Fails r) :
    (1 : Int32) ≠ 0 ↔ ∃ r' ∈ s.returned ++ [r], Fails r' := by
  rw [exists_mem_append_singleton h.no_failure]
  exact iff_of_true (by decide) hr

theorem not_fails_of_pos {r : Ret} (h : r.val > 0) : ¬ Fails r := fun hf => Int32.lt_asymm h hf.1

theorem not_fails_of_zero {r : Ret} (h : r.val = 0) : ¬ Fails r := fun hf => by
  have := hf.1
  rw [h] at this
  exact Int32.lt_irrefl this

theorem fails_of_neg {r : Ret} (hp : ¬ r.val > 0) (hz : ¬ r.val = 0) (he : ¬ r.errno = eintr) : Fails r := by
  refine ⟨?_, he⟩
  rw [gt_iff_lt, Int32.lt_iff_toInt_lt] at hp
  rw [← Int32.toInt_inj] at hz
  rw [Int32.lt_iff_toInt_lt]
  omega

theorem writeSelect_flow (h : Writing buf len s) : WriteFlow buf len (writeSelect turn s) := by
  obtain ⟨⟨hle, hacc, -⟩, h₀⟩ := id h
  unfold writeSelect
  dsimp only
  split
  · rename_i hpos
    have hok := h.succeeds (not_fails_of_pos hpos)
    split
    · exact ⟨⟨hle, hacc, hok⟩, fun _ => h₀⟩
    · exact ⟨⟨hle, hacc, hok⟩, fun _ => h₀⟩
  rename_i hpos
  split
  · rename_i hz
    exact ⟨⟨hle, hacc, h.succeeds (not_fails_of_zero hz)⟩, fun _ => h₀⟩
  rename_i hz
  split
  · rename_i he
    exact ⟨⟨hle, hacc, h.succeeds fun hf => hf.2 he⟩, fun _ => h₀⟩
  · rename_i he
    exact ⟨⟨hle, hacc, h.fails (fails_of_neg hpos hz he)⟩, fun hc => absurd rfl hc⟩

/-- What the socket accepted goes on where it stopped. -/
theorem accepted_append (h : WriteInv buf len s) (n : ℕ) :
    s.accepted ++ slice buf s.lenSent.toNat n = buf.take (s.lenSent.toNat + n) := by
  rw [h.accepted, slice, List.take_add]

theorem writeSend_flow (hlen : len.toNat < 0x80000000) (h : Writing buf len s) :
    WriteFlow buf len (writeSend buf len turn s) := by
  obtain ⟨hi, h₀⟩ := id h
  have hle := hi.le
  have hleft := toNat_left hle
  unfold writeSend
  split
  · rename_i hret
    unfold WriteState.send
    dsimp only
    generalize hn : min turn.send.val.toInt.toNat (len - s.lenSent).toNat = n
    have hacc := accepted_append hi n
    by_cases hv : turn.send.val > 0
    · rw [if_pos hv]
      have hcount := count_pos_iff (show n < 0x80000000 by omega)
      have hok := h.succeeds (r := ⟨Int32.ofNat n, turn.send.errno⟩)
      split
      · rename_i hpos
        have hsum := toNat_add_count (x := s.lenSent) (n := n) (by omega)
        refine ⟨⟨?_, ?_, hok (not_fails_of_pos hpos)⟩, fun _ => h₀⟩
        · show (s.lenSent + (Int32.ofNat n).toUInt32).toNat ≤ len.toNat
          omega
        · show _ = buf.take (s.lenSent + (Int32.ofNat n).toUInt32).toNat
          rw [hsum]
          exact hacc
      · rename_i hpos
        obtain rfl : n = 0 := by rw [hcount] at hpos; omega
        rw [if_pos (show Int32.ofNat 0 = 0 from rfl)]
        exact ⟨⟨hle, hacc, hok (not_fails_of_zero rfl)⟩, fun _ => h₀⟩
    · obtain rfl : n = 0 := by
        rw [gt_iff_lt, Int32.lt_iff_toInt_lt, Int32.toInt_zero] at hv
        omega
      rw [if_neg hv, if_neg hv]
      split
      · rename_i hz
        exact ⟨⟨hle, hacc, h.succeeds (not_fails_of_zero hz)⟩, fun _ => h₀⟩
      rename_i hz
      split
      · rename_i he
        exact ⟨⟨hle, hacc, h.succeeds fun hf => hf.2 he⟩, fun _ => h₀⟩
      · rename_i he
        exact ⟨⟨hle, hacc, h.fails (fails_of_neg hv hz he)⟩, fun hc => absurd rfl hc⟩
  · exact ⟨hi, fun _ => h₀⟩

/-- A turn keeps the count, and goes on only if no call failed. -/
theorem writeTurn_inv (hlen : len.toNat < 0x80000000) (tEnd : UInt64) (turn : WriteTurn) (h : Writing buf len s) :
    WriteInv buf len (writeTurn buf len tEnd turn s).2 ∧
      ((writeTurn buf len tEnd turn s).1 = true → (writeTurn buf len tEnd turn s).2.netErr = 0) := by
  unfold writeTurn
  dsimp only
  generalize hr : (if linuxTimeLeft tEnd turn.now ≠ 0 then writeSelect turn s else (Flow.on, s)) = r
  have hw : WriteFlow buf len r := by
    rw [← hr]
    split
    · exact writeSelect_flow h
    · exact ⟨h.1, fun _ => h.2⟩
  generalize hr' : (if r.1 = .on then writeSend buf len turn r.2 else r) = r'
  have hw' : WriteFlow buf len r' := by
    rw [← hr']
    split
    · rename_i hon
      exact writeSend_flow hlen ⟨hw.1, hw.2 (by rw [hon]; decide)⟩
    · exact hw
  split
  · exact ⟨hw'.1, fun hc => absurd hc Bool.false_ne_true⟩
  · exact ⟨hw'.1, fun hc => (of_decide_eq_true hc).1⟩

/-- A turn after which the clock reads the deadline or later ends the loop. -/
theorem writeTurn_ends (buf : List Byte) (len : UInt32) (h : linuxTimeLeft tEnd turn.nowAfter = 0) (s : WriteState) :
    (writeTurn buf len tEnd turn s).1 = false := by
  unfold writeTurn
  dsimp only
  generalize (if linuxTimeLeft tEnd turn.now ≠ 0 then writeSelect turn s else (Flow.on, s)) = r
  generalize (if r.1 = .on then writeSend buf len turn r.2 else r) = r'
  split
  · rfl
  · refine decide_eq_false fun hc => ?_
    rw [h] at hc
    exact absurd hc.2.2 (by decide)

theorem writing_start (buf : List Byte) (len : UInt32) : Writing buf len ⟨0, 1, 0, [], []⟩ :=
  ⟨⟨Nat.zero_le _, rfl, by simp⟩, rfl⟩

/-- What the value returned says, once the loop has ended. -/
theorem WriteInv.returns (hlen : len.toNat < 0x80000000) (h : WriteInv buf len s) {ret : Int32}
    (hret : ret = if s.netErr ≠ 0 then -1 else s.lenSent.toInt32) :
    (0 ≤ ret → ret.toInt = s.lenSent.toNat) ∧ (ret < 0 ↔ ∃ r ∈ s.returned, Fails r) := by
  rw [← h.failed, hret]
  by_cases he : s.netErr ≠ 0
  · rw [if_pos he]
    exact ⟨fun hc => absurd hc (by decide), iff_of_true (by decide) he⟩
  · have hle := h.le
    have hv := toInt32_of_lt (x := s.lenSent) (by omega)
    rw [if_neg he]
    refine ⟨fun _ => hv, iff_of_false (fun hc => ?_) he⟩
    rw [Int32.lt_iff_toInt_lt, hv, Int32.toInt_zero] at hc
    omega

/-- A call either runs on, no call of its loop having failed, or returns. -/
theorem halTcpWrite_cases (buf : List Byte) {fd : UInt64} (hfd : fd < fdSetsize) (hlen : len.toNat < 0x80000000)
    (timeoutMs : UInt32) (now : UInt64) (turns : List WriteTurn) :
    ∃ s, WriteInv buf len s ∧
      ((halTcpWrite fd buf len timeoutMs now turns = (none, s) ∧ s.netErr = 0) ∨
        ∃ ret, halTcpWrite fd buf len timeoutMs now turns = (some ret, s) ∧
          ret = if s.netErr ≠ 0 then -1 else s.lenSent.toInt32) := by
  have hbody turn s (h : Writing buf len s) := writeTurn_inv hlen (now + timeoutMs.toUInt64) turn h
  have hinv := loop_inv (fun turn s h hgo => ⟨(hbody turn s h).1, (hbody turn s h).2 hgo⟩)
    (fun turn s h _ => (hbody turn s h).1) turns (writing_start buf len)
  unfold halTcpWrite
  rw [if_neg (UInt64.not_le.mpr hfd)]
  generalize loop (writeTurn buf len (now + timeoutMs.toUInt64)) turns ⟨0, 1, 0, [], []⟩ = l at hinv ⊢
  obtain ⟨ended, s⟩ := l
  cases ended with
  | false => exact ⟨s, hinv.1, .inl ⟨rfl, hinv.2⟩⟩
  | true => exact ⟨s, hinv, .inr ⟨_, rfl, rfl⟩⟩

theorem halTcpWrite_returns {fd : UInt64} (hfd : fd < fdSetsize) (timeoutMs : UInt32) (now : UInt64)
    {turns : List WriteTurn} (ht : turn ∈ turns)
    (hlate : linuxTimeLeft (now + timeoutMs.toUInt64) turn.nowAfter = 0) :
    ∃ ret, (halTcpWrite fd buf len timeoutMs now turns).1 = some ret := by
  have hend := loop_ends ht (writeTurn_ends buf len hlate) ⟨0, 1, 0, [], []⟩
  unfold halTcpWrite
  rw [if_neg (UInt64.not_le.mpr hfd)]
  generalize loop (writeTurn buf len (now + timeoutMs.toUInt64)) turns ⟨0, 1, 0, [], []⟩ = l at hend ⊢
  obtain ⟨ended, s⟩ := l
  cases hend
  exact ⟨_, rfl⟩

/-- The socket accepts the first bytes of the buffer, none twice and none left
out; a value that is not negative says how many, and the value is negative
exactly if a call failed. The call returns once the clock reads its deadline. -/
theorem tcpWrite_prefix {fd : UInt64} (hfd : fd < fdSetsize) (hlen : len.toNat < 0x80000000)
    (hbuf : len.toNat ≤ buf.length) (timeoutMs : UInt32) (now : UInt64) (turns : List WriteTurn) :
    let r := halTcpWrite fd buf len timeoutMs now turns
    ∃ n, n ≤ len.toNat ∧ r.2.accepted.length = n ∧ r.2.accepted = buf.take n ∧
      (∀ ret, r.1 = some ret → 0 ≤ ret → ret.toInt = n) ∧
      ((∃ ret, r.1 = some ret ∧ ret < 0) ↔ ∃ a ∈ r.2.returned, Fails a) ∧
      ∀ turn ∈ turns, linuxTimeLeft (now + timeoutMs.toUInt64) turn.nowAfter = 0 → ∃ ret, r.1 = some ret := by
  intro r
  suffices key : ∃ n, n ≤ len.toNat ∧ r.2.accepted.length = n ∧ r.2.accepted = buf.take n ∧
      (∀ ret, r.1 = some ret → 0 ≤ ret → ret.toInt = n) ∧
      ((∃ ret, r.1 = some ret ∧ ret < 0) ↔ ∃ a ∈ r.2.returned, Fails a) by
    obtain ⟨n, hn, hlength, hacc, hpos, hneg⟩ := key
    exact ⟨n, hn, hlength, hacc, hpos, hneg, fun turn ht => halTcpWrite_returns hfd timeoutMs now ht⟩
  obtain ⟨s, hs, hr⟩ := halTcpWrite_cases buf hfd hlen timeoutMs now turns
  have hle := hs.le
  have hlength : s.accepted.length = s.lenSent.toNat := by
    rw [hs.accepted, List.length_take]
    omega
  rcases hr with ⟨he, h₀⟩ | ⟨ret, he, hret⟩
  · have hno : ¬ ∃ a ∈ s.returned, Fails a := fun hf => hs.failed.mpr hf h₀
    simp only [r, he, reduceCtorEq, false_and, exists_false, false_implies, implies_true, hno, and_true]
    exact ⟨_, hle, hlength, hs.accepted⟩
  · obtain ⟨hpos, hneg⟩ := hs.returns hlen hret
    simp only [r, he, Option.some.injEq, exists_eq_left', forall_eq', ← hneg, and_true]
    exact ⟨_, hle, hlength, hs.accepted, hpos⟩

end

/-- A send of two bytes, an interrupted wait, and the rest. -/
theorem tcpWrite_prefix_interrupted :
    let turns : List WriteTurn := [⟨1000, ⟨1, 0⟩, true, ⟨2, 0⟩, 1001⟩,
      ⟨1001, ⟨-1, eintr⟩, true, ⟨0, 0⟩, 1002⟩, ⟨1002, ⟨1, 0⟩, true, ⟨9, 0⟩, 1003⟩]
    let r := halTcpWrite 3 [1, 2, 3, 4, 5] 5 100 1000 turns
    ∃ n, n ≤ (5 : UInt32).toNat ∧ r.2.accepted.length = n ∧ r.2.accepted = List.take n [1, 2, 3, 4, 5] ∧
      (∀ ret, r.1 = some ret → 0 ≤ ret → ret.toInt = n) ∧
      ((∃ ret, r.1 = some ret ∧ ret < 0) ↔ ∃ a ∈ r.2.returned, Fails a) ∧
      ∀ turn ∈ turns, linuxTimeLeft 1100 turn.nowAfter = 0 → ∃ ret, r.1 = some ret :=
  tcpWrite_prefix (by decide) (by decide) (by decide) 100 1000 _

section

variable {buf : List Byte} {len : UInt32} {tEnd : UInt64} {turn : WriteTurn} {s : WriteState}

theorem writeSend_traffic (buf : List Byte) (len : UInt32) (turn : WriteTurn) (s : WriteState) :
    (writeSend buf len turn s).2.accepted = s.accepted ++
        (if s.ret > 0 then slice buf s.lenSent.toNat (sendCount len (turn, s)) else []) ∧
      (writeSend buf len turn s).2.returned = s.returned ++ (if s.ret > 0 then
        [⟨if turn.send.val > 0 then Int32.ofNat (sendCount len (turn, s)) else turn.send.val, turn.send.errno⟩]
      else []) := by
  unfold writeSend
  split
  · dsimp only
    split
    · exact ⟨rfl, rfl⟩
    split
    · exact ⟨rfl, rfl⟩
    split
    · exact ⟨rfl, rfl⟩
    · exact ⟨rfl, rfl⟩
  · simp only [List.append_nil, and_self]

/-- What a turn sends, and what its calls return. -/
theorem writeTurn_traffic (buf : List Byte) (len : UInt32) (tEnd : UInt64) (turn : WriteTurn) (s : WriteState) :
    (writeTurn buf len tEnd turn s).2.accepted = s.accepted ++ writeAccepts buf len tEnd (turn, s) ∧
      (writeTurn buf len tEnd turn s).2.returned = s.returned ++ writeReturns len tEnd (turn, s) := by
  have hsnd : (writeTurn buf len tEnd turn s).2 =
      let r := if linuxTimeLeft tEnd turn.now ≠ 0 then writeSelect turn s else (.on, s)
      (if r.1 = .on then writeSend buf len turn r.2 else r).2 := by
    unfold writeTurn
    dsimp only
    generalize (if linuxTimeLeft tEnd turn.now ≠ 0 then writeSelect turn s else (Flow.on, s)) = r
    generalize (if r.1 = .on then writeSend buf len turn r.2 else r) = r'
    split
    · rfl
    · rfl
  rw [hsnd]
  dsimp only
  by_cases ht : linuxTimeLeft tEnd turn.now ≠ 0
  · simp only [if_pos ht, writeAccepts, writeReturns, Sends]
    unfold writeSelect
    dsimp only
    by_cases hs : turn.select.val > 0
    · by_cases hset : turn.isSet = true
      · simp only [if_pos hs, hset, Bool.not_true, Bool.false_eq_true, if_false, and_true, if_true]
        obtain ⟨hacc, hret⟩ := writeSend_traffic buf len turn
          { s with ret := turn.select.val, returned := s.returned ++ [turn.select] }
        simp only [if_pos hs] at hacc hret
        exact ⟨hacc, hret.trans (List.append_assoc ..)⟩
      · simp [hs, hset]
    · simp only [hs, false_and, if_false, List.append_nil]
      split
      · exact ⟨rfl, rfl⟩
      split
      · exact ⟨rfl, rfl⟩
      · exact ⟨rfl, rfl⟩
  · simp only [if_neg ht, writeAccepts, writeReturns, Sends, if_true, List.nil_append]
    exact writeSend_traffic buf len turn s

/-- What was accepted and returned is what the turns made gave, and no other. -/
theorem tcpWrite_traffic (fd : UInt64) (buf : List Byte) (len timeoutMs : UInt32) (now : UInt64)
    (turns : List WriteTurn) :
    let r := halTcpWrite fd buf len timeoutMs now turns
    let made := writeSteps fd buf len timeoutMs now turns
    r.2.accepted = made.flatMap (writeAccepts buf len (now + timeoutMs.toUInt64)) ∧
      r.2.returned = made.flatMap (writeReturns len (now + timeoutMs.toUInt64)) := by
  have hacc := loop_appends WriteState.accepted
    (fun turn s => (writeTurn_traffic buf len (now + timeoutMs.toUInt64) turn s).1) turns ⟨0, 1, 0, [], []⟩
  have hret := loop_appends WriteState.returned
    (fun turn s => (writeTurn_traffic buf len (now + timeoutMs.toUInt64) turn s).2) turns ⟨0, 1, 0, [], []⟩
  unfold halTcpWrite writeSteps
  split
  · exact ⟨rfl, rfl⟩
  · dsimp only
    generalize loop (writeTurn buf len (now + timeoutMs.toUInt64)) turns ⟨0, 1, 0, [], []⟩ = l at hacc hret ⊢
    obtain ⟨ended, s⟩ := l
    cases ended with
    | false => exact ⟨hacc, hret⟩
    | true => exact ⟨hacc, hret⟩

end

/-! ## Reading -/

section

variable {buf : List Byte} {len : UInt32} {tEnd : UInt64} {turn : ReadTurn} {s : ReadState}

/-- The bytes taken are those counted, and stand at the start of the buffer. -/
structure ReadInv (buf : List Byte) (len : UInt32) (s : ReadState) : Prop where
  le : s.lenRecv.toNat ≤ len.toNat
  taken : s.taken.length = s.lenRecv.toNat
  buf : s.buf = s.taken ++ buf.drop s.taken.length
  err : s.errCode.toInt ≤ 0

theorem readInv_start (buf : List Byte) (len : UInt32) : ReadInv buf len ⟨buf, 0, 0, []⟩ :=
  ⟨Nat.zero_le _, rfl, rfl, Int.le_refl 0⟩

theorem length_delivered_le (r : Recv) (n : ℕ) : (r.delivered n).length ≤ n := by
  cases r with
  | data bytes => exact List.length_take_le ..
  | closed => exact Nat.zero_le n
  | fail errno => exact Nat.zero_le n

/-- `recv` returns the number of bytes it delivers, or nothing is delivered. -/
theorem recv_ret (r : Recv) (n : ℕ) : (r.ret n).val = Int32.ofNat (r.delivered n).length ∨
    (r.delivered n = [] ∧ ¬ (r.ret n).val > 0) := by
  cases r with
  | data bytes => exact .inl rfl
  | closed => exact .inl rfl
  | fail errno => exact .inr ⟨rfl, by show ¬ (-1 : Int32) > 0; decide⟩

/-- What was received goes on where the bytes before it end. -/
theorem recv_buf (h : ReadInv buf len s) (r : Recv) :
    (s.recv len r).buf = (s.recv len r).taken ++ buf.drop (s.recv len r).taken.length := by
  unfold ReadState.recv
  dsimp only
  rw [h.buf, ← h.taken, splice_prefix]

theorem readBody_inv (tEnd : UInt64) (h : ReadInv buf len s)
    (hcount : (turn.recv.delivered (len - s.lenRecv).toNat).length < 0x80000000) :
    ReadInv buf len (readBody len tEnd turn s).2 := by
  have hle := h.le
  have hlt := len.toNat_lt
  have hleft := toNat_left hle
  have hbuf := recv_buf h turn.recv
  have hd := length_delivered_le turn.recv (len - s.lenRecv).toNat
  have htaken : (s.recv len turn.recv).taken.length =
      s.lenRecv.toNat + (turn.recv.delivered (len - s.lenRecv).toNat).length := by
    rw [← h.taken]
    exact List.length_append
  have herr : ∀ e : Int32, e.toInt ≤ 0 → ReadInv buf len { s with errCode := e } := fun e he =>
    ⟨hle, h.taken, h.buf, he⟩
  -- nothing is delivered unless `ret` is positive
  have hnone (hpos : ¬ (turn.recv.ret (len - s.lenRecv).toNat).val > 0) :
      (s.recv len turn.recv).taken.length = s.lenRecv.toNat := by
    rcases recv_ret turn.recv (len - s.lenRecv).toNat with hv | ⟨hv, -⟩
    · rw [hv, count_pos_iff (by omega)] at hpos
      omega
    · rw [htaken, hv]
      rfl
  unfold readBody
  split
  · exact h
  split
  · dsimp only
    split
    · rename_i hpos
      obtain hv : (turn.recv.ret (len - s.lenRecv).toNat).val = _ :=
        (recv_ret turn.recv _).resolve_right fun hn => hn.2 hpos
      have hsum := toNat_add_count (x := s.lenRecv) (n := (turn.recv.delivered (len - s.lenRecv).toNat).length)
        (by omega)
      rw [hv]
      refine ⟨?_, ?_, hbuf, h.err⟩
      · show (s.lenRecv + _).toNat ≤ len.toNat
        omega
      · exact htaken.trans hsum.symm
    rename_i hpos
    split
    · exact ⟨hle, hnone hpos, hbuf, (by decide : (-1 : Int32).toInt ≤ 0)⟩
    split
    · exact ⟨hle, hnone hpos, hbuf, h.err⟩
    · exact ⟨hle, hnone hpos, hbuf, (by decide : (-2 : Int32).toInt ≤ 0)⟩
  split
  · exact h
  split
  · exact h
  · exact herr _ (by decide)

theorem readTurn_inv (tEnd : UInt64) (h : ReadInv buf len s)
    (hcount : (turn.recv.delivered (len - s.lenRecv).toNat).length < 0x80000000) :
    ReadInv buf len (readTurn len tEnd turn s).2 := by
  have hb := readBody_inv tEnd h hcount
  unfold readTurn
  dsimp only
  split
  · exact hb
  · exact hb

/-- What the value returned says, once the loop has ended. -/
theorem ReadInv.returns (hlen : len.toNat < 0x80000000) (h : ReadInv buf len s) {ret : Int32}
    (hret : ret = (if s.lenRecv ≠ 0 then s.lenRecv else s.errCode.toUInt32).toInt32) :
    (0 < s.taken.length → ret.toInt = s.taken.length) ∧ (ret ≤ 0 ↔ s.taken.length = 0) := by
  have hle := h.le
  have htaken := h.taken
  have hz : s.lenRecv = 0 ↔ s.lenRecv.toNat = 0 := (UInt32.toNat_inj (b := 0)).symm
  rw [Int32.le_iff_toInt_le, Int32.toInt_zero, hret]
  by_cases h₀ : s.lenRecv ≠ 0
  · have hv := toInt32_of_lt (x := s.lenRecv) (by omega)
    rw [ne_eq, hz] at h₀
    rw [if_pos (by rwa [ne_eq, hz]), hv]
    omega
  · have herr := h.err
    rw [if_neg h₀, Int32.toInt32_toUInt32]
    rw [not_not, hz] at h₀
    omega

/-- A turn in which the clock reads the deadline or later ends the loop. -/
theorem readTurn_ends (len : UInt32) (h : linuxTimeLeft tEnd turn.now = 0) (s : ReadState) :
    (readTurn len tEnd turn s).1 = false := by
  unfold readTurn readBody
  rw [if_pos h]
  rfl

/-- A call runs on or returns, with the bytes it took in the buffer. -/
theorem halTcpRead_cases (buf : List Byte) {fd : UInt64} (hfd : fd < fdSetsize) (hlen : len.toNat < 0x80000000)
    (timeoutMs : UInt32) (now : UInt64) (turns : List ReadTurn) :
    ∃ s, ReadInv buf len s ∧ (halTcpRead fd buf len timeoutMs now turns = (none, s) ∨
      halTcpRead fd buf len timeoutMs now turns =
        (some (if s.lenRecv ≠ 0 then s.lenRecv else s.errCode.toUInt32).toInt32, s)) := by
  have hcount (turn : ReadTurn) {s : ReadState} (h : ReadInv buf len s) :
      (turn.recv.delivered (len - s.lenRecv).toNat).length < 0x80000000 := by
    have hd := length_delivered_le turn.recv (len - s.lenRecv).toNat
    have hleft := toNat_left h.le
    omega
  have hinv := loop_keeps (fun turn s h => readTurn_inv (now + timeoutMs.toUInt64) h (hcount turn h)) turns
    (readInv_start buf len)
  unfold halTcpRead
  rw [if_neg (UInt64.not_le.mpr hfd)]
  generalize loop (readTurn len (now + timeoutMs.toUInt64)) turns ⟨buf, 0, 0, []⟩ = l at hinv ⊢
  obtain ⟨ended, s⟩ := l
  cases ended with
  | false => exact ⟨s, hinv, .inl rfl⟩
  | true => exact ⟨s, hinv, .inr rfl⟩

theorem halTcpRead_returns {fd : UInt64} (hfd : fd < fdSetsize) (timeoutMs : UInt32) (now : UInt64)
    {turns : List ReadTurn} (ht : turn ∈ turns) (hlate : linuxTimeLeft (now + timeoutMs.toUInt64) turn.now = 0) :
    ∃ ret, (halTcpRead fd buf len timeoutMs now turns).1 = some ret := by
  have hend := loop_ends ht (readTurn_ends len hlate) ⟨buf, 0, 0, []⟩
  unfold halTcpRead
  rw [if_neg (UInt64.not_le.mpr hfd)]
  generalize loop (readTurn len (now + timeoutMs.toUInt64)) turns ⟨buf, 0, 0, []⟩ = l at hend ⊢
  obtain ⟨ended, s⟩ := l
  cases hend
  exact ⟨_, rfl⟩

/-- The bytes taken from the socket stand at the start of the buffer, the rest
of it as it was; the call returns their number if there are any, and a value
that is not positive only if there are none. It returns once the clock reads
its deadline. -/
theorem tcpRead_exact {fd : UInt64} (hfd : fd < fdSetsize) (hlen : len.toNat < 0x80000000)
    (hbuf : len.toNat ≤ buf.length) (timeoutMs : UInt32) (now : UInt64) (turns : List ReadTurn) :
    let r := halTcpRead fd buf len timeoutMs now turns
    r.2.taken.length ≤ len.toNat ∧ r.2.buf = r.2.taken ++ buf.drop r.2.taken.length ∧
      r.2.buf.length = buf.length ∧
      (∀ ret, r.1 = some ret → (0 < r.2.taken.length → ret.toInt = r.2.taken.length) ∧
        (ret ≤ 0 ↔ r.2.taken.length = 0)) ∧
      ∀ turn ∈ turns, linuxTimeLeft (now + timeoutMs.toUInt64) turn.now = 0 → ∃ ret, r.1 = some ret := by
  intro r
  obtain ⟨s, hs, hr⟩ := halTcpRead_cases buf hfd hlen timeoutMs now turns
  have hle := hs.le
  have htaken := hs.taken
  have hlength : s.buf.length = buf.length := by
    rw [hs.buf, List.length_append, List.length_drop]
    omega
  have hreturns : ∀ turn ∈ turns, linuxTimeLeft (now + timeoutMs.toUInt64) turn.now = 0 → ∃ ret, r.1 = some ret :=
    fun turn ht => halTcpRead_returns hfd timeoutMs now ht
  have hs₂ : r.2 = s := by rcases hr with he | he <;> exact congrArg Prod.snd he
  rw [hs₂]
  refine ⟨by omega, hs.buf, hlength, fun ret h => hs.returns hlen ?_, hreturns⟩
  rcases hr with he | he
  · rw [show r.1 = none from congrArg Prod.fst he] at h
    cases h
  · rw [show r.1 = _ from congrArg Prod.fst he] at h
    exact (Option.some.inj h).symm

end

/-- Bytes that arrive, and then the end of the stream. -/
theorem tcpRead_exact_closed :
    let turns : List ReadTurn := [⟨1000, ⟨1, 0⟩, .data [7, 8]⟩, ⟨1001, ⟨-1, eintr⟩, .closed⟩,
      ⟨1002, ⟨1, 0⟩, .closed⟩]
    let r := halTcpRead 3 [0, 0, 0, 0] 4 100 1000 turns
    r.2.taken.length ≤ (4 : UInt32).toNat ∧ r.2.buf = r.2.taken ++ List.drop r.2.taken.length [0, 0, 0, 0] ∧
      r.2.buf.length = 4 ∧
      (∀ ret, r.1 = some ret → (0 < r.2.taken.length → ret.toInt = r.2.taken.length) ∧
        (ret ≤ 0 ↔ r.2.taken.length = 0)) ∧
      ∀ turn ∈ turns, linuxTimeLeft 1100 turn.now = 0 → ∃ ret, r.1 = some ret :=
  tcpRead_exact (by decide) (by decide) (by decide) 100 1000 _

theorem readTurn_snd (len : UInt32) (tEnd : UInt64) (turn : ReadTurn) (s : ReadState) :
    (readTurn len tEnd turn s).2 = (readBody len tEnd turn s).2 := by
  unfold readTurn
  dsimp only
  split
  · rfl
  · rfl

theorem readTurn_taken (len : UInt32) (tEnd : UInt64) (turn : ReadTurn) (s : ReadState) :
    (readTurn len tEnd turn s).2.taken = s.taken ++
      if Receives tEnd (turn, s) then turn.recv.delivered (asked len (turn, s)) else [] := by
  rw [readTurn_snd]
  simp only [readBody, Receives, asked]
  by_cases ht : linuxTimeLeft tEnd turn.now = 0
  · simp [ht]
  by_cases hs : turn.select.val > 0
  · simp only [ht, hs, if_true, if_false, ne_eq, not_false_eq_true, and_self]
    repeat' split
    all_goals rfl
  · simp only [ht, hs, if_false, and_false, List.append_nil]
    repeat' split
    all_goals rfl

/-- The bytes taken are those that the socket delivers in the turns made. -/
theorem taken_loop (len : UInt32) (tEnd : UInt64) (turns : List ReadTurn) (s : ReadState) :
    (loop (readTurn len tEnd) turns s).2.taken = s.taken ++ delivered len tEnd (steps (readTurn len tEnd) turns s) :=
  loop_appends ReadState.taken (readTurn_taken len tEnd) turns s

/-- What was taken is what the turns made gave, and no other. -/
theorem tcpRead_traffic (fd : UInt64) (buf : List Byte) (len timeoutMs : UInt32) (now : UInt64)
    (turns : List ReadTurn) : (halTcpRead fd buf len timeoutMs now turns).2.taken =
      delivered len (now + timeoutMs.toUInt64) (readSteps fd buf len timeoutMs now turns) := by
  have htaken := taken_loop len (now + timeoutMs.toUInt64) turns ⟨buf, 0, 0, []⟩
  unfold halTcpRead readSteps
  split
  · rfl
  · dsimp only
    generalize loop (readTurn len (now + timeoutMs.toUInt64)) turns ⟨buf, 0, 0, []⟩ = l at htaken ⊢
    obtain ⟨ended, s⟩ := l
    cases ended with
    | false => exact htaken
    | true => exact htaken

end Linkkit.Proof.Net
