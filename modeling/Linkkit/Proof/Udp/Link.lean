import Linkkit.Proof.Udp.Datagrams
import Linkkit.Proof.Udp.Peers
import Linkkit.Spec.Udp.Link

/-!
# Whom a socket talks to

A call that sends uses the peer of its socket (`send_cases`), and one that reads takes
the first datagram (`Gets`). In every run the peer is the one chosen last and each
datagram in a queue has come from the one chosen then (`Inv`), so that what is
sent and received is `Faithful` (`talk_faithful`).
-/

namespace Linkkit.Proof.Udp

open Impl.Net Impl.Udp Spec.Udp
open Spec.Wait (Port)
open Proof.Net (count_pos_iff)

/-! ## One call -/

section

variable {sockfd : Int64} {fd : Int32} {pData : List Byte} {datalen : UInt32} {select : Ret} {accepts fails : Bool}
  {socks : Socks} {ret : Int32} {out : Option (SockaddrIn × List Byte)} {queue : List Dgram} {g : Got}

/-- A call that reads: it takes nothing and counts no bytes, or takes the first
datagram. -/
def Gets (queue : List Dgram) (pData : Option (List Byte)) (datalen : UInt32) (g : Got) : Prop :=
  (¬ 0 < g.ret ∧ g.queue = queue) ∨ ∃ d data, queue = d :: g.queue ∧ pData = some data ∧
    g.ret = Int32.ofNat (d.payload.take datalen.toNat).length ∧
    g.pData = some (d.payload.take datalen.toNat ++ data.drop (d.payload.take datalen.toNat).length)

theorem udpRead_ret {pData : Option (List Byte)} (h : halUdpRead sockfd pData datalen fails queue = some g) :
    g.ret = Impl.Wait.halUdpRead sockfd pData.isSome
      ((pData.bind (sysRead · datalen fails queue)).elim 0 Got.ret) := by
  unfold halUdpRead at h
  cases pData with
  | none =>
    cases h
    rfl
  | some data =>
    rw [Impl.Wait.halUdpRead]
    dsimp only at h
    split at h
    · rename_i hz
      cases h
      rw [if_pos (.inr hz)]
    · rename_i hz
      rw [if_neg (by simpa using hz), Option.bind_some, h]
      rfl

theorem readTimeout_ret (timeout : UInt32) {pData : Option (List Byte)}
    (h : halUdpReadTimeout sockfd pData datalen select fails queue = some g) :
    g.ret = (Impl.Wait.halUdpReadTimeout sockfd pData.isSome timeout select
      ((pData.bind (sysRead · datalen fails queue)).elim 0 Got.ret)).1 := by
  unfold halUdpReadTimeout at h
  have hnull : (0 = sockfd ∨ (!pData.isSome) = true) ↔ (0 = sockfd ∨ pData = none) := by
    cases pData <;> simp
  rw [Impl.Wait.halUdpReadTimeout, if_congr hnull rfl rfl]
  split at h
  · rename_i hn
    cases h
    rw [if_pos hn]
  rename_i hn
  rw [if_neg hn]
  split at h
  · rename_i hneg
    cases h
    rw [if_pos hneg]
  rename_i hneg
  rw [if_neg hneg]
  show g.ret = Impl.Wait.afterSelect select (-2) _
  unfold Impl.Wait.afterSelect
  split at h
  · cases h
  split at h
  · rename_i hz
    cases h
    rw [if_pos hz]
  rename_i hz
  rw [if_neg hz]
  split at h
  · rename_i hlt
    rw [if_pos hlt]
    split at h
    · rename_i he
      cases h
      rw [if_pos he]
    · rename_i he
      cases h
      rw [if_neg he]
  · rename_i hlt
    rw [if_neg hlt]
    exact udpRead_ret h

theorem recv_ret (timeoutMs : UInt32) (h : halUdpRecv sockfd pData datalen select fails queue = some g) :
    g.ret = (Impl.Wait.halUdpRecv timeoutMs select ((sysRead pData datalen fails queue).elim 0 Got.ret)).1 := by
  rw [Impl.Wait.halUdpRecv, afterSelect_eq 0 _ rfl]
  unfold halUdpRecv at h
  split at h
  · cases h
  split at h
  · rename_i late hlate
    cases h
    rw [hlate]
    rfl
  · rename_i hready
    rw [hready, h]
    rfl

theorem udpSend_ret (timeoutMs : UInt32) (h : halUdpSend sockfd pData datalen select accepts socks = some (ret, out)) :
    ret = (Impl.Wait.halUdpSend timeoutMs select
      ((sysSend sockfd.toInt32 pData datalen accepts socks).elim 0 Prod.fst)).1 := by
  rw [Impl.Wait.halUdpSend, afterSelect_eq 0 _ rfl]
  unfold halUdpSend at h
  split at h
  · cases h
  split at h
  · rename_i late hlate
    cases h
    rw [hlate]
    rfl
  · rename_i hready
    rw [hready, h]
    rfl

end

/-! ## Runs -/

section

variable {w w' : Link} {hist : List LinkEvent} {m : LinkMove} {o : LinkOutcome} {e : LinkEvent} {fd : Int32}
  {sockfd : Int64} {datalen : UInt32} {d : Dgram}

/-- Each socket has the peer that was chosen last, and datagrams that have arrived. -/
structure LinkInv (w : Link) (hist : List LinkEvent) : Prop where
  peers : AllPeers (callsOf hist) w.sockets.socks
  queue : ∀ fd, ∀ d ∈ w.queue fd, d.payload.length ≤ maxPayload ∧ Arrived hist fd d

theorem callsOf_append (hist : List LinkEvent) (e : LinkEvent) : callsOf (hist ++ [e]) = callsOf hist ++ callsOf [e] :=
  List.filterMap_append ..

theorem Arrived.append (h : Arrived hist fd d) (hn : ¬ Opens fd e) : Arrived (hist ++ [e]) fd d := by
  obtain ⟨pre, post, rfl, hsrc, hpost⟩ := h
  refine ⟨pre, post ++ [e], by rw [List.append_assoc, List.cons_append], hsrc, fun e' he => ?_⟩
  rcases List.mem_append.mp he with he | he
  · exact hpost e' he
  · rwa [List.mem_singleton.mp he]

/-- An event that neither changes a socket nor brings a datagram. -/
theorem LinkInv.keep (h : LinkInv w hist) (he : callsOf [e] = []) (hn : ∀ fd, ¬ Opens fd e)
    (hs : w'.sockets = w.sockets) (hq : ∀ fd, ∀ d ∈ w'.queue fd, d ∈ w.queue fd) : LinkInv w' (hist ++ [e]) := by
  refine ⟨?_, fun fd d hd => ?_⟩
  · rw [callsOf_append, he, List.append_nil, hs]
    exact h.peers
  · obtain ⟨hlen, harr⟩ := h.queue fd d (hq fd d hd)
    exact ⟨hlen, Arrived.append harr (hn fd)⟩

theorem LinkInv.reads (h : LinkInv w hist) {pData : Option (List Byte)} {g : Got}
    (hg : Gets (w.queue sockfd.toInt32) pData datalen g) : Reads hist sockfd pData datalen g := by
  intro hpos
  rcases hg with ⟨hn, -⟩ | ⟨d, data, hq, hdata, hret, hbytes⟩
  · exact absurd hpos hn
  obtain ⟨hlen, harr⟩ := h.queue sockfd.toInt32 d (by rw [hq]; exact List.mem_cons_self)
  refine ⟨d, data, harr, hdata, ?_, hbytes⟩
  have hle : d.payload.length ≤ 65507 := hlen
  have htake := List.length_take_le datalen.toNat d.payload
  rw [hret]
  refine Int32.toInt_ofNat_of_lt ?_
  rw [List.length_take] at htake ⊢
  omega

/-- The datagrams that a call leaves were there before it. -/
theorem mem_of_gets {queue : List Dgram} {pData : Option (List Byte)} {g : Got} (h : Gets queue pData datalen g)
    (hd : d ∈ g.queue) : d ∈ queue := by
  rcases h with ⟨-, hq⟩ | ⟨d', data, hq, -⟩
  · rwa [hq] at hd
  · rw [hq]
    exact List.mem_cons_of_mem d' hd

/-- A new handle is that of a socket that was closed. -/
theorem closed_of_opens {s s' : Sockets} {c : Call} {r : Reply} (hs : step s c = some (s', r))
    (ho : Opens fd (.call c, .reply r)) : ¬ s.socks.IsOpen fd := by
  cases c with
  | create host res =>
    obtain ⟨⟨ret, socks⟩, he, hs⟩ := Option.map_eq_some_iff.mp hs
    cases hs
    obtain ⟨hneg, hret⟩ : ¬ ret < 0 ∧ ret = fd.toInt64 := ho
    rcases udpCreate_cases he with ⟨a, rfl, -, hclosed, -⟩ | ⟨hlt, -⟩ | ⟨fd', rfl, -, hclosed, -⟩
    · rwa [← toInt64_inj hret]
    · exact absurd hlt hneg
    · rwa [← toInt64_inj hret]
  | createWithoutConnect port sys host p =>
    obtain ⟨⟨ret, socks⟩, he, hs⟩ := Option.map_eq_some_iff.mp hs
    cases hs
    obtain ⟨options, he, -⟩ := options_of_port he
    obtain ⟨hneg, hret⟩ : ¬ ret < 0 ∧ ret = fd.toInt64 := ho
    rcases createWithoutConnect_cases he with ⟨rfl, -⟩ | ⟨rfl, -, hclosed, -⟩
    · exact absurd (by decide) hneg
    · rwa [← toInt64_inj hret]
  | connect sockfd host res => exact ho.elim
  | joinmulticast sockfd pGroup loop join => exact ho.elim
  | close sockfd => exact ho.elim

/-- A call that reads. -/
theorem LinkInv.gets (h : LinkInv w hist) {f : List Dgram → Option Got} {pData : Option (List Byte)}
    (hf : ∀ queue g, f queue = some g → Gets queue pData datalen g) (hs : w.gets sockfd f = some (w', o))
    (he : callsOf [(m, o)] = []) (hn : ∀ fd, ¬ Opens fd (m, o)) :
    LinkInv w' (hist ++ [(m, o)]) ∧ ∃ g, o = .got g ∧ f (w.queue sockfd.toInt32) = some g ∧
      Reads hist sockfd pData datalen g := by
  obtain ⟨g, hg, hs⟩ := Option.bind_eq_some_iff.mp hs
  cases hs
  refine ⟨h.keep he hn rfl fun fd d hd => ?_, g, rfl, hg, h.reads (hf _ g hg)⟩
  dsimp only at hd
  by_cases hfd : fd = sockfd.toInt32
  · subst hfd
    rw [Function.update_self] at hd
    exact mem_of_gets (hf _ g hg) hd
  · rwa [Function.update_of_ne hfd] at hd

/-- A call that opens, connects or closes sockets. -/
theorem LinkInv.call (h : LinkInv w hist) {c : Call} (hs : talk w (.call c) = some (w', o)) :
    LinkInv w' (hist ++ [(.call c, o)]) := by
  obtain ⟨⟨sockets, r⟩, hstep, hs⟩ := Option.bind_eq_some_iff.mp hs
  cases hs
  refine ⟨?_, fun fd d hd => ?_⟩
  · rw [callsOf_append]
    exact step_peers h.peers hstep
  · dsimp only at hd
    split at hd
    · rename_i hopen
      obtain ⟨hlen, harr⟩ := h.queue fd d hd
      exact ⟨hlen, Arrived.append harr fun ho => closed_of_opens hstep ho hopen.1⟩
    · exact absurd hd List.not_mem_nil

/-- A datagram arrives. -/
theorem LinkInv.arrive (h : LinkInv w hist) (hs : talk w (.arrive fd d) = some (w', o)) :
    LinkInv w' (hist ++ [(.arrive fd d, o)]) := by
  rw [talk] at hs
  split at hs
  · rename_i hc
    obtain ⟨hopen, hsrc, hlen⟩ := hc
    cases hs
    refine ⟨?_, fun fd' d' hd => ?_⟩
    · rw [callsOf_append]
      exact (List.append_nil (callsOf hist)).symm ▸ h.peers
    · have hold (hd : d' ∈ w.queue fd') :
          d'.payload.length ≤ maxPayload ∧ Arrived (hist ++ [(.arrive fd d, .arrived)]) fd' d' := by
        obtain ⟨hlen', harr⟩ := h.queue fd' d' hd
        exact ⟨hlen', Arrived.append harr id⟩
      dsimp only at hd
      by_cases hfd : fd' = fd
      · subst hfd
        rw [Function.update_self, List.mem_append, List.mem_singleton] at hd
        rcases hd with hd | rfl
        · exact hold hd
        · have hfrom (a : SockaddrIn) (ha : Chosen hist fd' a) : d'.src = a := hsrc a ((h.peers fd' hopen a).mpr ha)
          exact ⟨hlen, hist, [], rfl, hfrom, fun e he => absurd he List.not_mem_nil⟩
      · rw [Function.update_of_ne hfd] at hd
        exact hold hd
  · cases hs

end

end Linkkit.Proof.Udp
