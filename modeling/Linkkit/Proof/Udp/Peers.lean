import Linkkit.Proof.Udp.Sockets

/-!
# Whom the sockets are connected to

`HAL_UDP_create` and `HAL_UDP_connect` take the first address that can be connected
(`udpCreate_first`, `connect_cases`), and no other call changes the peer of a
socket. So in every run a socket is connected to what the last of them that
succeeded on it has taken (`peer_iff`).
-/

namespace Linkkit.Proof.Udp

open Impl.Net Impl.Udp Spec.Udp
open Spec.Net (Connects)
open Spec.Wait (Port)
open Proof.Net (toInt64_neg udpCreateLoop_cases)

/-! ## What a call chooses -/

section

variable {α : Type*} {fds fds' : Fds α} {l : List (AddrInfo α)} {socketId socketId' : Int32}

/-- The loop of `HAL_UDP_create` ends at the first address that connects. -/
theorem udpCreateLoop_first {a : AddrInfo α} (h : udpCreateLoop l fds socketId = some (socketId', fds'))
    (ha : l.find? (Connects ·) = some a) : socketId' = a.socket ∧ fds' = fds.connect a.socket a.aiAddr := by
  induction l generalizing socketId with
  | nil => cases ha
  | cons ainfo next ih =>
    rw [udpCreateLoop] at h
    by_cases hc : Connects ainfo
    · have hfind : (ainfo :: next).find? (Connects ·) = some ainfo := List.find?_cons_of_pos (decide_eq_true hc)
      rw [hfind] at ha
      cases ha
      rw [if_pos hc.1, if_neg hc.2.1] at h
      obtain ⟨fds₁, ho, h⟩ := Option.bind_eq_some_iff.mp h
      rw [if_pos hc.2.2] at h
      cases h
      exact ⟨rfl, Descriptors.connect_of_opens ho _⟩
    · have hfind : (ainfo :: next).find? (Connects ·) = next.find? (Connects ·) :=
        List.find?_cons_of_neg (by rwa [decide_eq_true_eq])
      rw [hfind] at ha
      split at h
      · rename_i hf
        split at h
        · exact ih h ha
        rename_i hneg
        obtain ⟨fds₁, ho, h⟩ := Option.bind_eq_some_iff.mp h
        rw [if_neg fun h₀ => hc ⟨hf, hneg, h₀⟩, Descriptors.close_of_opens ho] at h
        exact ih h ha
      · exact ih h ha

end

section

variable {host : Option CString} {res : Option (AddrList Route)} {socks socks' : Socks} {ret : Int64}

theorem find?_map_toSock (l : List (AddrInfo Route)) :
    (l.map toSock).find? (Connects ·) = (l.find? (Connects ·)).map toSock := by
  rw [List.find?_map]
  rfl

/-- A call whose addresses have one that connects returns its socket, connected. -/
theorem udpCreate_first {res : AddrList Route} {host : CString} {a : AddrInfo Route}
    (h : udpCreate (some host) (some res) socks = some (ret, socks')) (ha : res.toList.find? (Connects ·) = some a) :
    ret = a.socket.toInt64 ∧ socks' = socks.connect a.socket (Sock.connect {} a.aiAddr) := by
  obtain ⟨⟨id, socks₁⟩, hl, h⟩ := Option.bind_eq_some_iff.mp h
  cases h
  change udpCreateLoop (res.toList.map toSock) socks (-1) = some (id, socks') at hl
  obtain ⟨rfl, rfl⟩ := udpCreateLoop_first hl (a := toSock a) (by rw [find?_map_toSock, ha]; rfl)
  exact ⟨rfl, rfl⟩

/-- A call that changes the sockets has taken the first address that connects. -/
theorem udpCreate_takes (h : udpCreate host res socks = some (ret, socks')) (hne : socks' ≠ socks) :
    ∃ l ai, res = some l ∧ l.toList.find? (Connects ·) = some ai ∧ ret = ai.socket.toInt64 ∧
      socks' = socks.connect ai.socket (Sock.connect {} ai.aiAddr) := by
  cases host with
  | none =>
    cases h
    exact absurd rfl hne
  | some host =>
    cases res with
    | none =>
      cases h
      exact absurd rfl hne
    | some l =>
      cases hf : l.toList.find? (Connects ·) with
      | some ai =>
        obtain ⟨hret, hs⟩ := udpCreate_first h hf
        exact ⟨l, ai, rfl, hf, hret, hs⟩
      | none =>
        obtain ⟨⟨id, socks₁⟩, hl, h⟩ := Option.bind_eq_some_iff.mp h
        cases h
        change udpCreateLoop (l.toList.map toSock) socks (-1) = some (id, socks') at hl
        rcases udpCreateLoop_cases hl with ⟨-, hs, -⟩ | ⟨a, ha, hc, -⟩
        · exact absurd hs hne
        · obtain ⟨b, hb, rfl⟩ := List.mem_map.mp ha
          have hno : ¬ Connects b := by simpa using List.find?_eq_none.mp hf b hb
          exact absurd hc hno

end

/-! ## Runs -/

section

variable {s s' : Sockets} {c : Call} {o : Reply} {e : Call × Reply} {hist : List (Call × Reply)} {fd : Int32}
  {a : SockaddrIn}

/-- Every open socket is connected to what the history says. -/
def AllPeers (hist : List (Call × Reply)) (socks : Socks) : Prop :=
  ∀ fd, socks.IsOpen fd → ∀ a, (socks.sock fd).peer = some a ↔ Since (Chooses fd a) (fun e => ¬ Renews fd e) hist

theorem renews_of_chooses (h : Chooses fd a e) : Renews fd e := by
  unfold Chooses at h
  split at h
  · obtain ⟨ai, hai, rfl, rfl, -⟩ := h
    have hc : Connects ai := by simpa using List.find?_some hai
    exact ⟨fun hneg => hc.2.1 (toInt64_neg.mp hneg), rfl⟩
  · exact ⟨h.1, h.2.1⟩
  · exact h.elim

/-- An event that does not renew a socket. -/
theorem since_frame (hn : ¬ Renews fd e) : Since (Chooses fd a) (fun e => ¬ Renews fd e) (hist ++ [e]) ↔
    Since (Chooses fd a) (fun e => ¬ Renews fd e) hist := by
  rw [since_append_singleton, and_iff_left hn, or_iff_right fun hc => hn (renews_of_chooses hc)]

/-- An event that renews a socket. -/
theorem since_renewed (hr : Renews fd e) : Since (Chooses fd a) (fun e => ¬ Renews fd e) (hist ++ [e]) ↔
    Chooses fd a e := by
  rw [since_append_singleton, or_iff_left fun hc => hc.2 hr]

/-- A call that renews no open socket, and changes no peer. -/
theorem AllPeers.same {socks socks' : Socks} (h : AllPeers hist socks) (ho : ∀ fd, socks'.IsOpen fd → socks.IsOpen fd)
    (hp : ∀ fd, socks'.IsOpen fd → (socks'.sock fd).peer = (socks.sock fd).peer)
    (hn : ∀ fd, socks'.IsOpen fd → ¬ Renews fd e) : AllPeers (hist ++ [e]) socks' := by
  intro fd hfd a
  rw [since_frame (hn fd hfd), hp fd hfd]
  exact h fd (ho fd hfd) a

/-- A call that renews one socket. -/
theorem AllPeers.renew {socks : Socks} {v : Option Sock} (h : AllPeers hist socks) (hr : Renews fd e)
    (hother : ∀ fd', Renews fd' e → fd' = fd)
    (hv : ∀ a, (Socks.sock (Function.update socks fd (some v)) fd).peer = some a ↔ Chooses fd a e) :
    AllPeers (hist ++ [e]) (Function.update socks fd (some v)) := by
  intro fd' ho a
  by_cases he : fd' = fd
  · rw [he, since_renewed hr]
    exact hv a
  · rw [since_frame fun hr' => he (hother fd' hr'), sock_update_of_ne he]
    rw [Descriptors.IsOpen, Function.update_of_ne he] at ho
    exact h fd' ho a

theorem toInt64_inj {x y : Int32} (h : x.toInt64 = y.toInt64) : x = y := by
  rw [← Int32.toInt32_toInt64 x, h, Int32.toInt32_toInt64]

theorem step_peers (h : AllPeers hist s.socks) (hs : step s c = some (s', o)) : AllPeers (hist ++ [(c, o)]) s'.socks := by
  cases c with
  | create host res =>
    obtain ⟨⟨ret, socks⟩, he, hs⟩ := Option.map_eq_some_iff.mp hs
    cases hs
    show AllPeers (hist ++ [(.create host res, .handle ret)]) socks
    rcases udpCreate_cases he with ⟨a, rfl, hneg, hclosed, hs, -⟩ | ⟨hneg, rfl, -⟩ | ⟨fd, rfl, -, hclosed, rfl, -⟩
    · have hne : socks ≠ s.socks := fun he => hclosed (he ▸ hs ▸ Descriptors.isOpen_connect.mpr (.inl rfl))
      obtain ⟨l, ai, rfl, hai, hret, rfl⟩ := udpCreate_takes he hne
      rw [hret]
      refine h.renew ⟨fun hc => hneg ?_, rfl⟩ (fun fd' hr => (toInt64_inj hr.2).symm) fun b => ?_
      · rw [toInt64_inj hret]
        exact toInt64_neg.mp hc
      · rw [Socks.sock, Function.update_self]
        constructor
        · intro hb
          exact ⟨ai, hai, rfl, rfl, Option.some.inj hb⟩
        · rintro ⟨ai', hai', -, -, rfl⟩
          rw [hai] at hai'
          cases hai'
          rfl
    · exact h.same (fun _ ho => ho) (fun _ _ => rfl) fun fd _ hr => hr.1 hneg
    · exact h.same (fun _ ho => ho) (fun _ _ => rfl) fun fd' ho hr => hclosed (toInt64_inj hr.2 ▸ ho)
  | createWithoutConnect port sys host p =>
    obtain ⟨⟨ret, socks⟩, he, hs⟩ := Option.map_eq_some_iff.mp hs
    cases hs
    obtain ⟨options, he, hopt⟩ := options_of_port he
    show AllPeers (hist ++ [(.createWithoutConnect port sys host p, .handle ret)]) socks
    rcases createWithoutConnect_cases he with ⟨rfl, rfl⟩ | ⟨rfl, hneg, -, ⟨v, rfl⟩, hv⟩
    · exact h.same (fun _ ho => ho) (fun _ _ => rfl) fun fd _ hr => hr.1 (by decide)
    · have hpeer : (Socks.sock (Function.update s.socks sys.socket (some v)) sys.socket).peer = none := by
        rcases hv with ⟨-, hv⟩ | ⟨-, ip, -, hv⟩
        · rw [hv]
        · rw [hv, hopt]
      refine h.renew ⟨fun hc => hneg (toInt64_neg.mp hc), rfl⟩ (fun fd' hr => (toInt64_inj hr.2).symm) fun b => ?_
      rw [hpeer]
      exact iff_of_false (Option.some_ne_none b).symm id
  | connect sockfd host res =>
    rw [step] at hs
    split at hs
    · cases hs
      generalize hc : halUdpConnect sockfd host res s.socks = r
      obtain ⟨ret, socks⟩ := r
      show AllPeers (hist ++ [(.connect sockfd host res, .ret ret)]) socks
      rcases connect_cases hc with ⟨rfl, ho, l, ai, rfl, hai, rfl⟩ | ⟨rfl, rfl⟩
      · refine h.renew ⟨rfl, rfl⟩ (fun fd' hr => hr.2.symm) fun b => ?_
        rw [Socks.sock, Function.update_self]
        constructor
        · intro hb
          exact ⟨rfl, rfl, ai, hai, Option.some.inj hb⟩
        · rintro ⟨-, -, ai', hai', rfl⟩
          rw [hai] at hai'
          cases hai'
          rfl
      · exact h.same (fun _ ho => ho) (fun _ _ => rfl) fun fd _ hr => absurd hr.1 (by decide)
    · cases hs
  | joinmulticast sockfd pGroup loop join =>
    rw [step] at hs
    split at hs
    · cases hs
      have hsame := @halUdpJoinmulticast_same s.socks sockfd pGroup loop join
      exact h.same (fun fd ho => (hsame.isOpen fd).mp ho) (fun fd _ => hsame.peer fd)
        fun fd _ hr => hr
    · cases hs
  | close sockfd =>
    rw [step] at hs
    split at hs
    · cases hs
      show AllPeers _ (halUdpCloseWithoutConnect sockfd s.socks).2
      rw [halUdpCloseWithoutConnect]
      split
      · refine h.same (fun fd ho => (Descriptors.isOpen_close.mp ho).2) (fun fd ho => ?_) fun fd _ hr => hr
        rw [Descriptors.close, sock_update_of_ne (Descriptors.isOpen_close.mp ho).1]
      · exact h.same (fun _ ho => ho) (fun _ _ => rfl) fun fd _ hr => hr
    · cases hs

/-- After every run an open socket is connected to what the last call that renewed it
has chosen: `HAL_UDP_create` or `HAL_UDP_connect`, the first address that connects. -/
theorem peer_iff {calls : List Call} (hr : run step noSocket calls = some (s, hist)) (ho : s.socks.IsOpen fd)
    (a : SockaddrIn) :
    (s.socks.sock fd).peer = some a ↔ Since (Chooses fd a) (fun e => ¬ Renews fd e) hist :=
  run_keeps (fun s h => AllPeers h s.socks) (fun _ _ _ _ _ h hs => step_peers h hs)
    (fun _ ho => absurd ho Descriptors.not_isOpen_none) hr fd ho a

end

/-- A socket is created for the second of its addresses, and connected once more. -/
def reconnected : List Call :=
  let ai (a : InAddr) (connect : Int32) : AddrInfo Route :=
    ⟨afInet, ⟨⟨a, htons 5683⟩, ⟨⟨10, 0, 0, 9⟩, htons 40000⟩⟩, 3, connect⟩
  [.create (some ⟨ascii "gate", by decide⟩) (some ⟨ai ⟨10, 0, 0, 1⟩ (-1), [ai ⟨10, 0, 0, 2⟩ 0]⟩),
    .connect 3 (some ⟨ascii "relay", by decide⟩) (some ⟨ai ⟨10, 0, 0, 3⟩ 0, []⟩)]

theorem peer_iff_reconnected : ∃ s hist, run step noSocket reconnected = some (s, hist) ∧
    ∀ a, (s.socks.sock 3).peer = some a ↔ Since (Chooses 3 a) (fun e => ¬ Renews 3 e) hist := by
  have hr : run step noSocket reconnected = some (_, _) := rfl
  exact ⟨_, _, hr, peer_iff hr rfl⟩

end Linkkit.Proof.Udp
