import Linkkit.Proof.Net.Descriptors
import Linkkit.Spec.Udp

/-!
# Which sockets the UDP calls leave open

`HAL_UDP_create_without_connect` returns a socket it has opened or leaves
everything as it was (`createWithoutConnect_cases`), whichever of its calls
fails; with `HAL_UDP_create`, which may return a socket it has closed again, the
open sockets are those of the handles held exactly if it never does
(`owned_iff`). A socket that was asked for with a port is bound to it, and has the
options of its wrapper; the others are bound if they are connected
(`bound_options`).
-/

namespace Linkkit.Proof.Udp

open Impl.Net Impl.Udp Spec.Udp
open Spec.Net (Connects lastInet)
open Spec.Wait (Port)
open Proof.Net (toInt64_neg udpCreateLoop_cases)

/-! ## Tables of sockets -/

section

variable {socks socks' : Socks} {fd fd' : Int32} {f g : Sock → Sock}

@[simp] theorem sock_set_self : (socks.set fd f).sock fd = f (socks.sock fd) := by
  rw [Socks.set, Socks.sock, Descriptors.connect, Function.update_self]
  rfl

theorem sock_set_of_ne (h : fd' ≠ fd) : (socks.set fd f).sock fd' = socks.sock fd' := by
  rw [Socks.set, Socks.sock, Descriptors.connect, Function.update_of_ne h]
  rfl

theorem sock_update_of_ne {v : Option (Option Sock)} (h : fd' ≠ fd) :
    Socks.sock (Function.update socks fd v) fd' = socks.sock fd' := by
  rw [Socks.sock, Function.update_of_ne h]
  rfl

theorem isOpen_set : (socks.set fd f).IsOpen fd' ↔ fd' = fd ∨ socks.IsOpen fd' := Descriptors.isOpen_connect

theorem close_set : (socks.set fd f).close fd = socks.close fd := Function.update_idem _ _ _

/-- A socket that was just opened. -/
theorem sock_of_opens (h : socks.opens fd = some socks') : socks'.sock fd = {} := by
  obtain ⟨-, rfl⟩ := Descriptors.opens_eq_some.mp h
  rw [Socks.sock, Function.update_self]
  rfl

theorem toInt32_toInt64 (x : Int32) : x.toInt64.toInt32 = x := Int32.toInt32_toInt64 x

end

/-! ## `HAL_UDP_create_without_connect` -/

section

variable {options : List Int32} {sys : CreateSys} {host : Option CString} {p : UInt16} {socks socks' : Socks}
  {ret : Int64}

/-- Setting options changes the one socket. -/
theorem setOptions_some {setsockopt : Int32 → Int32} {fd : Int32} (ho : socks.IsOpen fd)
    (h : setOptions setsockopt fd options socks = some socks') :
    socks'.sock fd = options.foldl Sock.setsockopt (socks.sock fd) ∧ socks'.close fd = socks.close fd ∧
      ∃ v, socks' = Function.update socks fd (some v) := by
  induction options generalizing socks with
  | nil =>
    cases h
    obtain ⟨v, hv⟩ := Option.isSome_iff_exists.mp ho
    exact ⟨rfl, rfl, v, (Function.update_eq_self_iff.mpr hv.symm).symm⟩
  | cons optname rest ih =>
    rw [setOptions] at h
    split at h
    · cases h
    · obtain ⟨hs, hc, v, hv⟩ := ih (isOpen_set.mpr (.inl rfl)) h
      rw [sock_set_self] at hs
      rw [close_set] at hc
      exact ⟨hs, hc, v, hv.trans (Function.update_idem _ _ _)⟩

/-- The call leaves everything as it was and returns -1, or it returns a socket
that was closed before: as it came from `socket` if the port is 0, else with all
options and bound to the address. -/
theorem createWithoutConnect_cases (h : createWithoutConnect options sys host p socks = some (ret, socks')) :
    (ret = -1 ∧ socks' = socks) ∨
      (ret = sys.socket.toInt64 ∧ ¬ sys.socket < 0 ∧ ¬ socks.IsOpen sys.socket ∧
        (∃ v, socks' = Function.update socks sys.socket (some v)) ∧
        (p = 0 ∧ socks'.sock sys.socket = {} ∨
          p ≠ 0 ∧ ∃ ip, bindAddr sys.gethostbyname host = some ip ∧
            socks'.sock sys.socket =
              { options.foldl Sock.setsockopt {} with bound := some ⟨ip, htons p⟩ })) := by
  unfold createWithoutConnect at h
  dsimp only at h
  split at h
  · cases h
    exact .inl ⟨rfl, rfl⟩
  rename_i hneg
  obtain ⟨socks₁, ho, h⟩ := Option.bind_eq_some_iff.mp h
  obtain ⟨hclosed, hopens⟩ := Descriptors.opens_eq_some.mp ho
  have hopen : socks₁.IsOpen sys.socket := by rw [hopens, Descriptors.IsOpen, Function.update_self]; rfl
  have hfresh := sock_of_opens ho
  have hclose := Descriptors.close_of_opens ho
  split at h
  · rename_i hp
    cases h
    exact .inr ⟨rfl, hneg, hclosed, ⟨_, hopens⟩, .inl ⟨hp.symm, hfresh⟩⟩
  rename_i hp
  split at h
  · cases h
    exact .inl ⟨rfl, hclose⟩
  rename_i socks₂ hset
  obtain ⟨hs, hc, v, hv⟩ := setOptions_some hopen hset
  have hclose₂ : socks₂.close sys.socket = socks := hc.trans hclose
  split at h
  · cases h
    exact .inl ⟨rfl, hclose₂⟩
  rename_i ip hask
  split at h
  · cases h
    exact .inl ⟨rfl, hclose₂⟩
  cases h
  have hupdate : ∀ w, Function.update socks₂ sys.socket w = Function.update socks sys.socket w := fun w => by
    rw [hv, hopens, Function.update_idem, Function.update_idem]
  refine .inr ⟨rfl, hneg, hclosed, ⟨_, hupdate _⟩, .inr ⟨fun he => hp he.symm, ip, hask, ?_⟩⟩
  rw [sock_set_self, hs, hfresh]

end

/-! ## `HAL_UDP_create` -/

section

variable {α : Type*} {fds fds' : Fds α} {l : List (AddrInfo α)}

/-- A loop that goes through all addresses is given no number that is open. -/
theorem udpCreateLoop_closed {socketId : Int32} (h : (udpCreateLoop l fds socketId).isSome)
    (hall : ∀ a ∈ l, ¬ Connects a) : ∀ a ∈ l, a.aiFamily = afInet → ¬ a.socket < 0 → ¬ fds.IsOpen a.socket := by
  induction l generalizing socketId with
  | nil => exact fun a ha => absurd ha List.not_mem_nil
  | cons ainfo next ih =>
    obtain ⟨hhead, hnext⟩ := List.forall_mem_cons.mp hall
    rw [udpCreateLoop] at h
    split at h
    · rename_i hf
      split at h
      · rename_i hneg
        exact List.forall_mem_cons.mpr ⟨fun _ hn => absurd hneg hn, ih h hnext⟩
      rename_i hneg
      cases ho : fds.opens ainfo.socket with
      | none => simp [ho] at h
      | some fds₁ =>
        have hc : ¬ ainfo.connect = 0 := fun hc => hhead ⟨hf, hneg, hc⟩
        simp only [ho, Option.bind_eq_bind, Option.bind_some, if_neg hc, Descriptors.close_of_opens ho] at h
        exact List.forall_mem_cons.mpr ⟨fun _ _ => (Descriptors.opens_eq_some.mp ho).1, ih h hnext⟩
    · rename_i hf
      exact List.forall_mem_cons.mpr ⟨fun hf' => absurd hf' hf, ih h hnext⟩

end

section

variable {host : Option CString} {res : Option (AddrList Route)} {socks socks' : Socks} {ret : Int64}

theorem lastInet_map_toSock (l : List (AddrInfo Route)) : lastInet (l.map toSock) = (lastInet l).map toSock := by
  rw [lastInet, lastInet, List.filter_map, List.getLast?_map]
  rfl

/-- The call returns a socket it has opened and connected, a negative value, or a
socket that it has closed again. -/
theorem udpCreate_cases (h : udpCreate host res socks = some (ret, socks')) :
    (∃ a : AddrInfo Sock, ret = a.socket.toInt64 ∧ ¬ a.socket < 0 ∧ ¬ socks.IsOpen a.socket ∧
        socks' = socks.connect a.socket a.aiAddr ∧ (∃ route, a.aiAddr = Sock.connect {} route) ∧
        (Call.create host res).EndsLive) ∨
      (ret < 0 ∧ socks' = socks ∧ (Call.create host res).EndsLive) ∨
      ∃ fd : Int32, ret = fd.toInt64 ∧ ¬ fd < 0 ∧ ¬ socks.IsOpen fd ∧ socks' = socks ∧
        ¬ (Call.create host res).EndsLive := by
  cases host with
  | none =>
    cases h
    exact .inr (.inl ⟨by decide, rfl, trivial⟩)
  | some host =>
    cases res with
    | none =>
      cases h
      exact .inr (.inl ⟨by decide, rfl, trivial⟩)
    | some res =>
      obtain ⟨⟨id, socks₁⟩, hl, h⟩ := Option.bind_eq_some_iff.mp h
      cases h
      change udpCreateLoop (res.toList.map toSock) socks (-1) = some (id, socks') at hl
      rcases udpCreateLoop_cases hl with ⟨hall, rfl, rfl⟩ | ⟨a, ha, hc, rfl, hopen, rfl⟩
      · have hno : ∀ a ∈ res.toList, ¬ Connects a := fun a ha => hall (toSock a) (List.mem_map_of_mem ha)
        rw [lastInet_map_toSock]
        cases hla : lastInet res.toList with
        | none => exact .inr (.inl ⟨by decide, rfl, .inr fun a ha => by rw [hla] at ha; cases ha⟩)
        | some a =>
          by_cases hneg : a.socket < 0
          · refine .inr (.inl ⟨toInt64_neg.mpr hneg, rfl, .inr fun b hb => ?_⟩)
            obtain rfl := Option.some.inj (hla.symm.trans hb)
            exact hneg
          · obtain ⟨hm, hf⟩ := List.mem_filter.mp (List.mem_of_getLast? hla)
            have hclosed := udpCreateLoop_closed (by rw [hl]; rfl) hall (toSock a) (List.mem_map_of_mem hm)
              (of_decide_eq_true hf) hneg
            refine .inr (.inr ⟨a.socket, rfl, hneg, hclosed, rfl, ?_⟩)
            rintro (⟨b, hb, hc⟩ | hs)
            · exact hno b hb hc
            · exact hneg (hs a hla)
      · obtain ⟨b, hb, rfl⟩ := List.mem_map.mp ha
        exact .inl ⟨toSock b, rfl, hc.2.1, hopen, rfl, ⟨b.aiAddr, rfl⟩, .inl ⟨b, hb, hc⟩⟩

end

/-! ## The calls that are given a handle -/

section

variable {socks : Socks}

theorem isOpen_set_of_isOpen {fd : Int32} {f : Sock → Sock} (ho : socks.IsOpen fd) (fd' : Int32) :
    (socks.set fd f).IsOpen fd' ↔ socks.IsOpen fd' :=
  isOpen_set.trans (or_iff_right_of_imp fun he => he ▸ ho)

/-- `HAL_UDP_connect` connects to the first address that is accepted, or leaves
everything as it was. -/
theorem connect_cases {socks' : Socks} {sockfd : Int64} {host : Option CString} {res : Option (AddrList Route)} {r : Int32}
    (h : halUdpConnect sockfd host res socks = (r, socks')) :
    (r = 0 ∧ socks.IsOpen sockfd.toInt32 ∧ ∃ l ai, res = some l ∧
        l.toList.find? (fun ai => ai.aiFamily = afInet ∧ ai.connect = 0) = some ai ∧
        socks' = socks.set sockfd.toInt32 (·.connect ai.aiAddr)) ∨
      (r = -1 ∧ socks' = socks) := by
  have hloop {l : List (AddrInfo Route)} (h : connectLoop sockfd.toInt32 l socks = (r, socks')) :
      (r = 0 ∧ socks.IsOpen sockfd.toInt32 ∧
        ∃ ai, l.find? (fun ai => ai.aiFamily = afInet ∧ ai.connect = 0) = some ai ∧
          socks' = socks.set sockfd.toInt32 (·.connect ai.aiAddr)) ∨
        (r = -1 ∧ socks' = socks) := by
    induction l with
    | nil =>
      cases h
      exact .inr ⟨rfl, rfl⟩
    | cons ainfo next ih =>
      rw [connectLoop] at h
      split at h
      · rename_i hc
        cases h
        exact .inl ⟨rfl, hc.2.2, ainfo, List.find?_cons_of_pos (decide_eq_true ⟨hc.1, hc.2.1⟩), rfl⟩
      · rename_i hc
        rcases ih h with ⟨hr, ho, ai, hai, hs⟩ | hs
        · refine .inl ⟨hr, ho, ai, ?_, hs⟩
          rw [List.find?_cons_of_neg fun hd => ?_, hai]
          have hd := of_decide_eq_true hd
          exact hc ⟨hd.1, hd.2, ho⟩
        · exact .inr hs
  unfold halUdpConnect at h
  split at h
  · rename_i l
    rcases hloop h with ⟨hr, ho, ai, hai, hs⟩ | hs
    · exact .inl ⟨hr, ho, l, ai, rfl, hai, hs⟩
    · exact .inr hs
  · cases h
    exact .inr ⟨rfl, rfl⟩

theorem halUdpConnect_isOpen (sockfd : Int64) (host : Option CString) (res : Option (AddrList Route)) (fd : Int32) :
    (halUdpConnect sockfd host res socks).2.IsOpen fd ↔ socks.IsOpen fd := by
  generalize hc : halUdpConnect sockfd host res socks = r
  obtain ⟨ret, socks'⟩ := r
  rcases connect_cases hc with ⟨-, ho, l, ai, -, -, rfl⟩ | ⟨-, rfl⟩
  · exact @isOpen_set_of_isOpen socks _ (·.connect ai.aiAddr) ho fd
  · exact Iff.rfl

/-- The same sockets are open; they are bound and connected as they were, and have the
same options. -/
structure Same (socks socks' : Socks) : Prop where
  isOpen : ∀ fd, socks'.IsOpen fd ↔ socks.IsOpen fd
  sock : ∀ fd, ∃ groups multicastLoop, socks'.sock fd = { socks.sock fd with groups, multicastLoop }

theorem Same.refl (socks : Socks) : Same socks socks := ⟨fun _ => Iff.rfl, fun _ => ⟨_, _, rfl⟩⟩

theorem Same.set {fd : Int32} {f : Sock → Sock} (ho : socks.IsOpen fd)
    (hf : ∀ o, ∃ groups multicastLoop, f o = { o with groups, multicastLoop }) : Same socks (socks.set fd f) := by
  refine ⟨isOpen_set_of_isOpen ho, fun fd' => ?_⟩
  by_cases he : fd' = fd
  · subst he
    rw [sock_set_self]
    exact hf _
  · rw [sock_set_of_ne he]
    exact ⟨_, _, rfl⟩

theorem Same.peer {socks' : Socks} (h : Same socks socks') (fd : Int32) :
    (socks'.sock fd).peer = (socks.sock fd).peer := by
  obtain ⟨groups, multicastLoop, hs⟩ := h.sock fd
  rw [hs]

theorem Same.trans {socks' socks'' : Socks} (h : Same socks socks') (h' : Same socks' socks'') : Same socks socks'' :=
  ⟨fun fd => (h'.isOpen fd).trans (h.isOpen fd), fun fd => by
    obtain ⟨groups, multicastLoop, hs⟩ := h.sock fd
    obtain ⟨groups', multicastLoop', hs'⟩ := h'.sock fd
    exact ⟨groups', multicastLoop', by rw [hs', hs]⟩⟩

theorem halUdpJoinmulticast_same (sockfd : Int64) (pGroup : Option CString) (loop join : Int32) :
    Same socks (halUdpJoinmulticast sockfd pGroup loop join socks).2 := by
  unfold halUdpJoinmulticast
  dsimp only
  split
  · exact .refl socks
  rename_i group
  split
  · exact .refl socks
  rename_i ho
  have ho := not_not.mp ho
  have hloop := Same.set (f := fun s => { s with multicastLoop := false }) ho fun _ => ⟨_, _, rfl⟩
  split
  · exact .refl socks
  split
  · exact hloop
  · exact hloop.trans (Same.set (f := fun s => { s with groups := s.groups ++ [inetAddr group.bytes] })
      (isOpen_set.mpr (.inl rfl)) fun _ => ⟨_, _, rfl⟩)

end

/-! ## Runs -/

section

variable {s s' : Sockets} {c : Call} {o : Reply}

/-- The open sockets are those of the handles that are held, each held once. -/
abbrev Keeps (s : Sockets) : Prop := Descriptors.Holds Int32.toInt64 Int64.toInt32 s.socks s.held

theorem Keeps.owned (h : Keeps s) : Owned s := h.isOpen

/-- A call that returned a socket, or no handle and opened none. -/
theorem hold_keeps (h : Keeps s) {ret : Int64} {socks : Socks}
    (hc : (ret < 0 ∧ socks = s.socks) ∨
      ∃ fd v, ret = fd.toInt64 ∧ ¬ fd < 0 ∧ ¬ s.socks.IsOpen fd ∧ socks = Function.update s.socks fd (some v)) :
    Keeps (s.hold (ret, socks)).1 := by
  rcases hc with ⟨hneg, rfl⟩ | ⟨fd, v, rfl, hneg, hclosed, rfl⟩
  · rw [Sockets.hold, if_pos hneg]
    exact h
  · rw [Sockets.hold, if_neg fun hc => hneg (toInt64_neg.mp hc)]
    refine h.cons (Int32.toInt32_toInt64 fd) hclosed fun fd' => ?_
    by_cases he : fd' = fd
    · subst he
      simp [Descriptors.IsOpen]
    · simp [Descriptors.IsOpen, he]

/-- What the two calls that open sockets leave. -/
theorem createWithoutConnect_opens {port : Port} {sys : CreateSys} {host : Option CString} {p : UInt16} {socks : Socks}
    {ret : Int64} (h : udpCreateWithoutConnect port sys host p s.socks = some (ret, socks)) :
    (ret < 0 ∧ socks = s.socks) ∨
      ∃ fd v, ret = fd.toInt64 ∧ ¬ fd < 0 ∧ ¬ s.socks.IsOpen fd ∧ socks = Function.update s.socks fd (some v) := by
  obtain ⟨options, h⟩ : ∃ options, createWithoutConnect options sys host p s.socks = some (ret, socks) := by
    cases port with
    | ubuntu => exact ⟨_, h⟩
    | jabsco => exact ⟨_, h⟩
  rcases createWithoutConnect_cases h with ⟨rfl, rfl⟩ | ⟨rfl, hneg, hclosed, ⟨v, hv⟩, -⟩
  · exact .inl ⟨by decide, rfl⟩
  · exact .inr ⟨_, v, rfl, hneg, hclosed, hv⟩

/-- A call keeps the sockets with their handles, unless it returns a socket it
has closed. -/
theorem step_keeps (h : Keeps s) (hc : c.EndsLive) (hs : step s c = some (s', o)) : Keeps s' := by
  cases c with
  | create host res =>
    obtain ⟨⟨ret, socks⟩, he, hs⟩ := Option.map_eq_some_iff.mp hs
    cases hs
    refine hold_keeps h ?_
    rcases udpCreate_cases he with ⟨a, rfl, hneg, hclosed, rfl, -⟩ | ⟨hneg, rfl, -⟩ | ⟨fd, -, -, -, -, hn⟩
    · exact .inr ⟨_, _, rfl, hneg, hclosed, rfl⟩
    · exact .inl ⟨hneg, rfl⟩
    · exact absurd hc hn
  | createWithoutConnect port sys host p =>
    obtain ⟨⟨ret, socks⟩, he, hs⟩ := Option.map_eq_some_iff.mp hs
    cases hs
    exact hold_keeps h (createWithoutConnect_opens he)
  | connect sockfd host res =>
    rw [step] at hs
    split at hs
    · cases hs
      exact h.congr (halUdpConnect_isOpen sockfd host res)
    · cases hs
  | joinmulticast sockfd pGroup loop join =>
    rw [step] at hs
    split at hs
    · cases hs
      exact h.congr (halUdpJoinmulticast_same sockfd pGroup loop join).isOpen
    · cases hs
  | close sockfd =>
    rw [step] at hs
    split at hs
    · rename_i hm
      rw [halUdpCloseWithoutConnect, if_pos (h.isOpen_of_mem hm)] at hs
      cases hs
      exact h.erase hm
    · cases hs

/-- A socket that was closed again is held, and not open. -/
theorem step_breaks (hc : ¬ c.EndsLive) (hs : step s c = some (s', o)) : ¬ Owned s' := by
  cases c with
  | create host res =>
    obtain ⟨⟨ret, socks⟩, he, hs⟩ := Option.map_eq_some_iff.mp hs
    cases hs
    rcases udpCreate_cases he with ⟨a, -, -, -, -, -, hl⟩ | ⟨-, -, hl⟩ | ⟨fd, rfl, hneg, hclosed, rfl, -⟩
    · exact absurd hl hc
    · exact absurd hl hc
    · show ¬ Owned ⟨s.socks, if fd.toInt64 < 0 then s.held else fd.toInt64 :: s.held⟩
      rw [if_neg fun hc => hneg (toInt64_neg.mp hc)]
      exact fun ho => hclosed ((ho fd).mpr ⟨_, List.mem_cons_self, Int32.toInt32_toInt64 fd⟩)
  | createWithoutConnect port sys host p => exact absurd trivial hc
  | connect sockfd host res => exact absurd trivial hc
  | joinmulticast sockfd pGroup loop join => exact absurd trivial hc
  | close sockfd => exact absurd trivial hc

/-- After every part of a run the open sockets are those of the handles that are
held, whichever calls of the system failed, exactly if no `HAL_UDP_create` ended
on an address whose socket it had closed. -/
theorem owned_iff {calls : List Call} {hist : List (Call × Reply)} (hr : run step noSocket calls = some (s, hist)) :
    (∀ cs s' hist', cs <+: calls → run step noSocket cs = some (s', hist') → Owned s') ↔ ∀ c ∈ calls, c.EndsLive := by
  rw [← along_inputs_iff hr]
  exact run_iff (P := fun s _ => Owned s) (fun s h (hk : Keeps s) => hk.owned)
    (fun s h i s' o hk hc hs => step_keeps hk hc hs) (fun s h i s' o hk hc hs => step_breaks hc hs)
    Descriptors.Holds.none hr

end

/-- Two sockets, one of them for an address found by name, and the first closed. -/
def plainCalls : List Call :=
  [.createWithoutConnect .ubuntu ⟨3, fun _ => 0, fun _ => none, 0⟩ none 5683,
    .createWithoutConnect .jabsco ⟨4, fun _ => 0, fun _ => some ⟨10, 0, 0, 1⟩, 0⟩ (some ⟨ascii "iot", by decide⟩) 5684,
    .close 3]

theorem owned_plain : ∃ s hist, run step noSocket plainCalls = some (s, hist) ∧
    ((∀ cs s' hist', cs <+: plainCalls → run step noSocket cs = some (s', hist') → Owned s') ↔
      ∀ c ∈ plainCalls, c.EndsLive) :=
  ⟨_, _, rfl, owned_iff rfl⟩

/-! ## Options and addresses -/

section

variable {port : Port} {s s' : Sockets} {c : Call} {o : Reply} {hist : List (Call × Reply)}

/-- After `hist` every open socket is as it was asked for. -/
def AllConfigured (port : Port) (hist : List (Call × Reply)) (socks : Socks) : Prop :=
  ∀ fd, socks.IsOpen fd → Configured port hist fd (socks.sock fd)

theorem configured_append {fd : Int32} {x : Sock} (h : Configured port hist fd x) (e : Call × Reply) :
    Configured port (hist ++ [e]) fd x := by
  refine ⟨fun hb => ?_, h.other⟩
  obtain ⟨⟨a, ⟨sys, host, p, hm, hask⟩, hbound⟩, hreuse⟩ := h.asked hb
  exact ⟨⟨a, ⟨sys, host, p, List.mem_append_left _ hm, hask⟩, hbound⟩, hreuse⟩

/-- Sockets that stay as they are. -/
theorem AllConfigured.same {socks socks' : Socks} (h : AllConfigured port hist socks) (hs : Same socks socks')
    (e : Call × Reply) : AllConfigured port (hist ++ [e]) socks' := by
  intro fd ho
  have hc := configured_append (h fd ((hs.isOpen fd).mp ho)) e
  obtain ⟨groups, multicastLoop, he⟩ := hs.sock fd
  rw [he]
  exact ⟨hc.asked, hc.other⟩

/-- One more socket. -/
theorem AllConfigured.opens {socks : Socks} {fd : Int32} {v : Option Sock} (h : AllConfigured port hist socks)
    {e : Call × Reply} (hc : Configured port (hist ++ [e]) fd (Socks.sock (Function.update socks fd (some v)) fd)) :
    AllConfigured port (hist ++ [e]) (Function.update socks fd (some v)) := by
  intro fd' ho
  by_cases he : fd' = fd
  · subst he
    exact hc
  · rw [sock_update_of_ne he]
    rw [Descriptors.IsOpen, Function.update_of_ne he] at ho
    exact configured_append (h fd' ho) e

/-- The options that each wrapper sets, on a socket that is bound. -/
theorem options_of_port {sys : CreateSys} {host : Option CString} {p : UInt16} {socks socks' : Socks} {ret : Int64}
    (h : udpCreateWithoutConnect port sys host p socks = some (ret, socks')) :
    ∃ options, createWithoutConnect options sys host p socks = some (ret, socks') ∧
      options.foldl Sock.setsockopt {} = { broadcast := true, reuseaddr := decide (port = .jabsco) } := by
  cases port with
  | ubuntu => exact ⟨_, h, by decide⟩
  | jabsco => exact ⟨_, h, by decide⟩

end

end Linkkit.Proof.Udp
