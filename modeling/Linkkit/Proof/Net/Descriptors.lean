import Linkkit.Spec.Net

/-!
# Which descriptors the calls leave open

`HAL_TCP_Establish` leaves open the descriptor of the first address that
connects, if any (`tcpEstablish_first`), but `HAL_TCP_Destroy` closes its descriptor only if
`shutdown` succeeds: over whole runs nothing leaks exactly if every `shutdown`
does (`released_iff`). `HAL_UDP_create` returns what `socket` returned last,
also if it closed that descriptor again (`udpCreate_iff`).
-/

namespace Linkkit.Proof.Net

open Impl.Net Spec.Net

/-! ## Conversions -/

theorem toInt_toUintptr (x : Int32) : toInt (toUintptr x) = x := by
  apply Int32.toBitVec_inj.mp
  show (x.toBitVec.signExtend 64).setWidth 32 = x.toBitVec
  ext i hi
  rw [BitVec.getElem_setWidth, BitVec.getLsbD_signExtend, if_pos hi, decide_eq_true (by omega),
    Bool.true_and, BitVec.getLsbD_eq_getElem]

theorem toUintptr_inj {x y : Int32} : toUintptr x = toUintptr y ↔ x = y :=
  ⟨fun h => by rw [← toInt_toUintptr x, h, toInt_toUintptr], congrArg _⟩

theorem ne_neg_one {x : Int32} (h : ¬ x < 0) : x ≠ -1 := fun he => h (by rw [he]; decide)

theorem toInt64_neg {x : Int32} : x.toInt64 < 0 ↔ x < 0 := by
  rw [Int32.lt_iff_toInt_lt, Int64.lt_iff_toInt_lt, Int32.toInt_toInt64, Int32.toInt_zero,
    Int64.toInt_zero]

variable {α : Type*}

/-! ## Establish -/

section

variable {fds fds' : Fds α}

theorem connects_iff {a : AddrInfo α} (hf : ¬ a.aiFamily ≠ afInet) (hneg : ¬ a.socket < 0) :
    Connects a ↔ a.connect = 0 :=
  ⟨fun h => h.2.2, fun h => ⟨not_not.mp hf, hneg, h⟩⟩

/-- An address that is left behind leaves the descriptors as they were. -/
theorem establishLoop_skip {cur : AddrInfo α} {next : List (AddrInfo α)} {rc : Int32} (hc : ¬ Connects cur)
    (ho : cur.aiFamily = afInet → ¬ cur.socket < 0 → ¬ fds.IsOpen cur.socket) :
    establishLoop (cur :: next) fds rc = establishLoop next fds (-1) := by
  rw [establishLoop]
  split
  · rfl
  rename_i hf
  split
  · rfl
  rename_i hneg
  have hopens := Descriptors.opens_eq_some.mpr ⟨ho (not_not.mp hf) hneg, rfl⟩
  rw [hopens]
  show (if cur.connect = 0 then _ else _) = _
  rw [if_neg fun h => hc ((connects_iff hf hneg).mpr h), Descriptors.close_of_opens hopens]

/-- An address that connects ends the loop. -/
theorem establishLoop_first {cur : AddrInfo α} (next : List (AddrInfo α)) (rc : Int32) (hc : Connects cur)
    (ho : ¬ fds.IsOpen cur.socket) :
    establishLoop (cur :: next) fds rc = some (cur.socket, fds.connect cur.socket cur.aiAddr) := by
  obtain ⟨hf, hneg, hcon⟩ := hc
  have hopens := Descriptors.opens_eq_some.mpr ⟨ho, rfl⟩
  rw [establishLoop, if_neg (not_not.mpr hf), if_neg hneg, hopens]
  show (if cur.connect = 0 then _ else _) = _
  rw [if_pos hcon]
  exact congrArg (fun fds => some (cur.socket, fds)) (Descriptors.connect_of_opens hopens _)

/-- A loop that returns is not given a number that is open. -/
theorem establishLoop_head {cur : AddrInfo α} {next : List (AddrInfo α)} {rc : Int32}
    (h : (establishLoop (cur :: next) fds rc).isSome) (hf : cur.aiFamily = afInet) (hneg : ¬ cur.socket < 0) :
    ¬ fds.IsOpen cur.socket := by
  intro hopen
  rw [establishLoop, if_neg (not_not.mpr hf), if_neg hneg, Descriptors.opens, if_pos hopen] at h
  cases h

/-- The loop returns the descriptor of the first address that connects, or -1
and the descriptors as they were. -/
theorem establishLoop_cases {l : List (AddrInfo α)} {rc rc' : Int32}
    (h : establishLoop l fds rc = some (rc', fds')) :
    ((∀ a ∈ l, ¬ Connects a) ∧ (rc' = -1 ∨ l = [] ∧ rc' = rc) ∧ fds' = fds) ∨
      ∃ a, l.find? (Connects ·) = some a ∧ rc' = a.socket ∧ ¬ fds.IsOpen a.socket ∧
        fds' = fds.connect a.socket a.aiAddr := by
  induction l generalizing rc with
  | nil =>
    cases h
    exact .inl ⟨fun a ha => absurd ha List.not_mem_nil, .inr ⟨rfl, rfl⟩, rfl⟩
  | cons cur next ih =>
    have hhead := establishLoop_head (by rw [h]; rfl)
    by_cases hc : Connects cur
    · have ho := hhead hc.1 hc.2.1
      rw [establishLoop_first next rc hc ho] at h
      cases h
      exact .inr ⟨cur, List.find?_cons_of_pos (decide_eq_true hc), rfl, ho, rfl⟩
    · rw [establishLoop_skip hc hhead] at h
      rw [List.find?_cons_of_neg (by rwa [decide_eq_true_eq])]
      rcases ih h with ⟨hall, hr, hf⟩ | hfirst
      · exact .inl ⟨List.forall_mem_cons.mpr ⟨hc, hall⟩, .inl (hr.elim id And.right), hf⟩
      · exact .inr hfirst

/-- The loop returns. -/
theorem establishLoop_isSome {l : List (AddrInfo α)} (hk : Fresh fds l) (rc : Int32) :
    (establishLoop l fds rc).isSome := by
  induction l generalizing rc with
  | nil => rfl
  | cons cur next ih =>
    obtain ⟨hcur, hnext⟩ := List.forall_mem_cons.mp hk
    by_cases hc : Connects cur
    · rw [establishLoop_first next rc hc (hcur hc.1 hc.2.1)]
      rfl
    · rw [establishLoop_skip hc hcur]
      exact ih hnext (-1)

/-- What follows an address that connects is not looked at. -/
theorem establishLoop_append {a : AddrInfo α} (hc : Connects a) (before after after' : List (AddrInfo α)) (rc : Int32) :
    establishLoop (before ++ a :: after) fds rc = establishLoop (before ++ a :: after') fds rc := by
  obtain ⟨hf, hneg, hcon⟩ := hc
  induction before generalizing fds rc with
  | nil => simp only [List.nil_append, establishLoop, hf, hneg, hcon, ne_eq, not_true_eq_false, if_true, if_false]
  | cons b before ih => simp only [List.cons_append, establishLoop, ih]

theorem connects_of_find {l : List (AddrInfo α)} {a : AddrInfo α} (h : l.find? (Connects ·) = some a) :
    a ∈ l ∧ Connects a :=
  ⟨List.mem_of_find?_eq_some h, by simpa using List.find?_some h⟩

/-- A value returned keeps the promise for the addresses. -/
theorem halTcpEstablish_firstOrNone {addrs : AddrList α} {ret : UInt64}
    (h : halTcpEstablish (some addrs) fds = some (ret, fds')) : FirstOrNone addrs.toList fds ret fds' := by
  obtain ⟨⟨rc, fds₁⟩, hl, h⟩ := Option.bind_eq_some_iff.mp h
  cases h
  rcases establishLoop_cases hl with ⟨hall, rfl | ⟨hnil, -⟩, rfl⟩ | ⟨a, ha, rfl, hopen, rfl⟩
  · refine ⟨fun a ha => ?_, fun _ => ⟨rfl, rfl⟩⟩
    obtain ⟨hm, hc⟩ := connects_of_find ha
    exact absurd hc (hall a hm)
  · cases hnil
  · obtain ⟨hm, hc⟩ := connects_of_find ha
    refine ⟨fun b hb => ?_, fun hall => absurd hc (hall a hm)⟩
    obtain rfl := Option.some.inj (ha.symm.trans hb)
    exact ⟨rfl, fun he => ne_neg_one hc.2.1 (toUintptr_inj.mp he), hopen, rfl⟩

theorem halTcpEstablish_cases {addrs : Option (AddrList α)} {ret : UInt64}
    (h : halTcpEstablish addrs fds = some (ret, fds')) :
    (ret = toUintptr (-1) ∧ fds' = fds) ∨
      ∃ fd peer, ret = toUintptr fd ∧ ret ≠ toUintptr (-1) ∧ ¬ fds.IsOpen fd ∧ fds' = fds.connect fd peer := by
  cases addrs with
  | none =>
    cases h
    exact .inl ⟨rfl, rfl⟩
  | some l =>
    have hp := halTcpEstablish_firstOrNone h
    cases hfind : l.toList.find? (Connects ·) with
    | none => exact .inl (hp.none fun a ha hc => List.find?_eq_none.mp hfind a ha (decide_eq_true hc))
    | some a => exact .inr ⟨a.socket, a.aiAddr, hp.first a hfind⟩

/-- If `getaddrinfo` fails, -1 is returned and nothing opened. If it lists
addresses, the call returns the descriptor of the first one that connects,
leaves that one open and looks at no later address, or returns -1 and leaves
nothing open if there is none. -/
theorem tcpEstablish_first (fds : Fds α) (addrs : AddrList α) (hk : Fresh fds addrs.toList) :
    halTcpEstablish none fds = some (toUintptr (-1), fds) ∧
      (∃ ret fds', halTcpEstablish (some addrs) fds = some (ret, fds') ∧ FirstOrNone addrs.toList fds ret fds') ∧
      ∀ before a after, addrs.toList = before ++ a :: after → Connects a →
        ∀ addrs' after', AddrList.toList addrs' = before ++ a :: after' →
          halTcpEstablish (some addrs') fds = halTcpEstablish (some addrs) fds := by
  refine ⟨rfl, ?_, fun before a after hl hc addrs' after' hl' => ?_⟩
  · obtain ⟨⟨rc, fds'⟩, hr⟩ := Option.isSome_iff_exists.mp (establishLoop_isSome hk 0)
    have he : halTcpEstablish (some addrs) fds = some (toUintptr rc, fds') := by
      rw [halTcpEstablish, hr]
      rfl
    exact ⟨_, _, he, halTcpEstablish_firstOrNone he⟩
  · rw [halTcpEstablish, halTcpEstablish, hl, hl', establishLoop_append hc before after' after]

end

/-- An IPv4 address for which the calls return as given. -/
def inet (socket connect : Int32) : AddrInfo Unit := ⟨afInet, (), socket, connect⟩

/-- An address that does not connect, one that has no socket and one that
connects, before another one. -/
theorem tcpEstablish_third :
    let addrs : AddrList Unit := ⟨inet 3 (-1), [inet (-1) 0, inet 3 0, inet 4 0]⟩
    halTcpEstablish none (.none : Fds Unit) = some (toUintptr (-1), .none) ∧
      (∃ ret fds', halTcpEstablish (some addrs) .none = some (ret, fds') ∧ FirstOrNone addrs.toList .none ret fds') ∧
      ∀ before a after, addrs.toList = before ++ a :: after → Connects a →
        ∀ addrs' after', AddrList.toList addrs' = before ++ a :: after' →
          halTcpEstablish (some addrs') .none = halTcpEstablish (some addrs) .none :=
  tcpEstablish_first .none _ fun _ _ _ _ => Descriptors.not_isOpen_none

/-! ## Runs of Establish and Destroy -/

section

variable {s s' : Tcp α} {c : Call α} {o : Reply}

/-- The descriptors are those of the handles that are held, each held once. -/
structure Keeps (s : Tcp α) : Prop where
  nodup : s.held.Nodup
  handle : ∀ h ∈ s.held, toUintptr (toInt h) = h
  released : Released s

/-- Handles of one descriptor are the same. -/
theorem Keeps.eq_of_toInt (h : Keeps s) {x y : UInt64} (hx : x ∈ s.held) (hy : y ∈ s.held)
    (he : toInt x = toInt y) : x = y := by rw [← h.handle x hx, he, h.handle y hy]

theorem keeps_noConnection : Keeps (noConnection : Tcp α) :=
  ⟨List.nodup_nil, fun h hh => absurd hh List.not_mem_nil, fun fd => by simp [noConnection]⟩

theorem establish_keeps (h : Keeps s) {addrs : Option (AddrList α)}
    (hs : step s (.establish addrs) = some (s', o)) : Keeps s' := by
  obtain ⟨⟨ret, fds⟩, he, hs⟩ := Option.bind_eq_some_iff.mp hs
  cases hs
  rcases halTcpEstablish_cases he with ⟨rfl, rfl⟩ | ⟨fd, peer, rfl, hne, hopen, rfl⟩
  · rw [if_pos rfl]
    exact h
  · rw [if_neg hne]
    have hnew : toUintptr fd ∉ s.held := fun hm =>
      hopen ((h.released fd).mpr ⟨_, hm, toInt_toUintptr fd⟩)
    refine ⟨List.nodup_cons.mpr ⟨hnew, h.nodup⟩, ?_, fun fd' => ?_⟩
    · rw [List.forall_mem_cons, toInt_toUintptr]
      exact ⟨rfl, h.handle⟩
    · show (s.fds.connect fd peer).IsOpen fd' ↔ _
      rw [Descriptors.isOpen_connect, h.released fd', List.exists_mem_cons_iff, toInt_toUintptr,
        eq_comm]

/-- A Destroy whose `shutdown` succeeds. -/
theorem destroy_keeps (h : Keeps s) {fd : UInt64} (hs : step s (.destroy fd 0) = some (s', o)) :
    Keeps s' := by
  rw [step] at hs
  split at hs
  · rename_i hm
    have hopen := (h.released (toInt fd)).mpr ⟨fd, hm, rfl⟩
    simp only [halTcpDestroy, ne_eq, not_true_eq_false, if_false, if_pos hopen] at hs
    cases hs
    have herase : ∀ {x}, x ∈ s.held.erase fd ↔ x ≠ fd ∧ x ∈ s.held := h.nodup.mem_erase_iff
    refine ⟨h.nodup.erase fd, fun x hx => h.handle x (herase.mp hx).2, fun fd' => ?_⟩
    show (s.fds.close (toInt fd)).IsOpen fd' ↔ _
    rw [Descriptors.isOpen_close, h.released fd']
    constructor
    · rintro ⟨hne, x, hx, rfl⟩
      exact ⟨x, herase.mpr ⟨fun he => hne (by rw [he]), hx⟩, rfl⟩
    · rintro ⟨x, hx, rfl⟩
      obtain ⟨hne, hx⟩ := herase.mp hx
      exact ⟨fun he => hne (h.eq_of_toInt hx hm he), x, hx, rfl⟩
  · cases hs

/-- A Destroy whose `shutdown` fails leaves its descriptor open. -/
theorem destroy_leaks (h : Keeps s) {fd : UInt64} {shutdown : Int32} (hf : shutdown ≠ 0)
    (hs : step s (.destroy fd shutdown) = some (s', o)) : ¬ Released s' := by
  rw [step] at hs
  split at hs
  · rename_i hm
    simp only [halTcpDestroy, if_pos hf] at hs
    cases hs
    intro hr
    obtain ⟨x, hx, he⟩ := (hr (toInt fd)).mp ((h.released (toInt fd)).mpr ⟨fd, hm, rfl⟩)
    obtain ⟨hne, hx⟩ := h.nodup.mem_erase_iff.mp hx
    exact hne (h.eq_of_toInt hx hm he)
  · cases hs

theorem step_keeps (h : Keeps s) (hc : c.ShutsDown) (hs : step s c = some (s', o)) : Keeps s' := by
  cases c with
  | establish addrs => exact establish_keeps h hs
  | destroy fd shutdown =>
    obtain rfl : shutdown = 0 := hc
    exact destroy_keeps h hs

/-- After every part of a run the open descriptors are those of the handles
that are held, exactly if `shutdown` succeeds in every Destroy. -/
theorem released_iff {calls : List (Call α)} {hist : List (Call α × Reply)}
    (hr : run step noConnection calls = some (s, hist)) :
    (∀ cs s' hist', cs <+: calls → run step noConnection cs = some (s', hist') → Released s') ↔
      ∀ c ∈ calls, c.ShutsDown := by
  rw [← along_inputs_iff hr]
  refine run_iff (P := fun s _ => Released s) (fun s h (hk : Keeps s) => hk.released)
    (fun s h i s' o hk hc hs => step_keeps hk hc hs) (fun s h i s' o hk hc hs => ?_) keeps_noConnection hr
  cases i with
  | establish addrs => exact absurd trivial hc
  | destroy fd shutdown => exact destroy_leaks hk hc hs

end

/-- A connection that is opened, the first address failing, and destroyed. -/
def plainCalls : List (Call Unit) :=
  [.establish (some ⟨inet 3 (-1), [inet (-1) 0, inet 3 0]⟩), .destroy 3 0]

/-- A run that leaves no descriptor open. -/
theorem released_plain : ∃ s hist, run step noConnection plainCalls = some (s, hist) ∧
    ((∀ cs s' hist', cs <+: plainCalls → run step noConnection cs = some (s', hist') → Released s') ↔
      ∀ c ∈ plainCalls, c.ShutsDown) :=
  ⟨_, _, rfl, released_iff rfl⟩

/-- The same, `shutdown` failing as it does when the peer reset the
connection. -/
def resetCalls : List (Call Unit) := [.establish (some ⟨inet 3 0, []⟩), .destroy 3 (-1)]

/-- The descriptor stays open, and no handle is held. -/
theorem leaked_after_reset : ∃ s hist, run step noConnection resetCalls = some (s, hist) ∧
    s.held = [] ∧ s.fds.IsOpen 3 ∧ ¬ Released s := by
  refine ⟨_, _, rfl, rfl, rfl, fun hr => ?_⟩
  obtain ⟨h, hm, -⟩ := (hr 3).mp rfl
  cases hm

/-! ## UDP -/

section

variable {fds fds' : Fds α} {l : List (AddrInfo α)}

/-- What the loop leaves if no address connects: what `socket` returned last,
and the descriptors as they were. -/
theorem udpCreateLoop_cases {socketId socketId' : Int32}
    (h : udpCreateLoop l fds socketId = some (socketId', fds')) :
    ((∀ a ∈ l, ¬ Connects a) ∧ fds' = fds ∧
        socketId' = ((lastInet l).map AddrInfo.socket).getD socketId) ∨
      ∃ a ∈ l, Connects a ∧ socketId' = a.socket ∧ ¬ fds.IsOpen a.socket ∧
        fds' = fds.connect a.socket a.aiAddr := by
  induction l generalizing socketId with
  | nil =>
    cases h
    exact .inl ⟨fun a ha => absurd ha List.not_mem_nil, rfl, rfl⟩
  | cons ainfo next ih =>
    -- an address that is left behind, with nothing opened for it
    have hskip {id : Int32} (hn : ¬ Connects ainfo) (h : udpCreateLoop next fds id = some (socketId', fds'))
        (hid : ((lastInet next).map AddrInfo.socket).getD id =
          ((lastInet (ainfo :: next)).map AddrInfo.socket).getD socketId) :
        ((∀ a ∈ ainfo :: next, ¬ Connects a) ∧ fds' = fds ∧
            socketId' = ((lastInet (ainfo :: next)).map AddrInfo.socket).getD socketId) ∨
          ∃ a ∈ ainfo :: next, Connects a ∧ socketId' = a.socket ∧ ¬ fds.IsOpen a.socket ∧
            fds' = fds.connect a.socket a.aiAddr := by
      rcases ih h with ⟨hall, hf, hs⟩ | ⟨a, ha, hr⟩
      · exact .inl ⟨List.forall_mem_cons.mpr ⟨hn, hall⟩, hf, hs.trans hid⟩
      · exact .inr ⟨a, List.mem_cons_of_mem _ ha, hr⟩
    simp only [udpCreateLoop] at h
    split at h
    · rename_i hf
      have hid : ((lastInet next).map AddrInfo.socket).getD ainfo.socket =
          ((lastInet (ainfo :: next)).map AddrInfo.socket).getD socketId := by
        rw [lastInet, lastInet, List.filter_cons_of_pos (by simpa using hf), List.getLast?_cons]
        cases (next.filter fun a => decide (a.aiFamily = afInet)).getLast? <;> rfl
      split at h
      · rename_i hneg
        exact hskip (fun hc => hc.2.1 hneg) h hid
      rename_i hneg
      obtain ⟨fds₁, ho, h⟩ := Option.bind_eq_some_iff.mp h
      split at h
      · rename_i hc
        cases h
        exact .inr ⟨ainfo, List.mem_cons_self, ⟨hf, hneg, hc⟩, rfl, (Descriptors.opens_eq_some.mp ho).1,
          Descriptors.connect_of_opens ho _⟩
      · rename_i hc
        rw [Descriptors.close_of_opens ho] at h
        exact hskip (fun hcon => hc hcon.2.2) h hid
    · rename_i hf
      refine hskip (fun hc => hf hc.1) h ?_
      rw [lastInet, lastInet, List.filter_cons_of_neg (by simpa using hf)]

/-- The call keeps its promise exactly if one of the addresses connects, or
`socket` fails for the last IPv4 address, or there is none. -/
theorem udpCreate_iff (host : CString) (addrs : AddrList α) {ret : Int64}
    (h : halUdpCreate (some host) (some addrs) fds = some (ret, fds')) :
    LiveOrError addrs.toList fds ret fds' ↔
      (∃ a ∈ addrs.toList, Connects a) ∨ ∀ a, lastInet addrs.toList = some a → a.socket < 0 := by
  obtain ⟨⟨socketId, fds₁⟩, hl, h⟩ := Option.bind_eq_some_iff.mp h
  cases h
  rcases udpCreateLoop_cases hl with ⟨hall, rfl, rfl⟩ | ⟨a, ha, hc, rfl, hopen, rfl⟩
  · have hno : ¬ ∃ a ∈ addrs.toList, Connects a := fun ⟨a, ha, hc⟩ => hall a ha hc
    rw [or_iff_right hno]
    constructor
    · intro hp a ha
      have := hp.error hall
      rwa [toInt64_neg, ha] at this
    · intro hs
      have hneg : ((lastInet addrs.toList).map AddrInfo.socket).getD (-1) < 0 := by
        cases hla : lastInet addrs.toList with
        | none => exact (by decide : (-1 : Int32) < 0)
        | some a => exact hs a hla
      refine ⟨fun h₀ => ?_, fun _ => toInt64_neg.mpr hneg, fun fd _ => rfl⟩
      have := toInt64_neg.mpr hneg
      rw [Int64.lt_iff_toInt_lt] at this
      rw [Int64.le_iff_toInt_le] at h₀
      omega
  · refine iff_of_true ⟨fun _ => ?_, fun hall => absurd hc (hall a ha), fun fd hne => ?_⟩ (.inl ⟨a, ha, hc⟩)
    · exact ⟨a, ha, hc.1, a.socket, rfl, hopen, Function.update_self ..⟩
    · exact Function.update_of_ne (fun he => hne (by rw [he])) _ _

end

/-- A first address that does not connect and a second one that does. -/
theorem udpCreate_second : ∃ ret fds', halUdpCreate (some ⟨ascii "iot", by decide⟩)
      (some ⟨inet 3 (-1), [inet 3 0]⟩) .none = some (ret, fds') ∧
    (LiveOrError [inet 3 (-1), inet 3 0] .none ret fds' ↔
      (∃ a ∈ [inet 3 (-1), inet 3 0], Connects a) ∨
        ∀ a, lastInet [inet 3 (-1), inet 3 0] = some a → a.socket < 0) :=
  ⟨_, _, rfl, udpCreate_iff ⟨ascii "iot", by decide⟩ ⟨inet 3 (-1), [inet 3 0]⟩ rfl⟩

/-- An address that does not connect: its descriptor is closed, and
returned. -/
theorem udpCreate_returns_closed : ∃ fds', halUdpCreate (some ⟨ascii "iot", by decide⟩)
      (some ⟨inet 3 (-1), []⟩) .none = some (3, fds') ∧ ¬ fds'.IsOpen 3 ∧
    ¬ LiveOrError [inet 3 (-1)] .none 3 fds' := by
  refine ⟨_, rfl, by decide, fun h => ?_⟩
  exact absurd (h.error (by decide)) (by decide)

end Linkkit.Proof.Net
