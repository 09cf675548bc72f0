import Linkkit.Spec.Awss

/-!
# The frames that a sniffer passes on

`func_Sniffer` reads the length of the radiotap header from `rev_buffer`
whatever the length of the packet, so behind a packet that ends in the header
it reads what is left of the packets before it. What it calls back with is that
of each packet alone exactly if these bytes never make a header that is shorter
than the packet (`frames_iff`).
-/

namespace Linkkit.Proof.Awss

open Impl.Awss Spec.Awss

variable {port : Port} {t t' : Sniffer} {cb : Callback}

theorem itLen_append {packet : List Byte} (hp : 4 ≤ packet.length) (l : List Byte) :
    itLen (packet ++ l) = itLen packet := by
  simp only [itLen, List.getD_eq_getElem?_getD]
  rw [List.getElem?_append_left (by omega), List.getElem?_append_left (by omega)]

/-! ## One packet -/

/-- A packet is stored over what `rev_buffer` held. -/
theorem splice_packet {packet : List Byte} (hfits : packet.length ≤ maxRevBuffer) (t : Sniffer) :
    (Buf.ofList maxRevBuffer (splice t.revBuffer.bytes 0 packet)).bytes =
      packet ++ t.revBuffer.bytes.drop packet.length := by
  have hl : (splice t.revBuffer.bytes 0 packet).length = maxRevBuffer := by
    rw [length_splice (by rw [t.revBuffer.length_eq]; omega), t.revBuffer.length_eq]
  rw [Buf.bytes_ofList (by omega), hl, Nat.sub_self]
  show splice t.revBuffer.bytes 0 packet ++ [] = _
  rw [List.append_nil, splice, List.take_zero, List.nil_append, Nat.zero_add]

theorem snifferBody_revBuffer (port : Port) {packet : List Byte} (hfits : packet.length ≤ maxRevBuffer)
    (t : Sniffer) : (snifferBody port (some packet) t).1.revBuffer.bytes =
      packet ++ t.revBuffer.bytes.drop packet.length := by
  rw [← splice_packet hfits]
  unfold snifferBody
  dsimp only [Option.getD_some]
  rw [List.take_of_length_le hfits]
  repeat' split
  all_goals rfl

/-- A packet calls back with what follows the header that `rev_buffer` holds
then, if that is shorter. -/
theorem snifferBody_some (port : Port) {packet : List Byte} (hfits : packet.length ≤ maxRevBuffer) (t : Sniffer) :
    (snifferBody port (some packet) t).2 =
      if itLen (packet ++ t.revBuffer.bytes.drop packet.length) < packet.length then
        some ⟨t.cb, packet.drop (itLen (packet ++ t.revBuffer.bytes.drop packet.length)), port.linkType,
          port.withFcs, 0⟩
      else none := by
  simp only [snifferBody, Option.getD_some, Option.isSome_some, if_true, List.take_of_length_le hfits,
    splice_packet hfits]
  generalize itLen (packet ++ t.revBuffer.bytes.drop packet.length) = n
  by_cases hn : n < packet.length
  · have hlength : ((packet.length : Int) - n).toNat = (packet.drop n).length := by
      rw [List.length_drop]
      omega
    rw [if_neg (by omega), if_pos (by omega), if_pos hn, hlength, slice,
      List.drop_append_of_le_length (by omega), List.take_left]
  · rw [if_neg hn]
    split
    · rfl
    · rw [if_neg (by omega)]

/-- A failure of `recvfrom` calls nothing. -/
theorem snifferBody_none (port : Port) (t : Sniffer) : (snifferBody port none t).2 = none := by
  unfold snifferBody
  dsimp only [Option.isSome_none]
  split
  · rfl
  · rw [if_neg (by simp only [Bool.false_eq_true, if_false]; omega)]

/-- A frame that a sniffer receives is passed to its callback, without the
radiotap header. -/
theorem snifferBody_frame (port : Port) {packet : List Byte} (hp : IsFrame packet) (t : Sniffer) :
    (snifferBody port (some packet) t).2 =
      some ⟨t.cb, packet.drop (itLen packet), port.linkType, port.withFcs, 0⟩ := by
  rw [snifferBody_some port hp.fits, itLen_append hp.header, if_pos hp.body]

theorem snifferBody_cb (port : Port) (packet : Option (List Byte)) (t : Sniffer) :
    (snifferBody port packet t).1.cb = t.cb := by
  unfold snifferBody
  dsimp only
  repeat' split
  all_goals rfl

/-- The header of a packet that ends in it is shorter than the packet only if
its high byte is 0. -/
theorem itLen_lt_iff {p l : List Byte} (hp : p.length < 4) :
    itLen (p ++ l.drop p.length) < p.length ↔
      l.getD 3 0 = 0 ∧ ((p ++ l.drop p.length).getD 2 0).toNat < p.length := by
  have hhigh : (p ++ l.drop p.length).getD 3 0 = l.getD 3 0 := by
    simp only [List.getD_eq_getElem?_getD]
    rw [List.getElem?_append_right (by omega), List.getElem?_drop]
    congr 3
    omega
  rw [itLen, hhigh, ← UInt8.toNat_inj, UInt8.toNat_zero]
  omega

/-- What is called for a packet is what the packet alone gives, unless it ends
in the header and the buffer makes that a short one. -/
theorem snifferBody_frameOf {packet : Option (List Byte)} (hfits : ∀ p ∈ packet, p.length ≤ maxRevBuffer)
    (hcb : t.cb = cb) (hn : ¬ EndsInHeader t packet) : (snifferBody port packet t).2 = frameOf port cb packet := by
  subst hcb
  cases packet with
  | none => exact snifferBody_none port t
  | some p =>
    rw [snifferBody_some port (hfits p rfl), frameOf]
    by_cases h₄ : 4 ≤ p.length
    · rw [itLen_append h₄]
      simp only [h₄, true_and]
    · rw [if_neg fun h => hn ⟨p, rfl, by omega, (itLen_lt_iff (by omega)).mp h⟩, if_neg fun h => h₄ h.1]

/-- Else there is a call, where the packet alone gives none. -/
theorem snifferBody_endsInHeader (port : Port) (cb : Callback) {packet : Option (List Byte)} (hfits : ∀ p ∈ packet, p.length ≤ maxRevBuffer)
    (h : EndsInHeader t packet) : (snifferBody port packet t).2 ≠ none ∧ frameOf port cb packet = none := by
  obtain ⟨p, rfl, h₄, hs⟩ := h
  refine ⟨?_, if_neg fun hf => by omega⟩
  rw [snifferBody_some port (hfits p rfl), if_pos ((itLen_lt_iff h₄).mpr hs)]
  exact Option.some_ne_none _

/-! ## Runs -/

theorem receive_eq_some {packet : Option (List Byte)} {f : Option Frame} :
    receive port t packet = some (t', f) ↔
      (∀ p ∈ packet, p.length ≤ maxRevBuffer) ∧ snifferBody port packet t = (t', f) := by
  unfold receive
  split
  · rename_i h
    rw [and_iff_right h, Option.some.injEq]
  · rename_i h
    exact iff_of_false nofun fun hc => h hc.1

theorem receive_none (port : Port) (t : Sniffer) :
    ∃ t', receive port t none = some (t', none) ∧ t'.cb = t.cb :=
  ⟨_, receive_eq_some.mpr ⟨nofun, Prod.ext rfl (snifferBody_none port t)⟩, snifferBody_cb port none t⟩

theorem receive_some (port : Port) {packet : List Byte} (hfits : packet.length ≤ maxRevBuffer) (t : Sniffer) :
    ∃ t', receive port t (some packet) = some (t',
        if itLen (packet ++ t.revBuffer.bytes.drop packet.length) < packet.length then
          some ⟨t.cb, packet.drop (itLen (packet ++ t.revBuffer.bytes.drop packet.length)), port.linkType,
            port.withFcs, 0⟩
        else none) ∧
      t'.revBuffer.bytes = packet ++ t.revBuffer.bytes.drop packet.length ∧ t'.cb = t.cb := by
  refine ⟨_, receive_eq_some.mpr ⟨fun p hp => ?_, Prod.ext rfl (snifferBody_some port hfits t)⟩,
    snifferBody_revBuffer port hfits t, snifferBody_cb port _ t⟩
  cases hp
  exact hfits

/-- A sniffer calls for every packet that gives a frame. -/
theorem length_frames_le {packets : List (Option (List Byte))} {h : List (Option (List Byte) × Option Frame)}
    (hr : run (receive port) t packets = some (t', h)) (hcb : t.cb = cb) :
    (packets.filterMap (frameOf port cb)).length ≤ (h.filterMap Prod.snd).length := by
  induction packets generalizing t h with
  | nil => exact Nat.zero_le _
  | cons packet packets ih =>
    obtain ⟨t₁, f, h', hs, hr', rfl⟩ := run_cons hr
    obtain ⟨hfits, hb⟩ := receive_eq_some.mp hs
    have hf : (snifferBody port packet t).2 = f := congrArg Prod.snd hb
    have hle := ih hr' (by rw [← hcb, ← snifferBody_cb port packet t, hb])
    have hhead : f = none → frameOf port cb packet = none := by
      intro hnone
      by_cases he : EndsInHeader t packet
      · exact (snifferBody_endsInHeader port cb hfits he).2
      · rw [← snifferBody_frameOf hfits hcb he, hf, hnone]
    rw [List.filterMap_cons, List.filterMap_cons]
    cases hfo : frameOf port cb packet with
    | none => cases f <;> simp only [List.length_cons] <;> omega
    | some g =>
      cases f with
      | none => rw [hhead rfl] at hfo; cases hfo
      | some f => simp only [List.length_cons]; omega

/-- The calls of a sniffer, in order, are those that the packets give one by
one, exactly if no packet ends in the header while `rev_buffer` makes that a
short one. -/
theorem frames_iff {packets : List (Option (List Byte))} {h : List (Option (List Byte) × Option Frame)}
    (hr : run (receive port) t packets = some (t', h)) :
    h.filterMap Prod.snd = packets.filterMap (frameOf port t.cb) ↔
      Along (receive port) (fun t packet => ¬ EndsInHeader t packet) t packets := by
  suffices key : ∀ cb, t.cb = cb → (h.filterMap Prod.snd = packets.filterMap (frameOf port cb) ↔
      Along (receive port) (fun t packet => ¬ EndsInHeader t packet) t packets) from key t.cb rfl
  intro cb hcb
  induction packets generalizing t h with
  | nil =>
    cases hr
    exact iff_of_true rfl trivial
  | cons packet packets ih =>
    obtain ⟨t₁, f, h', hs, hr', rfl⟩ := run_cons hr
    obtain ⟨hfits, hb⟩ := receive_eq_some.mp hs
    have hf : (snifferBody port packet t).2 = f := congrArg Prod.snd hb
    have hcb₁ : t₁.cb = cb := by rw [← hcb, ← snifferBody_cb port packet t, hb]
    rw [along_cons_of_step hs, ← ih hr' hcb₁, List.filterMap_cons, List.filterMap_cons]
    by_cases he : EndsInHeader t packet
    · -- a call too many, which nothing makes up for
      obtain ⟨hne, hnone⟩ := snifferBody_endsInHeader port cb hfits he
      rw [hf] at hne
      refine iff_of_false (fun heq => ?_) fun hc => hc.1 he
      obtain ⟨g, rfl⟩ := Option.ne_none_iff_exists'.mp hne
      have hle := length_frames_le hr' hcb₁
      rw [hnone] at heq
      have := congrArg List.length heq
      simp only [List.length_cons] at this
      omega
    · rw [and_iff_right he, ← snifferBody_frameOf hfits hcb he, hf]
      cases f with
      | none => exact Iff.rfl
      | some f => exact List.cons_inj_right f

/-- A failure of `recvfrom`, and a frame behind a header of four bytes. -/
theorem frames_once : ∃ t' h,
    run (receive jabsco) ⟨7, Buf.zero _, .recv⟩ [none, some [0, 0, 4, 0, 0x80]] = some (t', h) ∧
    (h.filterMap Prod.snd = [none, some [0, 0, 4, 0, 0x80]].filterMap (frameOf jabsco 7) ↔
      Along (receive jabsco) (fun t packet => ¬ EndsInHeader t packet) ⟨7, Buf.zero _, .recv⟩
        [none, some [0, 0, 4, 0, 0x80]]) := by
  obtain ⟨t₁, hs₁, -⟩ := receive_none jabsco ⟨7, Buf.zero _, .recv⟩
  obtain ⟨t₂, hs₂, -⟩ := receive_some jabsco (by decide : ([0, 0, 4, 0, 0x80] : List Byte).length ≤ maxRevBuffer) t₁
  have hr := (run_cons_of_step hs₁ _).trans (congrArg _ (run_cons_of_step hs₂ []))
  exact ⟨_, _, hr, frames_iff hr⟩

/-- A frame, and a packet that ends in its header. -/
def headerPackets : List (Option (List Byte)) := [some [0, 0, 4, 0, 0x80], some [0, 0, 2]]

/-- The second packet calls the callback with its third byte: the header length
that is read is 2, the high byte being one of the packet before. -/
theorem headerPackets_frames (port : Port) (t : Sniffer) :
    ∃ t' h, run (receive port) t headerPackets = some (t', h) ∧
      h.filterMap Prod.snd = [⟨t.cb, [0x80], port.linkType, port.withFcs, 0⟩,
        ⟨t.cb, [2], port.linkType, port.withFcs, 0⟩] := by
  obtain ⟨t₁, hs₁, hb₁, hcb₁⟩ := receive_some port (by decide : ([0, 0, 4, 0, 0x80] : List Byte).length ≤ maxRevBuffer) t
  obtain ⟨t₂, hs₂, -, -⟩ := receive_some port (by decide : ([0, 0, 2] : List Byte).length ≤ maxRevBuffer) t₁
  rw [hb₁, hcb₁] at hs₂
  have hr := (run_cons_of_step hs₁ _).trans (congrArg _ (run_cons_of_step hs₂ []))
  exact ⟨_, _, hr, rfl⟩

/-- In both wrappers there is a call for a packet that has no frame. -/
theorem frame_of_header :
    (∃ t' h, run (receive ubuntu) ⟨7, Buf.zero _, .recv⟩ headerPackets = some (t', h) ∧
      h.filterMap Prod.snd ≠ headerPackets.filterMap (frameOf ubuntu 7)) ∧
    ∃ t' h, run (receive jabsco) ⟨7, Buf.zero _, .recv⟩ headerPackets = some (t', h) ∧
      h.filterMap Prod.snd ≠ headerPackets.filterMap (frameOf jabsco 7) := by
  have hcalls (port : Port) : ∃ t' h, run (receive port) ⟨7, Buf.zero _, .recv⟩ headerPackets = some (t', h) ∧
      h.filterMap Prod.snd ≠ headerPackets.filterMap (frameOf port 7) := by
    obtain ⟨t', h, hr, hcalls⟩ := headerPackets_frames port ⟨7, Buf.zero _, .recv⟩
    refine ⟨t', h, hr, ?_⟩
    rw [hcalls]
    exact fun he => nomatch congrArg List.length he
  exact ⟨hcalls ubuntu, hcalls jabsco⟩

end Linkkit.Proof.Awss
