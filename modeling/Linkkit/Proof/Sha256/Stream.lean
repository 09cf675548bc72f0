import Linkkit.Proof.Sha256.Process

/-!
# The streaming digest

`Fed m ctx`: `ctx` has been started and fed the bytes `m`, in whatever chunks.
Its counter is their number modulo 2⁶⁴, its state the one after the whole
blocks of `m`, and the first bytes of its buffer those of `m` after them.
`update_fed` goes through the three phases of `utils_sha256_update`, which
fill the pending block, hash whole blocks from the input, and keep the rest.
-/

namespace Linkkit.Proof.Sha256

open Impl.Sha256
open Spec.Sha256 (compress initial pad padZeros sha256)

/-- The context after the bytes `m`. -/
structure Fed (m : List Byte) (ctx : Context) : Prop where
  count : (ctx.total.get 1).toNat * 0x100000000 + (ctx.total.get 0).toNat = m.length % 0x10000000000000000
  absorbed : Absorbed 64 compress initial m (vars ctx.state) (ctx.buffer.bytes.take (m.length % 64))
  sha256 : ctx.is224 = 0

theorem initial_eq : initial = ⟨0x6A09E667, 0xBB67AE85, 0x3C6EF372, 0xA54FF53A, 0x510E527F,
    0x9B05688C, 0x1F83D9AB, 0x5BE0CD19⟩ := by decide +kernel

theorem vars_starts (ctx : Context) : vars (utilsSha256Starts ctx).state = initial := by
  rw [initial_eq]; rfl

theorem starts_fed (ctx : Context) : Fed [] (utilsSha256Starts ctx) where
  count := by
    show (0 : UInt32).toNat * 0x100000000 + (0 : UInt32).toNat = 0 % 0x10000000000000000
    rw [UInt32.toNat_zero, Nat.zero_mul, Nat.zero_mod]
  absorbed := by
    rw [vars_starts]
    exact Absorbed.nil (by decide) initial
  sha256 := rfl

/-! ## The counter -/

theorem toNat_left {ctx : Context} {m : List Byte} (h : Fed m ctx) :
    (ctx.total.get 0 &&& 0x3F).toNat = m.length % 64 := by
  have hc := h.count
  have ha : (ctx.total.get 0 &&& 0x3F).toNat = (ctx.total.get 0).toNat % 64 := by
    rw [UInt32.toNat_and]
    exact Nat.and_two_pow_sub_one_eq_mod _ 6
  rw [ha]
  omega

/-- The sum of two words overflows exactly if it is less than one of them. -/
theorem carry (t₀ t₁ n : UInt32) :
    (if (t₀ + n) &&& 0xFFFFFFFF < n then t₁ + 1 else t₁).toNat * 0x100000000 + ((t₀ + n) &&& 0xFFFFFFFF).toNat =
      (t₁.toNat * 0x100000000 + t₀.toNat + n.toNat) % 0x10000000000000000 := by
  have h₀ := t₀.toNat_lt
  have h₁ := t₁.toNat_lt
  have hn := n.toNat_lt
  have hmask : (t₀ + n) &&& (0xFFFFFFFF : UInt32) = t₀ + n := by
    apply UInt32.toNat_inj.mp
    rw [UInt32.toNat_and]
    exact (Nat.and_two_pow_sub_one_eq_mod _ 32).trans (Nat.mod_eq_of_lt (UInt32.toNat_lt _))
  have hs : (t₀ + n).toNat = (t₀.toNat + n.toNat) % 0x100000000 := UInt32.toNat_add ..
  have hs₁ : (t₁ + 1).toNat = (t₁.toNat + 1) % 0x100000000 := UInt32.toNat_add ..
  rw [hmask, hs]
  split
  · rename_i hlt
    have hlt : (t₀ + n).toNat < n.toNat := UInt32.lt_iff_toNat_lt.mp hlt
    rw [hs₁]
    omega
  · rename_i hge
    have hge : ¬ (t₀ + n).toNat < n.toNat := fun hc => hge (UInt32.lt_iff_toNat_lt.mpr hc)
    omega

theorem addTotal_eq (total : Vector UInt32 2) (ilen : UInt32) :
    ((addTotal total ilen).get 1).toNat * 0x100000000 + ((addTotal total ilen).get 0).toNat =
      ((total.get 1).toNat * 0x100000000 + (total.get 0).toNat + ilen.toNat) % 0x10000000000000000 := by
  have ht : total = #v[total.get 0, total.get 1] := by
    apply Vector.ext
    intro i hi
    rcases (by omega : i = 0 ∨ i = 1) with rfl | rfl <;> rfl
  rw [← carry]
  generalize total.get 0 = t₀, total.get 1 = t₁ at ht
  subst ht
  by_cases hc : (t₀ + ilen) &&& 0xFFFFFFFF < ilen
  · have ha : addTotal #v[t₀, t₁] ilen = #v[(t₀ + ilen) &&& 0xFFFFFFFF, t₁ + 1] := if_pos hc
    rw [ha, if_pos hc]
    rfl
  · have ha : addTotal #v[t₀, t₁] ilen = #v[(t₀ + ilen) &&& 0xFFFFFFFF, t₁] := if_neg hc
    rw [ha, if_neg hc]
    rfl

/-! ## Update -/

/-- `process` on whole blocks in a row. -/
theorem process_absorbed {m : List Byte} {ctx : Context} {data : List Byte}
    (h : Absorbed 64 compress initial m (vars ctx.state) []) (hd : 64 ≤ data.length) :
    ∃ state, utilsSha256Process ctx data = some { ctx with state } ∧
      Absorbed 64 compress initial (m ++ data.take 64) (vars state) [] := by
  obtain ⟨state, hs, hv⟩ := process_eq hd ctx
  have hl : (data.take 64).length = 64 := by rw [List.length_take, Nat.min_eq_left hd]
  refine ⟨state, hs, ?_⟩
  rw [hv]
  exact h.block (by decide) (by rw [hl, List.length_nil])

theorem wholeBlocks_absorbed {m : List Byte} (ctx : Context) {input : List Byte} {ilen : UInt32}
    (h : Absorbed 64 compress initial m (vars ctx.state) []) (hi : ilen.toNat ≤ input.length) :
    ∃ state q r, wholeBlocks ctx input ilen = some ({ ctx with state }, input.drop q, r) ∧
      q + r.toNat = ilen.toNat ∧ r.toNat < 64 ∧
      Absorbed 64 compress initial (m ++ input.take q) (vars state) [] := by
  induction ctx, input, ilen using wholeBlocks.induct generalizing m with
  | case1 ctx input ilen hle ih =>
    have hn : 64 ≤ ilen.toNat := UInt32.le_iff_toNat_le.mp hle
    have hsub : (ilen - 64).toNat = ilen.toNat - 64 := UInt32.toNat_sub_of_le _ _ hle
    obtain ⟨state, hp, ha⟩ := process_absorbed h (show 64 ≤ input.length by omega)
    obtain ⟨state', q, r, hw, hq, hr, ha'⟩ := ih { ctx with state } ha (by rw [List.length_drop]; omega)
    refine ⟨state', 64 + q, r, ?_, by omega, hr, ?_⟩
    · rw [wholeBlocks, dif_pos hle, hp, Option.bind_eq_bind, Option.bind_some, hw, List.drop_drop]
    · rwa [List.append_assoc, ← List.take_add] at ha'
  | case2 ctx input ilen hlt =>
    have hn : ilen.toNat < 64 := Nat.lt_of_not_le fun hc => hlt (UInt32.le_iff_toNat_le.mpr hc)
    refine ⟨ctx.state, 0, ilen, ?_, Nat.zero_add _, hn, ?_⟩
    · rw [wholeBlocks, dif_neg hlt, List.drop_zero]
    · rwa [List.take_zero, List.append_nil]

/-- The block that the pending bytes are in, if the input reaches its end. -/
theorem fillBlock_absorbed {m : List Byte} {ctx : Context} {input : List Byte} {ilen left : UInt32}
    (h : Absorbed 64 compress initial m (vars ctx.state) (ctx.buffer.bytes.take left.toNat))
    (hl : left.toNat < 64) (hi : ilen.toNat ≤ input.length)
    (hf : left ≠ 0 → 64 ≤ left.toNat + ilen.toNat) :
    ∃ state buffer q r, fillBlock ctx input ilen left =
        some ({ ctx with state, buffer }, input.drop q, r, 0) ∧ q + r.toNat = ilen.toNat ∧
      Absorbed 64 compress initial (m ++ input.take q) (vars state) [] := by
  by_cases h0 : left = 0
  · subst h0
    refine ⟨ctx.state, ctx.buffer, 0, ilen, ?_, Nat.zero_add _, ?_⟩
    · rw [fillBlock, if_neg (fun hc => hc.1 rfl), List.drop_zero]
    · rwa [List.take_zero, List.append_nil]
  · have hfill := hf h0
    have hr : (ilen - UInt32.ofNat (64 - left.toNat)).toNat = ilen.toNat - (64 - left.toNat) := by
      have ho : (UInt32.ofNat (64 - left.toNat)).toNat = 64 - left.toNat :=
        UInt32.toNat_ofNat_of_lt' (by show _ < 4294967296; omega)
      rw [UInt32.toNat_sub_of_le _ _ (UInt32.le_iff_toNat_le.mpr (by omega)), ho]
    obtain ⟨buffer, hb, ht⟩ := ctx.buffer.memcpy_take input
      (show left.toNat + (64 - left.toNat) ≤ 64 by omega) (by omega)
    have hlen := buffer.length_eq
    rw [List.take_of_length_le (by omega)] at ht
    obtain ⟨state, hp, hv⟩ := process_eq (Nat.le_of_eq hlen.symm) { ctx with buffer }
    refine ⟨state, buffer, 64 - left.toNat, ilen - UInt32.ofNat (64 - left.toNat), ?_, ?_, ?_⟩
    · rw [fillBlock, if_pos ⟨h0, by omega⟩, hb, Option.bind_eq_bind, Option.bind_some, hp]
      rfl
    · omega
    · rw [hv, List.take_of_length_le (Nat.le_of_eq hlen), ht]
      refine h.block (by decide) ?_
      rw [List.length_take, List.length_take, ctx.buffer.length_eq]
      omega

theorem keepRest_absorbed {m : List Byte} (ctx : Context) (input : List Byte) {ilen : UInt32} (left : UInt32)
    (h : Absorbed 64 compress initial m (vars ctx.state) (ctx.buffer.bytes.take left.toNat))
    (hl : left.toNat + ilen.toNat < 64) (hi : ilen.toNat ≤ input.length) :
    ∃ buffer, keepRest ctx input ilen left = some { ctx with buffer } ∧
      Absorbed 64 compress initial (m ++ input.take ilen.toNat) (vars ctx.state)
        (buffer.bytes.take (left.toNat + ilen.toNat)) := by
  by_cases h0 : 0 < ilen
  · obtain ⟨buffer, hb, ht⟩ := ctx.buffer.memcpy_take input (Nat.le_of_lt hl) hi
    refine ⟨buffer, by rw [keepRest, if_pos h0, hb]; rfl, ?_⟩
    rw [ht]
    refine h.append ?_
    rw [List.length_take, List.length_take]
    omega
  · have hz : ilen.toNat = 0 := by
      have := mt UInt32.lt_iff_toNat_lt.mpr h0
      exact Nat.eq_zero_of_not_pos this
    refine ⟨ctx.buffer, by rw [keepRest, if_neg h0], ?_⟩
    rwa [hz, List.take_zero, List.append_nil, Nat.add_zero]

/-- The three phases. -/
theorem phases_absorbed {m : List Byte} (ctx : Context) {input : List Byte} {ilen left : UInt32}
    (h : Absorbed 64 compress initial m (vars ctx.state) (ctx.buffer.bytes.take left.toNat))
    (hl : left.toNat = m.length % 64) (hi : ilen.toNat ≤ input.length) :
    ∃ state buffer, (do
        let (ctx, input, ilen, left) ← fillBlock ctx input ilen left
        let (ctx, input, ilen) ← wholeBlocks ctx input ilen
        keepRest ctx input ilen left) = some { ctx with state, buffer } ∧
      Absorbed 64 compress initial (m ++ input.take ilen.toNat) (vars state)
        (buffer.bytes.take ((m ++ input.take ilen.toNat).length % 64)) := by
  have hlen : (m ++ input.take ilen.toNat).length = m.length + ilen.toNat := by
    rw [List.length_append, List.length_take, Nat.min_eq_left hi]
  rw [hlen]
  by_cases hf : left ≠ 0 → 64 ≤ left.toNat + ilen.toNat
  · obtain ⟨state₁, buffer₁, q₁, r₁, hfill, hq₁, ha₁⟩ :=
      fillBlock_absorbed h (by omega) hi hf
    have hi₁ : r₁.toNat ≤ (input.drop q₁).length := by rw [List.length_drop]; omega
    obtain ⟨state₂, q₂, r₂, hwhole, hq₂, hr, ha₂⟩ :=
      wholeBlocks_absorbed { ctx with state := state₁, buffer := buffer₁ } ha₁ hi₁
    rw [List.append_assoc, ← List.take_add] at ha₂
    obtain ⟨buffer, hkeep, ha⟩ := keepRest_absorbed { ctx with state := state₂, buffer := buffer₁ }
      ((input.drop q₁).drop q₂) 0 ha₂ (show 0 + r₂.toNat < 64 by omega)
      (by rw [List.length_drop, List.length_drop]; omega)
    refine ⟨state₂, buffer, ?_, ?_⟩
    · simp only [hfill, hwhole, hkeep, Option.bind_eq_bind, Option.bind_some]
    · rw [List.append_assoc, List.drop_drop, ← List.take_add] at ha
      have hn : q₁ + q₂ + r₂.toNat = ilen.toNat := by omega
      rw [hn] at ha
      have hmod := (ha.eq (by decide)).2
      have hz : (0 : UInt32).toNat + r₂.toNat = r₂.toNat := Nat.zero_add _
      rw [hlen, hz, List.length_take, buffer.length_eq, Nat.min_eq_left (Nat.le_of_lt hr)] at hmod
      rwa [hz, hmod] at ha
  · have hlt : left ≠ 0 ∧ left.toNat + ilen.toNat < 64 := by
      rw [Classical.not_imp] at hf
      exact ⟨hf.1, Nat.lt_of_not_le hf.2⟩
    have hsmall : ¬ 64 ≤ ilen := fun hc => by
      have : 64 ≤ ilen.toNat := UInt32.le_iff_toNat_le.mp hc
      omega
    obtain ⟨buffer, hkeep, ha⟩ := keepRest_absorbed ctx input left h hlt.2 hi
    refine ⟨ctx.state, buffer, ?_, ?_⟩
    · rw [fillBlock, if_neg (fun hc => by omega)]
      simp only [Option.bind_eq_bind, Option.bind_some]
      rw [wholeBlocks, dif_neg hsmall]
      simp only [Option.bind_some, hkeep]
    · have hmod : (m.length + ilen.toNat) % 64 = left.toNat + ilen.toNat := by omega
      rwa [hmod]

/-- `utils_sha256_update`: the bytes of the chunk are fed. -/
theorem update_fed {m : List Byte} {ctx : Context} (h : Fed m ctx) {input : List Byte} {ilen : UInt32}
    (hi : ilen.toNat ≤ input.length) :
    ∃ ctx', utilsSha256Update ctx input ilen = some ctx' ∧ Fed (m ++ input.take ilen.toNat) ctx' := by
  by_cases h0 : ilen = 0
  · subst h0
    refine ⟨ctx, by rw [utilsSha256Update, if_pos rfl], ?_⟩
    rwa [UInt32.toNat_zero, List.take_zero, List.append_nil]
  · have hl := toNat_left h
    have ha := h.absorbed
    rw [← hl] at ha
    obtain ⟨state, buffer, hp, ha'⟩ :=
      phases_absorbed { ctx with total := addTotal ctx.total ilen } ha hl hi
    refine ⟨⟨addTotal ctx.total ilen, state, buffer, ctx.is224⟩, ?_, ?_, ha', h.sha256⟩
    · rw [utilsSha256Update, if_neg h0]
      exact hp
    · rw [addTotal_eq, h.count, List.length_append, List.length_take, Nat.min_eq_left hi, Nat.mod_add_mod]

end Linkkit.Proof.Sha256
