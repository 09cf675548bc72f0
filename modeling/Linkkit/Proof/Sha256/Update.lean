import Linkkit.Proof.Sha256.Digest
import Linkkit.Spec.Sha256.Update

/-!
# The context between updates

`Fed` speaks of the working variables and of `compress`; here it becomes a fold
of `utils_sha256_process` itself (`fed_streamed`). The checks of
`updateChecked` never fail (`updateChecked_eq`), so that `updates_streamed`
holds of the function with them and without.
-/

namespace Linkkit.Proof.Sha256

open Impl.Sha256
open Spec.Sha256 (compress Streamed noBorrow wholeBlocksChecked fillBlockChecked updateChecked updatesChecked)

/-! ## Blocks -/

/-- `utils_sha256_process` on blocks, one after the other. -/
theorem foldlM_process (ctx : Context) {blocks : List (List Byte)} (hb : ∀ b ∈ blocks, b.length = 64) :
    ∃ state, blocks.foldlM utilsSha256Process ctx = some { ctx with state } ∧
      vars state = blocks.foldl compress (vars ctx.state) := by
  let P : List (List Byte) → Context → Prop := fun p c =>
    ∃ state, c = { ctx with state } ∧ vars state = p.foldl compress (vars ctx.state)
  have hstep : ∀ p, ∀ b ∈ blocks, ∀ c, P p c → ∃ c', utilsSha256Process c b = some c' ∧ P (p ++ [b]) c' := by
    rintro p b hmem c ⟨state, rfl, hv⟩
    obtain ⟨state', hs, hv'⟩ := process_eq (Nat.le_of_eq (hb b hmem).symm) { ctx with state }
    refine ⟨{ ctx with state := state' }, hs, state', rfl, ?_⟩
    rw [hv', hv, List.take_of_length_le (Nat.le_of_eq (hb b hmem)), List.foldl_append, List.foldl_cons,
      List.foldl_nil]
  obtain ⟨c, hc, state, rfl, hv⟩ := foldlM_prefix hstep (show P [] ctx from ⟨ctx.state, rfl, rfl⟩)
  exact ⟨state, hc, hv⟩

theorem fed_streamed {start ctx : Context} {m : List Byte} (hs : Fed [] start) (h : Fed m ctx) :
    Streamed start m ctx where
  count := h.count
  state := by
    obtain ⟨state, hf, hv⟩ := foldlM_process start
      (show ∀ b ∈ fullBlocks 64 m, b.length = 64 from fun _ => length_of_mem_fullBlocks)
    rw [hf, Option.map_some, Option.some.injEq]
    apply vars_injective
    rw [hv, (hs.absorbed.eq (by decide)).1, absorb_nil, (h.absorbed.eq (by decide)).1, absorb_eq_foldl]
  rest := by
    have hc := h.count
    rw [← h.absorbed.rest (by decide)]
    congr 1
    omega

/-! ## Checks -/

theorem wholeBlocksChecked_eq (ctx : Context) (input : List Byte) (ilen : UInt32) :
    wholeBlocksChecked ctx input ilen = wholeBlocks ctx input ilen := by
  induction ctx, input, ilen using wholeBlocks.induct with
  | case1 ctx input ilen hle ih =>
    have hn : 64 ≤ ilen.toNat := UInt32.le_iff_toNat_le.mp hle
    rw [wholeBlocksChecked, wholeBlocks, dif_pos hle, dif_pos hle]
    simp only [noBorrow, hn, if_true, Option.bind_some, Option.bind_eq_bind, ih]
  | case2 ctx input ilen hlt => rw [wholeBlocksChecked, wholeBlocks, dif_neg hlt, dif_neg hlt]

theorem fillBlockChecked_eq (ctx : Context) (input : List Byte) (ilen left : UInt32) :
    fillBlockChecked ctx input ilen left = fillBlock ctx input ilen left := by
  rw [fillBlockChecked, fillBlock]
  split
  · rename_i h
    simp only [noBorrow, h.2, if_true, Option.bind_some, Option.bind_eq_bind]
  · rfl

theorem updateChecked_eq (ctx : Context) (input : List Byte) (ilen : UInt32) :
    updateChecked ctx input ilen = utilsSha256Update ctx input ilen := by
  simp only [updateChecked, utilsSha256Update, fillBlockChecked_eq, wholeBlocksChecked_eq]
  rfl

theorem updatesChecked_eq (ctx : Context) (chunks : List (List Byte)) :
    updatesChecked ctx chunks = updates ctx chunks := by
  simp only [updatesChecked, updates, updateChecked_eq]

/-! ## Any chunks -/

/-- The context after `utils_sha256_starts` and chunks of any number and any
length below 2³². -/
theorem updates_streamed (ctx : Context) {chunks : List (List Byte)} (hc : ∀ c ∈ chunks, c.length < 0x100000000) :
    ∃ ctx', updatesChecked (utilsSha256Starts ctx) chunks = some ctx' ∧
      updates (utilsSha256Starts ctx) chunks = some ctx' ∧
      Streamed (utilsSha256Starts ctx) chunks.flatten ctx' := by
  obtain ⟨ctx', hu, hf⟩ := updates_fed (starts_fed ctx) hc
  exact ⟨ctx', by rw [updatesChecked_eq, hu], hu, fed_streamed (starts_fed ctx) hf⟩

theorem updates_streamed_abc :
    let ctx : Context := ⟨#v[3, 1], #v[1, 1, 2, 3, 5, 8, 13, 21], Buf.zero 64, 1⟩
    ∃ ctx', updatesChecked (utilsSha256Starts ctx) [ascii "a", [], ascii "bc"] = some ctx' ∧
      updates (utilsSha256Starts ctx) [ascii "a", [], ascii "bc"] = some ctx' ∧
      Streamed (utilsSha256Starts ctx) (ascii "abc") ctx' := by
  intro ctx
  exact updates_streamed ctx (show ∀ c ∈ [ascii "a", [], ascii "bc"], c.length < 0x100000000 by decide)

end Linkkit.Proof.Sha256
