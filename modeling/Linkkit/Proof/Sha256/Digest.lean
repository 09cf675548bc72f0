import Linkkit.Framework.Loop
import Linkkit.Proof.Sha256.Stream

/-!
# The streaming digest is SHA-256

`utils_sha256_finish` feeds the padding and the length to a context that has
been fed a message, which makes it the padded message, and writes the state
(`finish_eq`). The length is a number of bits in 64, so the message is shorter
than 2⁶¹ bytes. `streaming_digest` is the digest of a message in any chunks.
-/

namespace Linkkit.Proof.Sha256

open Impl.Sha256
open Spec.Sha256 (compress initial pad padZeros sha256)

/-! ## The length field -/

/-- The two words of the length, from those of the counter. -/
theorem length_words {t₀ t₁ : UInt32} {n : Nat} (hn : n < 0x2000000000000000)
    (h : t₁.toNat * 0x100000000 + t₀.toNat = n) :
    beBytes 4 ((t₀ >>> 29) ||| (t₁ <<< 3)).toNat ++ beBytes 4 (t₀ <<< 3).toNat = beBytes 8 (8 * n) := by
  have h₀ := t₀.toNat_lt
  have hhigh : ((t₀ >>> 29) ||| (t₁ <<< 3)).toNat = 8 * t₁.toNat + t₀.toNat / 0x20000000 := by
    have hlt : t₀.toNat / 0x20000000 < 8 := by omega
    have hs : (t₁ <<< 3).toNat = t₁.toNat <<< 3 := by
      rw [UInt32.toNat_shiftLeft]
      show t₁.toNat <<< 3 % 2 ^ 32 = _
      rw [Nat.mod_eq_of_lt (by rw [Nat.shiftLeft_eq]; omega)]
    have hr : (t₀ >>> 29).toNat = t₀.toNat / 0x20000000 := by
      rw [UInt32.toNat_shiftRight]
      exact Nat.shiftRight_eq_div_pow _ 29
    rw [UInt32.toNat_or, hs, hr, Nat.or_comm, ← Nat.shiftLeft_add_eq_or_of_lt hlt, Nat.shiftLeft_eq,
      Nat.mul_comm]
  have hlow : (t₀ <<< 3).toNat = 8 * t₀.toNat % 0x100000000 := by
    rw [UInt32.toNat_shiftLeft]
    show t₀.toNat <<< 3 % 2 ^ 32 = _
    rw [Nat.shiftLeft_eq, Nat.mul_comm]
  rw [hhigh, hlow, ← beBytes_words _ (Nat.mod_lt _ (by decide))]
  congr 1
  omega

/-! ## The end of the padding -/

theorem putUint32Be_take {size : Nat} (n : UInt32) (b : Buf size) {i : Nat} (h : i + 4 ≤ size) :
    ∃ b', putUint32Be n b i = some b' ∧
      b'.bytes.take (i + 4) = b.bytes.take i ++ beBytes 4 n.toNat := by
  obtain ⟨b', hb, ht⟩ := b.memcpy_take (be32 n) h (Nat.le_refl 4)
  refine ⟨b', hb, ht.trans ?_⟩
  rw [show (be32 n).take 4 = be32 n from rfl, be32_eq]

/-- The digest is the words of the state, big-endian. -/
theorem putState_eq {ctx : Context} (h : ctx.is224 = 0) (output : Buf 32) :
    ∃ d, putState ctx output = some d ∧
      d.bytes = (vars ctx.state).words.flatMap fun x => beBytes 4 x.toNat := by
  obtain ⟨b₁, h₁, e₁⟩ := putUint32Be_take ctx.state[0] output (show 0 + 4 ≤ 32 by decide)
  obtain ⟨b₂, h₂, e₂⟩ := putUint32Be_take ctx.state[1] b₁ (show 4 + 4 ≤ 32 by decide)
  obtain ⟨b₃, h₃, e₃⟩ := putUint32Be_take ctx.state[2] b₂ (show 8 + 4 ≤ 32 by decide)
  obtain ⟨b₄, h₄, e₄⟩ := putUint32Be_take ctx.state[3] b₃ (show 12 + 4 ≤ 32 by decide)
  obtain ⟨b₅, h₅, e₅⟩ := putUint32Be_take ctx.state[4] b₄ (show 16 + 4 ≤ 32 by decide)
  obtain ⟨b₆, h₆, e₆⟩ := putUint32Be_take ctx.state[5] b₅ (show 20 + 4 ≤ 32 by decide)
  obtain ⟨b₇, h₇, e₇⟩ := putUint32Be_take ctx.state[6] b₆ (show 24 + 4 ≤ 32 by decide)
  obtain ⟨b₈, h₈, e₈⟩ := putUint32Be_take ctx.state[7] b₇ (show 28 + 4 ≤ 32 by decide)
  refine ⟨b₈, ?_, ?_⟩
  · simp only [putState, h₁, h₂, h₃, h₄, h₅, h₆, h₇, h₈, h, Option.bind_eq_bind, Option.bind_some, if_true]
  · have hlen := b₈.length_eq
    rw [List.take_of_length_le (by omega)] at e₈
    rw [e₈, e₇, e₆, e₅, e₄, e₃, e₂, e₁]
    simp only [List.take_zero, List.nil_append, List.append_assoc, vars, Spec.Sha256.Vars.words,
      List.flatMap_cons, List.flatMap_nil, List.append_nil]
    rfl

/-- `0x80`, and as many zeros as the length of the message calls for. -/
theorem padn_eq {n : Nat} {last : UInt32} (h : last.toNat = n % 64) : (padn last).toNat = padZeros n + 1 := by
  rw [padn, padZeros, ← h]
  split
  · rename_i hlt
    have hlt : last.toNat < 56 := UInt32.lt_iff_toNat_lt.mp hlt
    have hsub : (56 - last).toNat = 56 - last.toNat :=
      UInt32.toNat_sub_of_le _ _ (UInt32.le_iff_toNat_le.mpr (Nat.le_of_lt hlt))
    omega
  · rename_i hge
    have hge : ¬ last.toNat < 56 := fun hc => hge (UInt32.lt_iff_toNat_lt.mpr hc)
    have hsub : (120 - last).toNat = 120 - last.toNat :=
      UInt32.toNat_sub_of_le _ _ (UInt32.le_iff_toNat_le.mpr (show last.toNat ≤ 120 by omega))
    omega

theorem padding_take (n : Nat) : sha256Padding.take (padZeros n + 1) = 0x80 :: zeros (padZeros n) := by
  have hz : padZeros n < 64 := Nat.mod_lt _ (by decide)
  rw [sha256Padding, List.take_succ_cons, List.take_replicate, Nat.min_eq_left (by omega)]

/-- `utils_sha256_finish`: the digest of what was fed. -/
theorem finish_eq {m : List Byte} {ctx : Context} (h : Fed m ctx) (hm : m.length < 0x2000000000000000)
    (output : Buf 32) :
    ∃ ctx' d, utilsSha256Finish ctx output = some (ctx', d) ∧ d.bytes = sha256 m := by
  have hc : ctx.total[1].toNat * 0x100000000 + ctx.total[0].toNat = m.length :=
    h.count.trans (Nat.mod_eq_of_lt (by omega))
  obtain ⟨l₁, hl₁, e₁⟩ := putUint32Be_take ((ctx.total[0] >>> 29) ||| (ctx.total[1] <<< 3)) (Buf.zero 8)
    (show 0 + 4 ≤ 8 by decide)
  obtain ⟨l₂, hl₂, e₂⟩ := putUint32Be_take (ctx.total[0] <<< 3) l₁ (show 4 + 4 ≤ 8 by decide)
  have hlen := l₂.length_eq
  rw [e₁, List.take_zero, List.nil_append, length_words hm hc] at e₂
  have hp : (padn (ctx.total[0] &&& 0x3F)).toNat = padZeros m.length + 1 := padn_eq (toNat_left h)
  have hz : padZeros m.length < 64 := Nat.mod_lt _ (by decide)
  have hle : (padn (ctx.total[0] &&& 0x3F)).toNat ≤ sha256Padding.length := by rw [hp]; exact hz
  obtain ⟨ctx₁, hu₁, hf₁⟩ := update_fed h hle
  have h8 : (8 : UInt32).toNat = 4 + 4 := rfl
  obtain ⟨ctx₂, hu₂, hf₂⟩ := update_fed hf₁ (show (8 : UInt32).toNat ≤ l₂.bytes.length from Nat.le_of_eq hlen.symm)
  rw [hp, padding_take, h8, e₂] at hf₂
  obtain ⟨d, hd, ev⟩ := putState_eq hf₂.sha256 output
  refine ⟨ctx₂, d, ?_, ?_⟩
  · simp only [utilsSha256Finish, hl₁, hl₂, hu₁, hu₂, hd, Option.bind_eq_bind, Option.bind_some]
    rfl
  · rw [ev, (hf₂.absorbed.eq (by decide)).1]
    rfl

/-! ## A message in chunks -/

/-- `utils_sha256_update` on each chunk in order. -/
def updates (ctx : Context) (chunks : List (List Byte)) : Option Context :=
  chunks.foldlM (fun ctx c => utilsSha256Update ctx c (UInt32.ofNat c.length)) ctx

/-- `utils_sha256_init`, `utils_sha256_starts`, `utils_sha256_update` on each
chunk and `utils_sha256_finish`: `output` after them. -/
def streamDigest (ctx : Context) (chunks : List (List Byte)) (output : Buf 32) : Option (Buf 32) := do
  let ctx := utilsSha256Starts (utilsSha256Init ctx)
  let ctx ← updates ctx chunks
  let (_, output) ← utilsSha256Finish ctx output
  return output

theorem updates_fed {m : List Byte} {ctx : Context} (h : Fed m ctx) {chunks : List (List Byte)}
    (hc : ∀ c ∈ chunks, c.length < 0x100000000) :
    ∃ ctx', updates ctx chunks = some ctx' ∧ Fed (m ++ chunks.flatten) ctx' := by
  have hstep : ∀ p, ∀ c ∈ chunks, ∀ ctx, Fed (m ++ p.flatten) ctx →
      ∃ ctx', utilsSha256Update ctx c (UInt32.ofNat c.length) = some ctx' ∧ Fed (m ++ (p ++ [c]).flatten) ctx' := by
    intro p c hmem ctx h
    have hn : (UInt32.ofNat c.length).toNat = c.length := UInt32.toNat_ofNat_of_lt' (hc c hmem)
    obtain ⟨ctx', hu, h'⟩ := update_fed h (Nat.le_of_eq hn)
    rw [hn, List.take_length, List.append_assoc] at h'
    exact ⟨ctx', hu, by rwa [List.flatten_append, List.flatten_singleton]⟩
  exact foldlM_prefix hstep (show Fed (m ++ [].flatten) ctx by rwa [List.flatten_nil, List.append_nil])

/-- The bytes that `streamDigest` writes. -/
theorem streamDigest_bytes {chunks : List (List Byte)} (hc : ∀ c ∈ chunks, c.length < 0x100000000)
    (hm : chunks.flatten.length < 0x2000000000000000) (ctx : Context) (output : Buf 32) :
    ∃ d, streamDigest ctx chunks output = some d ∧ d.bytes = sha256 chunks.flatten := by
  obtain ⟨ctx₁, hu, hf⟩ := updates_fed (starts_fed (utilsSha256Init ctx)) hc
  obtain ⟨ctx₂, d, hd, hv⟩ := finish_eq hf hm output
  exact ⟨d, by simp only [streamDigest, hu, hd, Option.bind_eq_bind, Option.bind_some]; rfl, hv⟩

/-- The one-shot digest is that of one chunk. -/
theorem utilsSha256_stream (ctx : Context) (m : List Byte) (output : Buf 32) :
    utilsSha256 ctx m (UInt32.ofNat m.length) output = streamDigest ctx [m] output := by
  simp only [utilsSha256, streamDigest, updates, List.foldlM_cons, List.foldlM_nil, Option.bind_eq_bind,
    Option.pure_def, Option.bind_fun_some]

/-- The digest is SHA-256 whatever the chunks, and that of `utils_sha256`. -/
theorem streaming_digest {chunks : List (List Byte)} (hc : ∀ c ∈ chunks, c.length < 0x100000000)
    (hm : chunks.flatten.length < 0x2000000000000000) (ctx : Context) (output : Buf 32) :
    (∃ d, streamDigest ctx chunks output = some d ∧ d.bytes = sha256 chunks.flatten) ∧
    (∀ chunks', (∀ c ∈ chunks', c.length < 0x100000000) → chunks'.flatten = chunks.flatten →
      ∀ ctx' output', streamDigest ctx' chunks' output' = streamDigest ctx chunks output) ∧
    (chunks.flatten.length < 0x100000000 → ∀ ctx' output',
      utilsSha256 ctx' chunks.flatten (UInt32.ofNat chunks.flatten.length) output' =
        streamDigest ctx chunks output) := by
  obtain ⟨d, hd, hv⟩ := streamDigest_bytes hc hm ctx output
  have hsame : ∀ chunks', (∀ c ∈ chunks', c.length < 0x100000000) → chunks'.flatten = chunks.flatten →
      ∀ ctx' output', streamDigest ctx' chunks' output' = streamDigest ctx chunks output := by
    intro chunks' hc' he ctx' output'
    obtain ⟨d', hd', hv'⟩ := streamDigest_bytes hc' (he ▸ hm) ctx' output'
    rw [hd, hd', Option.some.injEq]
    exact Buf.ext (by rw [hv, hv', he])
  refine ⟨⟨d, hd, hv⟩, hsame, fun hl ctx' output' => ?_⟩
  rw [utilsSha256_stream]
  refine hsame [chunks.flatten] ?_ (by rw [List.flatten_singleton]) ctx' output'
  intro c hmem
  rwa [List.mem_singleton.mp hmem]

theorem streaming_digest_abc :
    let ctx : Context := ⟨#v[3, 1], #v[1, 1, 2, 3, 5, 8, 13, 21], Buf.zero 64, 1⟩
    let output := Buf.zero 32
    (∃ d, streamDigest ctx [ascii "a", [], ascii "bc"] output = some d ∧ d.bytes = sha256 (ascii "abc")) ∧
    streamDigest ctx [ascii "abc"] output = streamDigest ctx [ascii "a", [], ascii "bc"] output ∧
    utilsSha256 ctx (ascii "abc") 3 output = streamDigest ctx [ascii "a", [], ascii "bc"] output := by
  intro ctx output
  have h := streaming_digest (show ∀ c ∈ [ascii "a", [], ascii "bc"], c.length < 0x100000000 by decide)
    (by decide) ctx output
  exact ⟨h.1, h.2.1 [ascii "abc"] (by decide) (by decide) ctx output, h.2.2 (by decide) ctx output⟩

end Linkkit.Proof.Sha256
