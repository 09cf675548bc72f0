import Linkkit.Framework.Absorb
import Linkkit.Impl.Sha256

/-!
# What `utils_sha256_update` keeps

`Streamed start m ctx` is what holds of a context that was `start` after
`utils_sha256_starts` and has been fed the bytes `m`. `updateChecked` is
`utils_sha256_update` in which a subtraction from `ilen` that would go below
zero has no value; nor has a read past the chunk, or a store past `buffer`.
-/

namespace Linkkit.Spec.Sha256

open Impl.Sha256

/-- The context after the bytes `m`, from `start`. -/
structure Streamed (start : Context) (m : List Byte) (ctx : Context) : Prop where
  count : (ctx.total.get 1).toNat * 0x100000000 + (ctx.total.get 0).toNat = m.length % 0x10000000000000000
  state : ((fullBlocks 64 m).foldlM utilsSha256Process start).map Context.state = some ctx.state
  rest : ctx.buffer.bytes.take ((ctx.total.get 0).toNat % 64) = m.drop (64 * (m.length / 64))

/-- The check of `ilen -= n`. -/
def noBorrow (ilen : UInt32) (n : Nat) : Option Unit := if n ≤ ilen.toNat then some () else none

/-- The `while (ilen >= 64)`, its subtraction checked. -/
def wholeBlocksChecked (ctx : Context) (input : List Byte) (ilen : UInt32) :
    Option (Context × List Byte × UInt32) :=
  if _ : 64 ≤ ilen then do
    let ctx ← utilsSha256Process ctx input
    noBorrow ilen 64
    wholeBlocksChecked ctx (input.drop 64) (ilen - 64)
  else some (ctx, input, ilen)
termination_by ilen.toNat
decreasing_by
  rename_i h
  have hle : 64 ≤ ilen.toNat := UInt32.le_iff_toNat_le.mp h
  rw [UInt32.toNat_sub_of_le _ _ h]
  exact Nat.sub_lt (by omega) (by decide)

/-- The `if (left && ilen >= fill)`, its subtraction checked. -/
def fillBlockChecked (ctx : Context) (input : List Byte) (ilen left : UInt32) :
    Option (Context × List Byte × UInt32 × UInt32) :=
  let fill := 64 - left.toNat
  if left ≠ 0 ∧ fill ≤ ilen.toNat then do
    let buffer ← ctx.buffer.memcpy left.toNat input fill
    let ctx ← utilsSha256Process { ctx with buffer } buffer.bytes
    noBorrow ilen fill
    return (ctx, input.drop fill, ilen - UInt32.ofNat fill, 0)
  else some (ctx, input, ilen, left)

/-- `utils_sha256_update`, its subtractions checked. -/
def updateChecked (ctx : Context) (input : List Byte) (ilen : UInt32) : Option Context :=
  if ilen = 0 then some ctx
  else do
    let left := ctx.total.get 0 &&& 0x3F
    let ctx := { ctx with total := addTotal ctx.total ilen }
    let (ctx, input, ilen, left) ← fillBlockChecked ctx input ilen left
    let (ctx, input, ilen) ← wholeBlocksChecked ctx input ilen
    keepRest ctx input ilen left

/-- `updateChecked` on each chunk in order. -/
def updatesChecked (ctx : Context) (chunks : List (List Byte)) : Option Context :=
  chunks.foldlM (fun ctx c => updateChecked ctx c (UInt32.ofNat c.length)) ctx

end Linkkit.Spec.Sha256
