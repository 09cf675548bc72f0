import Linkkit.Spec.Kv

/-!
# A call and its row

Whatever a file of the full size holds (`FullFile`), a call does something to
the row of its key, which depends on nothing else (`RowCall.onRow`).
-/

namespace Linkkit.Spec.Kv

open Impl.Kv

/-- A call for a key, its other arguments as they come. -/
inductive RowCall where
  | set (key : CString) (val : Option (List Byte)) (len : Int32)
  | get (key : CString) (val : Option (List Byte)) (bufferLen : Option Int32)
  | del (key : CString)

namespace RowCall

def key : RowCall → CString
  | set key _ _ => key
  | get key _ _ => key
  | del key => key

/-- What a caller must grant: as many bytes at `val` as the call says. -/
def InBounds : RowCall → Prop
  | set _ val len => ∀ v ∈ val, len.toInt ≤ v.length
  | get _ val bufferLen => ∀ v ∈ val, ∀ n ∈ bufferLen, n.toInt ≤ v.length
  | del _ => True

/-- A call, all system calls succeeding. -/
def run (s : KvState) : RowCall → Option (KvState × Reply)
  | set key val len => (halKvSet .ok s (some key) val len).map fun r => (r.1, .set r.2)
  | get key val bufferLen =>
    (halKvGet .ok s (some key) val bufferLen).map fun r => (r.1, .get r.2.1 r.2.2.1 r.2.2.2)
  | del key => (halKvDel .ok s (some key)).map fun r => (r.1, .del r.2)

/-- The row of the key after a call, and the reply. -/
def onRow : RowCall → List KvItem → Option (List KvItem × Reply)
  | set _ none _, row => some (row, .set (-1))
  | set key (some val) len, row =>
    if len ≤ 0 then some (row, .set (-1))
    else
      (putWalk key val (if len > Int32.ofNat itemMaxValLen then Int32.ofNat itemMaxValLen else len) row).map
        fun r => match r with
          | none => (row, .set (-1))
          | some kv => (kv, .set 0)
  | get key (some val) (some n), row =>
    if n ≤ 0 then some (row, .get (-1) (some val) (some n))
    else
      (getWalk key row).bind fun r => match r with
        | none => some (row, .get (-1) (some val) (some n))
        | some p =>
          let n := if p.valueLen < n then p.valueLen else n
          (memcpy val 0 p.value.bytes (sizeT n)).map fun val => (row, .get 0 (some val) (some n))
  | get _ val bufferLen, row => some (row, .get (-1) val bufferLen)
  | del key, row => (rmWalk key row).map fun kv => (kv, .del 0)

end RowCall

/-- A file of the full size whose items have lengths of at most 512 and keys
with a terminator. -/
structure FullFile (f : List Byte) : Prop where
  length : f.length = tableColSize * rowLen
  items : ∀ i < tableColSize, ∀ p ∈ rowAt f i,
    0 ≤ p.valueLen.toInt ∧ p.valueLen.toInt ≤ itemMaxValLen ∧ 0 ∈ p.key.bytes

/-- The disk holds the file `f` but for bytes of row `i`. -/
def SameButRow (i : Nat) (f : List Byte) (disk : Option (List Byte)) : Prop :=
  ∃ f', disk = some f' ∧ f'.length = f.length ∧
    ∀ j, ¬ (i * rowLen ≤ j ∧ j < i * rowLen + rowLen) → f'[j]? = f[j]?

end Linkkit.Spec.Kv
