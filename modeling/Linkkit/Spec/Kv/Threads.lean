import Linkkit.Impl.Kv.Threads
import Linkkit.Spec.Kv

/-!
# What two threads that set a key are promised

Each of the keys is found with the value that its thread set (`BothFound`);
and the steps that lose one of them (`Harms`).
-/

namespace Linkkit.Spec.Kv

open Impl.Kv

variable (calls : Thread → SetCall)

/-- Both calls returned 0. -/
def BothSet (s : Shared) : Prop := ∀ t, s.pc t = .done 0

/-- `HAL_Kv_Get` finds both keys, with the values of the calls. -/
def BothFound (s : Shared) : Prop :=
  ∀ t, Gets s.store (calls t).key ((calls t).val.take (calls t).len.toInt.toNat)

/-- A key of at most 127 bytes and a value of at most 512. -/
def Small (c : SetCall) : Prop := c.key.bytes.length ≤ 127 ∧ c.len.toInt ≤ 512

/-- The thread has written its row. -/
def Wrote : Pc → Prop
  | .unlock _ ret => ret = 0
  | .ret ret => ret = 0
  | .done ret => ret = 0
  | _ => False

/-- The thread has read its row and not written it yet. -/
def Writing : Pc → Prop
  | .write _ _ => True
  | _ => False

/-- The next step of `t` loses a key: a write of `create_hash_file` clears the
row that the other thread has written; or `t` reads the row that the other
thread has read and not written yet. -/
def Harms (s : Shared) (t : Thread) : Prop :=
  match s.pc t with
  | .create i => Wrote (s.pc t.other) ∧ hashGen (calls t.other).key = i
  | .read _ => Writing (s.pc t.other) ∧ hashGen (calls t.other).key = hashGen (calls t).key
  | _ => False

end Linkkit.Spec.Kv
