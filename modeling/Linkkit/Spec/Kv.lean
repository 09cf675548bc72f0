import Linkkit.Framework.Machine
import Linkkit.Impl.Kv
import Mathlib.Logic.Function.Basic

/-!
# What the key-value store promises

Calls of `HAL_Kv_Set`, `HAL_Kv_Get` and `HAL_Kv_Del` with their arguments, run
one after the other (`step`, all system calls succeeding), and what the
history of a run says of a key: that its latest Set succeeded and no Del came
after (`LatestSet`), that it has a current value (`Current`, `Live`), or that
it was deleted or never set (`Deleted`).

Then the form of rows and items (`RowInv`, `Canonical`), the places where the
row walks go wrong, as conditions on a call and the state it is made in
(`OpensGap`, `HiddenKey`, `MissedKey`), calls in which system calls fail
(`Update`, `OpenEvent`), and the map with at most two keys a row that the store
is without `HAL_Kv_Del` (`RowMap`).
-/

namespace Linkkit.Spec.Kv

open Impl.Kv

/-! ## Calls and histories -/

/-- A call: the value of a Set is the first `len` bytes at `val`; the buffer
of a Get holds `buf`, and `*buffer_len` is `n`. -/
inductive Call where
  | set (key : CString) (val : List Byte) (len : Int32)
  | get (key : CString) (buf : List Byte) (n : Int32)
  | del (key : CString)
deriving DecidableEq

/-- What a call returns, and what a Get leaves in `val` and `*buffer_len`. -/
inductive Reply where
  | set (ret : Int)
  | get (ret : Int) (buf : Option (List Byte)) (n : Option Int32)
  | del (ret : Int)
deriving DecidableEq

/-- A call. -/
def callStep (sys : Sys) (s : KvState) : Call → Option (KvState × Reply)
  | .set key val len => (halKvSet sys s (some key) (some val) len).map fun r => (r.1, .set r.2)
  | .get key buf n =>
    (halKvGet sys s (some key) (some buf) (some n)).map fun r => (r.1, .get r.2.1 r.2.2.1 r.2.2.2)
  | .del key => (halKvDel sys s (some key)).map fun r => (r.1, .del r.2)

/-- A call, all system calls succeeding. -/
def step : KvState → Call → Option (KvState × Reply) := callStep .ok

/-- A store whose file was just written by `create_hash_file`, opened or not. -/
def Fresh (s : KvState) : Prop := s.disk = (createHashFile {} none).2

namespace Call

def key : Call → CString
  | set key _ _ => key
  | get key _ _ => key
  | del key => key

/-- What a caller must grant: a value of at least one byte, and as many bytes
at `val` as the call says. -/
def Fits : Call → Prop
  | set _ val len => 0 < len.toInt ∧ len.toInt ≤ val.length
  | get _ buf n => n.toInt ≤ buf.length
  | del _ => True

/-- A key of at most 127 bytes. -/
def ShortKey (c : Call) : Prop := c.key.bytes.length < itemMaxKeyLen

/-- A value of at most 512 bytes. -/
def SmallValue : Call → Prop
  | set _ _ len => len.toInt ≤ itemMaxValLen
  | _ => True

/-- A call of `HAL_Kv_Set` for `k`. -/
def Sets (k : CString) : Call → Prop
  | set key _ _ => key = k
  | _ => False

/-- A call of `HAL_Kv_Del` for `k`. -/
def Dels (k : CString) : Call → Prop
  | del key => key = k
  | _ => False

/-- A call that the ubuntu port exports. -/
def InUbuntu : Call → Prop
  | del _ => False
  | _ => True

/-- A Get of at least one byte. -/
def Asks : Call → Prop
  | get _ _ n => 0 < n.toInt
  | _ => True

instance (c : Call) : Decidable c.Fits := match c with
  | set _ val len => inferInstanceAs (Decidable (0 < len.toInt ∧ len.toInt ≤ val.length))
  | get _ buf n => inferInstanceAs (Decidable (n.toInt ≤ buf.length))
  | del _ => isTrue trivial

instance (c : Call) : Decidable c.ShortKey := inferInstanceAs (Decidable (_ < _))

instance (c : Call) : Decidable c.SmallValue := match c with
  | set _ _ len => inferInstanceAs (Decidable (len.toInt ≤ itemMaxValLen))
  | get _ _ _ => isTrue trivial
  | del _ => isTrue trivial

instance (k : CString) (c : Call) : Decidable (c.Sets k) := match c with
  | set key _ _ => inferInstanceAs (Decidable (key = k))
  | get _ _ _ => isFalse id
  | del _ => isFalse id

instance (k : CString) (c : Call) : Decidable (c.Dels k) := match c with
  | set _ _ _ => isFalse id
  | get _ _ _ => isFalse id
  | del key => inferInstanceAs (Decidable (key = k))

instance (c : Call) : Decidable c.InUbuntu := match c with
  | set _ _ _ => isTrue trivial
  | get _ _ _ => isTrue trivial
  | del _ => isFalse id

instance (c : Call) : Decidable c.Asks := match c with
  | set _ _ _ => isTrue trivial
  | get _ _ n => inferInstanceAs (Decidable (0 < n.toInt))
  | del _ => isTrue trivial

end Call

/-- A call and its reply. -/
abbrev Event := Call × Reply

/-- A Set of `k` that returned 0. -/
def SetOk (k : CString) (e : Event) : Prop := e.1.Sets k ∧ e.2 = .set 0

instance (k : CString) (e : Event) : Decidable (SetOk k e) := inferInstanceAs (Decidable (_ ∧ _))

/-- The latest Set of `k` was of the value `v` and returned 0, and no Del of
`k` came after it. -/
def LatestSet (h : List Event) (k : CString) (v : List Byte) : Prop :=
  Since (fun e => ∃ val len, e = (.set k val len, .set 0) ∧ v = val.take len.toInt.toNat)
    (fun e => ¬ e.1.Sets k ∧ ¬ e.1.Dels k) h

/-- The latest Set of `k` that returned 0 was of the value `v` (its first 512
bytes if it was longer), and no Del of `k` came after it. -/
def Current (h : List Event) (k : CString) (v : List Byte) : Prop :=
  Since (fun e => ∃ val len, e = (.set k val len, .set 0) ∧
    v = val.take (min len.toInt.toNat itemMaxValLen)) (fun e => ¬ SetOk k e ∧ ¬ e.1.Dels k) h

/-- `k` has a current value. -/
def Live (h : List Event) (k : CString) : Prop := ∃ v, Current h k v

/-- `k` was never set, or a Del of it returned 0 and no Set of it returned 0
after that. -/
def Deleted (h : List Event) (k : CString) : Prop :=
  (∀ e ∈ h, ¬ SetOk k e) ∨ Since (fun e => e = (.del k, .del 0)) (fun e => ¬ SetOk k e) h

/-- Two other keys of `k`'s row satisfy `P`. -/
def TwoOthers (P : CString → Prop) (k : CString) : Prop :=
  ∃ a b, a ≠ b ∧ a ≠ k ∧ b ≠ k ∧ hashGen a = hashGen k ∧ hashGen b = hashGen k ∧ P a ∧ P b

/-! ## What a Get returns -/

/-- The first `min v.length n` bytes of `v` copied over the buffer `buf`. -/
def filled (v buf : List Byte) (n : Int32) : List Byte :=
  v.take n.toInt.toNat ++ buf.drop (min v.length n.toInt.toNat)

/-- `HAL_Kv_Get (k)` returns 0 with `v`: for every buffer and length it sets
the length to `min (v.length, n)` and the buffer to as many bytes of `v`. -/
def Gets (s : KvState) (k : CString) (v : List Byte) : Prop :=
  ∀ buf (n : Int32), 0 < n.toInt → n.toInt ≤ buf.length → ∃ s',
    halKvGet .ok s (some k) (some buf) (some n) =
      some (s', 0, some (filled v buf n), some (Int32.ofNat (min v.length n.toInt.toNat)))

/-- `HAL_Kv_Get (k)` returns -1, and leaves the buffer and the length alone. -/
def Misses (s : KvState) (k : CString) : Prop :=
  ∀ buf (n : Int32), 0 < n.toInt → n.toInt ≤ buf.length → ∃ s',
    halKvGet .ok s (some k) (some buf) (some n) = some (s', -1, some buf, some n)

/-- Where `HAL_Kv_Set (k, val, len)` returns 0: `HAL_Kv_Get (k)` with a buffer
of 512 bytes then returns 0 with the first `min (len, 512)` bytes of `val`, the
same Set returns 0 again and leaves the file as it is, and after
`HAL_Kv_Del (k)` the Get returns -1. -/
def FoundAgain (s : KvState) (k : CString) (val : List Byte) (len : Int32) : Prop :=
  ∀ s₁, halKvSet .ok s (some k) (some val) len = some (s₁, 0) →
    (∀ buf : List Byte, buf.length = 512 → ∃ s₂, halKvGet .ok s₁ (some k) (some buf) (some 512) =
      some (s₂, 0, some (val.take (min len.toInt.toNat 512) ++ buf.drop (min len.toInt.toNat 512)),
        some (Int32.ofNat (min len.toInt.toNat 512)))) ∧
    (∃ s₂, halKvSet .ok s₁ (some k) (some val) len = some (s₂, 0) ∧ s₂.disk = s₁.disk) ∧
    ∃ s₂ ret, halKvDel .ok s₁ (some k) = some (s₂, ret) ∧ Misses s₂ k

/-! ## Rows -/

/-- Row `i` of the store. -/
def rowOf (s : KvState) (i : Nat) : List KvItem := rowAt (s.disk.getD []) i

/-- What the row walks rely on: the slots in use come first, no two of them
have the same key, and each key belongs to row `i`. -/
structure RowInv (i : Nat) (row : List KvItem) : Prop where
  packed : row.Pairwise fun p q => q.InUse → p.InUse
  distinct : row.Pairwise fun p q => ∀ k, ¬ (p.Holds k ∧ q.Holds k)
  home : ∀ p ∈ row, p.InUse → ∃ k, p.Holds k ∧ hashGen k = i

/-- An item in canonical form: key and value are zero past their ends, and an
empty item is zero throughout. -/
structure Canonical (p : KvItem) : Prop where
  key_end : p.key.bytes.getD (itemMaxKeyLen - 1) 0 = 0
  key_zero : ∀ i j, i ≤ j → p.key.bytes.getD i 0 = 0 → p.key.bytes.getD j 0 = 0
  len_nonneg : 0 ≤ p.valueLen.toInt
  len_le : p.valueLen.toInt ≤ itemMaxValLen
  value_zero : ∀ i : Nat, p.valueLen.toInt ≤ i → p.value.bytes.getD i 0 = 0
  empty_zero : p.valueLen = 0 → ∀ b ∈ p.bytes, b = 0

/-- An item of row `i` that holds the current value of a key of that row, under
the first 127 bytes of the key. -/
def HoldsCurrent (h : List Event) (i : Nat) (p : KvItem) : Prop :=
  ∃ k v, Current h k v ∧ hashGen k = i ∧ p.Holds (k.take (itemMaxKeyLen - 1)) ∧
    p.valueLen.toInt = v.length ∧ p.value.bytes.take v.length = v

/-- A Del that empties the first slot of a row while the second holds another
key. -/
def OpensGap (s : KvState) : Call → Prop
  | .del k => ∃ p q, rowOf s (hashGen k) = [p, q] ∧ p.Holds k ∧ q.InUse ∧ ¬ q.Holds k
  | _ => False

/-- The second slot of `k`'s row holds `k`, and the first is empty. -/
def HiddenKey (s : KvState) (k : CString) : Prop :=
  ∃ p q, rowOf s (hashGen k) = [p, q] ∧ ¬ p.InUse ∧ q.Holds k

/-- A slot of `k`'s row holds the first 127 bytes of `k`, and the walks for
`k` do not find it there: it is the second one behind an empty one, or `k` is
longer than that. -/
def MissedKey (s : KvState) (k : CString) : Prop :=
  ∃ p q, rowOf s (hashGen k) = [p, q] ∧
    (¬ p.InUse ∧ q.Holds (k.take (itemMaxKeyLen - 1)) ∨
      itemMaxKeyLen ≤ k.bytes.length ∧
        (p.Holds (k.take (itemMaxKeyLen - 1)) ∨ q.Holds (k.take (itemMaxKeyLen - 1))))

/-- Both slots of `k`'s row are in use. -/
def RowFull (s : KvState) (k : CString) : Prop := ∀ p ∈ rowOf s (hashGen k), p.InUse

/-- A Set or Del of a key for which `P` holds. -/
def Writes (P : CString → Prop) : Call → Prop
  | .set k _ _ => P k
  | .get _ _ _ => False
  | .del k => P k

/-- A Del of a key for which `P` holds. -/
def Deletes (P : CString → Prop) : Call → Prop
  | .del k => P k
  | _ => False

/-! ## Calls that fail -/

/-- A call that writes a row, its arguments as they come. -/
inductive Update where
  | set (key : Option CString) (val : Option (List Byte)) (len : Int32)
  | del (key : Option CString)

namespace Update

def run (sys : Sys) (s : KvState) : Update → Option (KvState × Int)
  | set key val len => halKvSet sys s key val len
  | del key => halKvDel sys s key

def key : Update → Option CString
  | set key _ _ => key
  | del key => key

end Update

/-- `HAL_Kv_Get (k)` returns the same in both states. -/
def SameGet (s s' : KvState) (k : CString) : Prop :=
  ∀ buf n, (halKvGet .ok s (some k) buf n).map Prod.snd = (halKvGet .ok s' (some k) buf n).map Prod.snd

/-- `write` stores `n` bytes of the row, some but not all. -/
def ShortWrite (sys : Sys) (n : Nat) : Prop := sys.write.accepts = some n ∧ 0 < n ∧ n < rowLen

/-- What may happen to a process that opens the store: a call, in which the
handle's `malloc` or `create_hash_file` may fail; a call that the process does
not survive, stopping after `n` writes of `create_hash_file`; a restart. -/
inductive OpenEvent where
  | call (malloc : Bool) (create : CreateSys) (c : Call)
  | stop (create : CreateSys) (n : Nat)
  | restart

/-- A call made now creates the file: there is none, and no handle. -/
def Creates (s : KvState) : Prop := s.file = false ∧ s.disk = none

instance (s : KvState) : Decidable (Creates s) := inferInstanceAs (Decidable (_ ∧ _))

/-- An event, and the reply of a call. -/
def openStep (s : KvState) : OpenEvent → Option (KvState × Option Reply)
  | .call malloc create c =>
    (callStep { mallocFile := malloc, create := create } s c).map fun r => (r.1, some r.2)
  | .stop create n =>
    if Creates s ∧ create.opens then
      some (⟨false, some (createRows create.accepts (min n tableColSize) 0 []).2⟩, none)
    else some (⟨false, s.disk⟩, none)
  | .restart => some (⟨false, s.disk⟩, none)

/-- Every `write` of `create_hash_file` stores a whole row. -/
def WholeWrites (create : CreateSys) : Prop :=
  ∀ i < tableColSize, ∃ m, create.accepts i = some m ∧ rowLen ≤ m

/-- The file that the event creates, if any, gets all its rows. -/
def CreatesWhole (s : KvState) : OpenEvent → Prop
  | .call malloc create _ => Creates s → malloc → create.opens → WholeWrites create
  | .stop create n => Creates s → create.opens → tableColSize ≤ n ∧ WholeWrites create
  | .restart => True

/-- The arguments of a call fit. -/
def OpenEvent.Fits : OpenEvent → Prop
  | .call _ _ c => c.Fits
  | .stop _ _ => True
  | .restart => True

instance (e : OpenEvent) : Decidable e.Fits := match e with
  | .call _ _ c => inferInstanceAs (Decidable c.Fits)
  | .stop _ _ => isTrue trivial
  | .restart => isTrue trivial

/-- An open store has all its rows, so that the row of no key lies past its
end. -/
def OpenWhole (s : KvState) : Prop :=
  s.file → ∃ f, s.disk = some f ∧ f.length = tableColSize * (itemMaxLen * tableRowSize) ∧
    ∀ key, ¬ f.length < (hashGen key + 1) * itemMaxLen * tableRowSize

/-! ## A map with at most two keys a row -/

/-- A map from keys to values with at most two keys of each hash value. -/
structure RowMap where
  get : CString → Option (List Byte)
  atMostTwo : ∀ k, (get k).isSome → ¬ TwoOthers (fun a => (get a).isSome) k

namespace RowMap

/-- The empty map. -/
def empty : RowMap := ⟨fun _ => none, fun _ h => by cases h⟩

/-- There is room for `k`: it is in the map, or fewer than two others of its
row are. -/
def Room (m : RowMap) (k : CString) : Prop :=
  (m.get k).isSome ∨ ¬ TwoOthers (fun a => (m.get a).isSome) k

/-- The map with `k` bound to `v`. -/
def bind (m : RowMap) (k : CString) (v : List Byte) (hr : m.Room k) : RowMap where
  get := Function.update m.get k (some v)
  atMostTwo := by
    have hk : ¬ TwoOthers (fun a => (m.get a).isSome) k := hr.elim (m.atMostTwo k) id
    have hsome : ∀ a, a ≠ k → (Function.update m.get k (some v) a).isSome → (m.get a).isSome :=
      fun a ha h => by rwa [Function.update_of_ne ha] at h
    rintro c hc ⟨a, b, hab, hac, hbc, ha, hb, hpa, hpb⟩
    by_cases hck : c = k
    · subst hck
      exact hk ⟨a, b, hab, hac, hbc, ha, hb, hsome a hac hpa, hsome b hbc hpb⟩
    by_cases hak : a = k
    · subst hak
      exact hk ⟨c, b, Ne.symm hbc, Ne.symm hac, Ne.symm hab, ha.symm, hb.trans ha.symm,
        hsome c hck hc, hsome b (Ne.symm hab) hpb⟩
    by_cases hbk : b = k
    · subst hbk
      exact hk ⟨c, a, Ne.symm hac, Ne.symm hbc, hab, hb.symm, ha.trans hb.symm, hsome c hck hc,
        hsome a hab hpa⟩
    exact m.atMostTwo c (hsome c hck hc) ⟨a, b, hab, hac, hbc, ha, hb, hsome a hak hpa, hsome b hbk hpb⟩

open Classical in
/-- What Set and Get do to the map, and what they return. -/
noncomputable def step (m : RowMap) : Call → RowMap × Reply
  | .set k val len =>
    if hr : m.Room k then (m.bind k (val.take (min len.toInt.toNat itemMaxValLen)) hr, .set 0)
    else (m, .set (-1))
  | .get k buf n =>
    match m.get k with
    | some v => (m, .get 0 (some (filled v buf n)) (some (Int32.ofNat (min v.length n.toInt.toNat))))
    | none => (m, .get (-1) (some buf) (some n))
  | .del _ => (m, .del (-1))

end RowMap

end Linkkit.Spec.Kv
