import Linkkit.Framework.Blocks
import Linkkit.Framework.Int

/-!
# The key-value store of the HAL wrappers

The store behind `HAL_Kv_Set`, `HAL_Kv_Get` and `HAL_Kv_Del`: the file
`linkkit_kv.bin` of `TABLE_COL_SIZE` rows, each `TABLE_ROW_SIZE` packed
`kv_item_t`s. `Vendors/Jabsco/wrapper.c` and `Vendors/ubuntu/wrapper.c` have
the same code for it, from `struct kv_file_s` to `kv_del`; the second exports
no `HAL_Kv_Del`.

Accesses to memory are checked: a function has no value (`none`) if it would
read or write outside an array, such as a key without a terminator. What the
system calls return is an argument (`Sys`, all of them succeeding by default).
A pointer that may be `NULL` is an `Option`. Printing (`kv_err`) is left out,
and so is `lock`, which one thread at a time always gets.
-/

namespace Linkkit.Impl.Kv

/-! ## Data -/

/-- `TABLE_COL_SIZE`. -/
abbrev tableColSize : Nat := 384
/-- `TABLE_ROW_SIZE`. -/
abbrev tableRowSize : Nat := 2
/-- `ITEM_MAX_KEY_LEN`. -/
abbrev itemMaxKeyLen : Nat := 128
/-- `ITEM_MAX_VAL_LEN`. -/
abbrev itemMaxValLen : Nat := 512
/-- `ITEM_MAX_LEN`: `sizeof (kv_item_t)`, 128 + 512 + 4 with no padding. -/
abbrev itemMaxLen : Nat := 644
/-- The size of a row, `ITEM_MAX_LEN * TABLE_ROW_SIZE`. -/
abbrev rowLen : Nat := itemMaxLen * tableRowSize

/-- `kv_item_t`. -/
@[ext] structure KvItem where
  key : Buf itemMaxKeyLen
  value : Buf itemMaxValLen
  valueLen : Int32
deriving DecidableEq

namespace KvItem

/-- An item after `memset (p, 0, ITEM_MAX_LEN)`. -/
def zero : KvItem := ⟨Buf.zero _, Buf.zero _, 0⟩

/-- An item in memory. -/
def bytes (p : KvItem) : List Byte := p.key.bytes ++ p.value.bytes ++ le32 p.valueLen.toUInt32

/-- The item that begins an object. -/
def ofBytes (bs : List Byte) : KvItem where
  key := Buf.ofList _ (bs.take itemMaxKeyLen)
  value := Buf.ofList _ (slice bs itemMaxKeyLen itemMaxValLen)
  valueLen := (ofLe32 (bs.drop (itemMaxKeyLen + itemMaxValLen))).toInt32

/-- The slot is in use (`p->value_len`). -/
def InUse (p : KvItem) : Prop := p.valueLen ≠ 0

/-- The slot is in use, and its key is `key` for `strcmp`. -/
def Holds (p : KvItem) (key : CString) : Prop := p.InUse ∧ strcmp p.key.bytes key.mem = some 0

end KvItem

/-- A row in memory. -/
def rowBytes (kv : List KvItem) : List Byte := kv.flatMap KvItem.bytes

/-- The row of items in an object. -/
def rowOfBytes (bs : List Byte) : List KvItem :=
  (List.range tableRowSize).map fun j => KvItem.ofBytes (slice bs (j * itemMaxLen) itemMaxLen)

/-- Row `i` of a file. -/
def rowAt (f : List Byte) (i : Nat) : List KvItem := rowOfBytes (slice f (i * rowLen) rowLen)

/-! ## System calls -/

/-- What the system calls of `read_kv_item` return: whether each succeeds
(`read` with a whole row). -/
structure ReadSys where
  opens : Bool := true
  fstats : Bool := true
  lseeks : Bool := true
  reads : Bool := true

/-- What the system calls of `write_kv_item` return. `write` stores and
returns at most `accepts` bytes, or fails with `-1` and stores nothing. -/
structure WriteSys where
  opens : Bool := true
  fstats : Bool := true
  lseeks : Bool := true
  accepts : Option Nat := some rowLen

/-- What the system calls of `create_hash_file` return, with the `accepts` of
each of its writes. -/
structure CreateSys where
  opens : Bool := true
  accepts : Nat → Option Nat := fun _ => some rowLen
  fsyncs : Bool := true

/-- What the system calls of a HAL call return. -/
structure Sys where
  /-- `malloc` of the handle in `kv_open`. -/
  mallocFile : Bool := true
  create : CreateSys := {}
  /-- `malloc` of the row. -/
  mallocRow : Bool := true
  read : ReadSys := {}
  write : WriteSys := {}

/-- Every system call succeeds. -/
def Sys.ok : Sys := {}

/-! ## Rows and files -/

/-- `hash_gen`: `char` is signed, and `unsigned int` wraps. -/
def hashGen (key : CString) : Nat :=
  let hash : UInt32 :=
    key.bytes.foldl (fun (hash : UInt32) (c : Byte) => (hash <<< 5) + hash + c.toInt8.toInt32.toUInt32) 0
  (hash % UInt32.ofNat tableColSize).toNat

/-- `read_kv_item`: the row at `location`, or none if it returns `-1`. -/
def readKvItem (sys : ReadSys) (disk : Option (List Byte)) (location : Nat) : Option (List KvItem) :=
  match disk with
  | none => none
  | some f =>
    if !sys.opens then none
    else if !sys.fstats then none
    else if f.length < (location + 1) * itemMaxLen * tableRowSize then none
    else if !sys.lseeks then none
    else if !sys.reads then none
    else some (rowOfBytes (slice f (location * itemMaxLen * tableRowSize) (itemMaxLen * tableRowSize)))

/-- `write_kv_item`: what it returns, and the disk after it. -/
def writeKvItem (sys : WriteSys) (disk : Option (List Byte)) (data : List KvItem) (location : Nat) :
    Int × Option (List Byte) :=
  match disk with
  | none => (-1, none)
  | some f =>
    if !sys.opens then (-1, disk)
    else if !sys.fstats then (-1, disk)
    else if f.length < (location + 1) * itemMaxLen * tableRowSize then (-1, disk)
    else if !sys.lseeks then (-1, disk)
    else match sys.accepts with
      | none => (-1, disk)
      | some n =>
        let stored := (rowBytes data).take n
        (if stored.length ≠ itemMaxLen * tableRowSize then -1 else 0,
          some (pwrite f (location * itemMaxLen * tableRowSize) stored))

/-- The loop of `create_hash_file` from row `i`, `n` rows before its end:
whether it writes them all, and the file after it. -/
def createRows (accepts : Nat → Option Nat) : Nat → Nat → List Byte → Bool × List Byte
  | 0, _, f => (true, f)
  | n + 1, i, f =>
    match accepts i with
    | none => (false, f)
    | some m =>
      let stored := (zeros rowLen).take m
      let f := pwrite f (i * rowLen) stored
      if stored.length ≠ rowLen then (false, f) else createRows accepts n (i + 1) f

/-- `create_hash_file`. -/
def createHashFile (sys : CreateSys) (disk : Option (List Byte)) : Int × Option (List Byte) :=
  if !sys.opens then (-1, disk)
  else match createRows sys.accepts tableColSize 0 (disk.getD []) with
    | (false, f) => (-1, some f)
    | (true, f) => if !sys.fsyncs then (-1, some f) else (0, some f)

/-- `kv_open`: whether it returns a handle, and the disk after it. -/
def kvOpen (sys : Sys) (disk : Option (List Byte)) : Bool × Option (List Byte) :=
  if !sys.mallocFile then (false, disk)
  else match disk with
    | some _ => (true, disk)
    | none =>
      match createHashFile sys.create disk with
      | (ret, disk) => (!decide (ret < 0), disk)

/-! ## The row walks -/

/-- The walk of `hash_table_put` over the slots from `p` on: the slots after
it, or none if the row is full. -/
def putWalk (key : CString) (value : List Byte) (valueLen : Int32) :
    List KvItem → Option (Option (List KvItem))
  | [] => some none
  | p :: ps =>
    if p.valueLen ≠ 0 then do
      let c ← strcmp p.key.bytes key.mem
      if c = 0 then
        -- `value_len` is not zero now, so the code after the loop adds nothing
        let v ← p.value.memset 0 0 itemMaxValLen
        let v ← v.memcpy 0 value (sizeT valueLen)
        return some ({ p with value := v, valueLen := valueLen } :: ps)
      else
        let r ← putWalk key value valueLen ps
        return r.map (p :: ·)
    else do
      let k ← p.key.strncpy key.mem (itemMaxKeyLen - 1)
      let v ← p.value.memcpy 0 value (sizeT valueLen)
      return some ({ key := k, value := v, valueLen := valueLen } :: ps)

/-- The walk of `hash_table_get`: the item with the key. -/
def getWalk (key : CString) : List KvItem → Option (Option KvItem)
  | [] => some none
  | p :: ps =>
    if p.valueLen ≠ 0 then do
      let c ← strcmp key.mem p.key.bytes
      if c = 0 then return some p else getWalk key ps
    else some none

/-- The walk of `hash_table_rm`: it goes on after a slot it clears. -/
def rmWalk (key : CString) : List KvItem → Option (List KvItem)
  | [] => some []
  | p :: ps =>
    if p.valueLen ≠ 0 then do
      let c ← strcmp key.mem p.key.bytes
      let ps ← rmWalk key ps
      return (if c = 0 then KvItem.zero else p) :: ps
    else some (p :: ps)

/-- `hash_table_put`. -/
def hashTablePut (sys : Sys) (disk : Option (List Byte)) (key : Option CString)
    (value : Option (List Byte)) (valueLen : Int32) : Option (Int × Option (List Byte)) :=
  match key, value with
  | some key, some value =>
    if valueLen ≤ 0 then some (-1, disk)
    else
      let valueLen : Int32 := if valueLen > Int32.ofNat itemMaxValLen then Int32.ofNat itemMaxValLen else valueLen
      let i := hashGen key
      if !sys.mallocRow then some (-1, disk)
      else match readKvItem sys.read disk i with
        | none => some (-1, disk)
        | some kv => do
          match ← putWalk key value valueLen kv with
          | none => return (-1, disk)
          | some kv =>
            let (ret, disk) := writeKvItem sys.write disk kv i
            return (if ret < 0 then -1 else 0, disk)
  | _, _ => some (-1, disk)

/-- `hash_table_get`: what it returns, `value` and `*len`. -/
def hashTableGet (sys : Sys) (disk : Option (List Byte)) (key : Option CString)
    (value : Option (List Byte)) (len : Option Int32) :
    Option (Int × Option (List Byte) × Option Int32) :=
  match key, value, len with
  | some key, some buf, some n =>
    if n ≤ 0 then some (-1, value, len)
    else if !sys.mallocRow then some (-1, value, len)
    else match readKvItem sys.read disk (hashGen key) with
      | none => some (-1, value, len)
      | some kv => do
        match ← getWalk key kv with
        | none => return (-1, value, len)
        | some p =>
          let n := if p.valueLen < n then p.valueLen else n
          let buf ← memcpy buf 0 p.value.bytes (sizeT n)
          return (0, some buf, some n)
  | _, _, _ => some (-1, value, len)

/-- `hash_table_rm`. -/
def hashTableRm (sys : Sys) (disk : Option (List Byte)) (key : Option CString) :
    Option (Int × Option (List Byte)) :=
  match key with
  | none => some (-1, disk)
  | some key =>
    let i := hashGen key % tableColSize
    if !sys.mallocRow then some (-1, disk)
    else match readKvItem sys.read disk i with
      | none => some (-1, disk)
      | some kv => do
        let kv ← rmWalk key kv
        let (ret, disk) := writeKvItem sys.write disk kv i
        return (if ret < 0 then -1 else 0, disk)

/-! ## The HAL calls -/

/-- The process and its disk: whether `file` holds a handle, and the file
`KV_FILE_NAME` if it exists. -/
structure KvState where
  file : Bool
  disk : Option (List Byte)

/-- `__kv_get`, on a handle. -/
def kvFileGet (sys : Sys) (disk : Option (List Byte)) (key : Option CString)
    (value : Option (List Byte)) (valueLen : Option Int32) :
    Option (Int × Option (List Byte) × Option Int32) :=
  match key, value, valueLen with
  | some _, some _, some n =>
    if n ≤ 0 then some (-1, value, valueLen) else hashTableGet sys disk key value valueLen
  | _, _, _ => some (-1, value, valueLen)

/-- `__kv_set`, on a handle. -/
def kvFileSet (sys : Sys) (disk : Option (List Byte)) (key : Option CString)
    (value : Option (List Byte)) (valueLen : Int32) : Option (Int × Option (List Byte)) :=
  match key, value with
  | some _, some _ =>
    if valueLen ≤ 0 then some (-1, disk) else hashTablePut sys disk key value valueLen
  | _, _ => some (-1, disk)

/-- `__kv_del`, on a handle. -/
def kvFileDel (sys : Sys) (disk : Option (List Byte)) (key : Option CString) :
    Option (Int × Option (List Byte)) :=
  match key with
  | some _ => hashTableRm sys disk key
  | none => some (-1, disk)

/-- What `kv_get`, `kv_set` and `kv_del` begin with: open the store if it is
not open. -/
def ensureOpen (sys : Sys) (s : KvState) : KvState :=
  if s.file then s
  else match kvOpen sys s.disk with
    | (file, disk) => ⟨file, disk⟩

/-- `kv_get`. -/
def kvGet (sys : Sys) (s : KvState) (key : Option CString) (value : Option (List Byte))
    (valueLen : Option Int32) : Option (KvState × Int × Option (List Byte) × Option Int32) :=
  let s := ensureOpen sys s
  if !s.file then some (s, -1, value, valueLen)
  else (kvFileGet sys s.disk key value valueLen).map fun r => (s, r)

/-- `kv_set`. -/
def kvSet (sys : Sys) (s : KvState) (key : Option CString) (value : Option (List Byte))
    (valueLen : Int32) : Option (KvState × Int) :=
  let s := ensureOpen sys s
  if !s.file then some (s, -1)
  else (kvFileSet sys s.disk key value valueLen).map fun r => ({ s with disk := r.2 }, r.1)

/-- `kv_del`. -/
def kvDel (sys : Sys) (s : KvState) (key : Option CString) : Option (KvState × Int) :=
  let s := ensureOpen sys s
  if !s.file then some (s, -1)
  else (kvFileDel sys s.disk key).map fun r => ({ s with disk := r.2 }, r.1)

/-- `HAL_Kv_Set`; its argument `sync` is not used. -/
def halKvSet (sys : Sys) (s : KvState) (key : Option CString) (val : Option (List Byte)) (len : Int32) :
    Option (KvState × Int) := kvSet sys s key val len

/-- `HAL_Kv_Get`. -/
def halKvGet (sys : Sys) (s : KvState) (key : Option CString) (val : Option (List Byte))
    (bufferLen : Option Int32) : Option (KvState × Int × Option (List Byte) × Option Int32) :=
  kvGet sys s key val bufferLen

/-- `HAL_Kv_Del`. -/
def halKvDel (sys : Sys) (s : KvState) (key : Option CString) : Option (KvState × Int) := kvDel sys s key

end Linkkit.Impl.Kv
