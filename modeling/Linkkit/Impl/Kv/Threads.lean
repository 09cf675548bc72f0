import Linkkit.Impl.Kv
import Mathlib.Logic.Function.Basic

/-!
# Two threads that set a key

`HAL_Kv_Set` of `Vendors/Jabsco/wrapper.c` as a sequence of atomic steps, made
by two threads of one process. The global `file`, the file `KV_FILE_NAME` and
the mutex of each handle are shared; system calls succeed.

The mutex that `kv_open` holds while it creates the file is that of the handle
it has just allocated, which no other thread can see yet, so taking it is no
step. Nor are `fsync` and `close`, and the accesses of `hash_table_put` to the
row it has read.
-/

namespace Linkkit.Impl.Kv

/-- The two threads. -/
inductive Thread where
  | first
  | second
deriving DecidableEq

def Thread.other : Thread → Thread
  | first => second
  | second => first

/-- The arguments of a call of `HAL_Kv_Set`. -/
structure SetCall where
  key : CString
  val : List Byte
  len : Int32

/-- The next step of a thread. A handle is named by the thread that allocated
it. -/
inductive Pc where
  /-- `kv_set`: `!file`. -/
  | test
  /-- `kv_open`: `access`. -/
  | access
  /-- `create_hash_file`: `open`, which creates the file. -/
  | openFile
  /-- `create_hash_file`: the write of row `i`. -/
  | create (i : Nat)
  /-- `kv_set`: the assignment to `file`. -/
  | publish
  /-- `kv_set`: the argument `file` of `__kv_set`. -/
  | call
  /-- `__kv_set`: `pthread_mutex_lock`. -/
  | lock (h : Thread)
  /-- `hash_table_put`: `read_kv_item`, and the walk over the row. -/
  | read (h : Thread)
  /-- `hash_table_put`: `write_kv_item`. -/
  | write (h : Thread) (kv : List KvItem)
  /-- `__kv_set`: `pthread_mutex_unlock`. -/
  | unlock (h : Thread) (ret : Int)
  /-- The return. -/
  | ret (ret : Int)
  | done (ret : Int)

/-- The global `file`, the disk, the owner of each handle's mutex, and the next
step of each thread. -/
structure Shared where
  file : Option Thread
  disk : Option (List Byte)
  owner : Thread → Option Thread
  pc : Thread → Pc

namespace Shared

/-- Thread `t` goes on at `pc`. -/
def goto (s : Shared) (t : Thread) (pc : Pc) : Shared := { s with pc := Function.update s.pc t pc }

/-- `value_len` cut to `ITEM_MAX_VAL_LEN`. -/
def cut (valueLen : Int32) : Int32 :=
  if valueLen > Int32.ofNat itemMaxValLen then Int32.ofNat itemMaxValLen else valueLen

/-- The next step of thread `t`. A thread that waits for a mutex has none. -/
def step (calls : Thread → SetCall) (s : Shared) (t : Thread) : Option (Shared × Unit) :=
  let i := hashGen (calls t).key
  match s.pc t with
  | .test => some (s.goto t (if s.file.isSome then .call else .access), ())
  | .access => some (s.goto t (if s.disk.isSome then .publish else .openFile), ())
  | .openFile => some ({ s with disk := some (s.disk.getD []) }.goto t (.create 0), ())
  | .create i =>
    let f := pwrite (s.disk.getD []) (i * rowLen) (zeros rowLen)
    some ({ s with disk := some f }.goto t (if i + 1 < tableColSize then .create (i + 1) else .publish), ())
  | .publish => some ({ s with file := some t }.goto t .call, ())
  | .call =>
    match s.file with
    | none => some (s.goto t (.ret (-1)), ())
    | some h => some (s.goto t (if (calls t).len ≤ 0 then .ret (-1) else .lock h), ())
  | .lock h =>
    if s.owner h = none then
      some ({ s with owner := Function.update s.owner h (some t) }.goto t (.read h), ())
    else none
  | .read h =>
    match readKvItem {} s.disk i with
    | none => some (s.goto t (.unlock h (-1)), ())
    | some kv =>
      match putWalk (calls t).key (calls t).val (cut (calls t).len) kv with
      | none => none
      | some none => some (s.goto t (.unlock h (-1)), ())
      | some (some kv) => some (s.goto t (.write h kv), ())
  | .write h kv =>
    let (ret, disk) := writeKvItem {} s.disk kv i
    some ({ s with disk := disk }.goto t (.unlock h (if ret < 0 then -1 else 0)), ())
  | .unlock h ret =>
    some ({ s with owner := Function.update s.owner h none }.goto t (.ret ret), ())
  | .ret ret => some (s.goto t (.done ret), ())
  | .done _ => none

/-- No handle, no file, and both threads about to call. -/
def start : Shared := ⟨none, none, fun _ => none, fun _ => .test⟩

/-- The store as a later call finds it. -/
def store (s : Shared) : KvState := ⟨s.file.isSome, s.disk⟩

end Shared

end Linkkit.Impl.Kv
