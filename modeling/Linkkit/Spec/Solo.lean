import Linkkit.Framework.Machine
import Linkkit.Impl.Solo

/-!
# What the service of the example promises

A request to `Operation_Service` with two numbers is answered with their sum
(`Answered`). In a run of requests, each response being freed by the SDK at some
time or never, no tree of `cJSON` stays allocated (`Released`).
-/

namespace Linkkit.Spec.Solo

open Impl.Solo

/-- The text of a response says `n`. -/
def Says (text : List Byte) (n : Int) : Prop :=
  ∃ t, text = ascii "\x7b\"Result\": " ++ t ++ ascii "\x7d" ∧ scanInt 10 none t = some (n, [])

/-- A request, and the addresses that the allocator gives while it is handled. -/
structure Request where
  addrs : Addresses
  serviceid : List Byte
  serviceidLen : Int32
  request : CString

section

variable {J : Type*} (json : CJson J)

/-- The handler on a request. -/
def handle (r : Request) (heap : Heap) : Option (Int32 × Option Response × Heap) :=
  userServiceRequestEventHandler json r.addrs r.serviceid r.serviceidLen r.request heap

/-- The request is an object. -/
def IsObject (r : Request) : Prop := ∃ root, json.parse r.request.bytes = some root ∧ json.isObject root = true

/-- The request asks for a sum. -/
def AsksFor (r : Request) (a b : Int32) : Prop :=
  ∃ root, json.parse r.request.bytes = some root ∧ json.isObject root = true ∧
    isOperationService r.serviceid r.serviceidLen = some true ∧ number json root "NumberA" = some a ∧
    number json root "NumberB" = some b

/-- An `int` holds the sum that the request asks for. -/
def Fits (r : Request) : Prop :=
  ∀ a b, AsksFor json r a b → -2147483648 ≤ a.toInt + b.toInt ∧ a.toInt + b.toInt < 2147483648

/-- What is promised of what the handler returns, and of its response. -/
structure Answered (r : Request) (ret : Int32) (response : Option Response) : Prop where
  /-- A sum is answered if there is memory for it: with the sum of the numbers and
  no other number. -/
  sum : ∀ a b, AsksFor json r a b → r.addrs.malloc ≠ 0 → ret = 0 ∧ ∃ resp text rest, response = some resp ∧
    resp.addr = r.addrs.malloc ∧ resp.bytes.bytes = text ++ 0 :: rest ∧ 0 ∉ text ∧ resp.len = text.length ∧
    ∀ n, Says text n ↔ n = a.toInt + b.toInt
  /-- Nothing else is answered. -/
  other : (∀ a b, ¬ AsksFor json r a b) ∨ r.addrs.malloc = 0 → response = none
  /-- An error is reported of a request that is no object, or asks
  `Operation_Service` for something and is not answered. -/
  error : ret = -1 ↔ ¬ IsObject json r ∨
    isOperationService r.serviceid r.serviceidLen = some true ∧ response = none

/-! ## Runs -/

/-- A request, or the end of a response. -/
inductive Call where
  | request (r : Request)
  | free (addr : UInt64)

/-- The heap, and the responses that were stored and not freed yet. -/
structure State where
  heap : Heap
  held : List UInt64

/-- A call; only responses that were not freed yet are freed. -/
def step (s : State) : Call → Option (State × Option Int32)
  | .request r => (handle json r s.heap).map fun p =>
    (⟨p.2.2, (p.2.1.map Response.addr).toList ++ s.held⟩, some p.1)
  | .free addr =>
    if addr ∈ s.held then some (⟨s.heap.close addr, s.held.erase addr⟩, none) else none

/-- The blocks that are allocated are the responses that were not freed yet. -/
def Released (s : State) : Prop := ∀ addr, s.heap.IsOpen addr ↔ addr ∈ s.held

/-- The handler frees the tree of the request: if it has one it is an object, and
there is memory for the response to a sum. -/
def Call.FreesTree : Call → Prop
  | request r => ∀ root, json.parse r.request.bytes = some root →
    json.isObject root = true ∧ ∀ a b, AsksFor json r a b → r.addrs.malloc ≠ 0
  | free _ => True

end

end Linkkit.Spec.Solo
