import Linkkit.Framework.Descriptors
import Linkkit.Framework.Int
import Linkkit.Framework.Scan

/-!
# The service of the example

`user_service_request_event_handler` of `Vendors/ubuntu/linkkit_example_solo.c`.
`cJSON` is an argument, its values being of any type, and so are the addresses
that the allocator gives: a block is allocated at an address that is free, as the
kernel opens a descriptor (`Descriptors.opens`). A tree of `cJSON` is one block,
at its root. C does not say what a sum is that an `int` does not hold. Traces are
left out.
-/

namespace Linkkit.Impl.Solo

/-- What the handler uses of `cJSON`. -/
structure CJson (J : Type*) where
  /-- `cJSON_Parse`, or `NULL`. -/
  parse : List Byte → Option J
  isObject : J → Bool
  /-- `cJSON_GetObjectItem`, or `NULL`. -/
  getObjectItem : J → List Byte → Option J
  isNumber : J → Bool
  valueint : J → Int32

/-- The blocks that are allocated. -/
abbrev Heap := Descriptors UInt64 Unit

/-- The address of the tree if `cJSON_Parse` gives one, and what `HAL_Malloc`
returns. -/
structure Addresses where
  root : UInt64
  malloc : UInt64

/-- `*response_len` at first, the size of the response: the length of
`response_fmt`, 10 and 1. -/
abbrev responseSize : Nat := 14 + 10 + 1

/-- A response: its address, its bytes and its length. -/
structure Response where
  addr : UInt64
  bytes : Buf responseSize
  len : Nat
deriving DecidableEq

/-- The test of `serviceid`: `memcmp` is called if the lengths are equal. -/
def isOperationService (serviceid : List Byte) (serviceidLen : Int32) : Option Bool :=
  let name := ascii "Operation_Service"
  if name.length = sizeT serviceidLen then
    if name.length ≤ serviceid.length then some (decide (serviceid.take name.length = name)) else none
  else some false

/-- The sum of two `int`s. -/
def add (a b : Int32) : Option Int32 :=
  if -2147483648 ≤ a.toInt + b.toInt ∧ a.toInt + b.toInt < 2147483648 then some (a + b) else none

section

variable {J : Type*} (json : CJson J)

/-- A number in an object, none if it is missing or no number. -/
def number (root : J) (key : String) : Option Int32 :=
  match json.getObjectItem root (ascii key) with
  | none => none
  | some item => if json.isNumber item then some (json.valueint item) else none

/-- The response to a sum, `response_fmt` being `{"Result": %d}`. -/
def respond (addr : UInt64) (addResult : Int32) : Option Response := do
  let text := ascii "\x7b\"Result\": " ++ decimalText addResult.toInt ++ ascii "\x7d"
  let response := Buf.zero responseSize
  let written := text.take (responseSize - 1) ++ [0]
  let response ← response.memcpy 0 written written.length
  return ⟨addr, response, ← strlen response.bytes⟩

/-- `user_service_request_event_handler`: what it returns, the response if one is
stored, and the heap after it. -/
def userServiceRequestEventHandler (addrs : Addresses) (serviceid : List Byte) (serviceidLen : Int32)
    (request : CString) (heap : Heap) : Option (Int32 × Option Response × Heap) :=
  match json.parse request.bytes with
  | none => some (-1, none, heap)
  | some root => do
    let heap ← heap.opens addrs.root
    if !json.isObject root then return (-1, none, heap)
    if !(← isOperationService serviceid serviceidLen) then return (0, none, heap.close addrs.root)
    match number json root "NumberA", number json root "NumberB" with
    | some a, some b =>
      let addResult ← add a b
      if addrs.malloc = 0 then return (-1, none, heap)
      let heap ← heap.opens addrs.malloc
      let response ← respond addrs.malloc addResult
      return (0, some response, heap.close addrs.root)
    | _, _ => return (-1, none, heap.close addrs.root)

end

end Linkkit.Impl.Solo
