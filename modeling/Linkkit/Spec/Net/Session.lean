import Linkkit.Spec.Net

/-!
# A connection, and the calls at its two ends

One direction of a connection, as TCP gives it: the bytes that the socket of
the one end accepts are delivered to the other, in order, each once, some of them
still on their way (`move`). A `HAL_TCP_Write` stands in a run where it begins
and a `HAL_TCP_Read` where it returns, so that the two may overlap: what a read
takes was accepted by writes that had begun.
-/

namespace Linkkit.Spec.Net

open Impl.Net

/-- A call, with what happens in it. -/
inductive Move where
  | write (fd : UInt64) (buf : List Byte) (len timeoutMs : UInt32) (now : UInt64) (turns : List WriteTurn)
  | read (fd : UInt64) (buf : List Byte) (len timeoutMs : UInt32) (now : UInt64) (turns : List ReadTurn)

/-- What it returns, a read with the buffer then. -/
inductive Outcome where
  | wrote (ret : Int32)
  | read (ret : Int32) (buf : List Byte)
deriving DecidableEq

/-- A call that returns, `flight` being the bytes that were accepted and not
delivered yet. -/
def move (flight : List Byte) : Move → Option (List Byte × Outcome)
  | .write fd buf len timeoutMs now turns =>
    let (ret, s) := halTcpWrite fd buf len timeoutMs now turns
    ret.map fun ret => (flight ++ s.accepted, .wrote ret)
  | .read fd buf len timeoutMs now turns =>
    let (ret, s) := halTcpRead fd buf len timeoutMs now turns
    if s.taken <+: flight then ret.map fun ret => (flight.drop s.taken.length, .read ret s.buf) else none

/-- The buffer has `len` bytes, which an `int` can count. -/
def Move.InBuffer : Move → Prop
  | write _ buf len _ _ _ => len.toNat ≤ buf.length ∧ len.toNat < 0x80000000
  | read _ buf len _ _ _ => len.toNat ≤ buf.length ∧ len.toNat < 0x80000000

/-- The bytes that a write says were sent. -/
def sent : Move × Outcome → List Byte
  | (.write _ buf _ _ _ _, .wrote ret) => buf.take ret.toInt.toNat
  | _ => []

/-- The bytes that a read says were received. -/
def received : Move × Outcome → List Byte
  | (_, .read ret buf) => buf.take ret.toInt.toNat
  | _ => []

/-- A write that reports an error. -/
def WriteFails : Move × Outcome → Prop
  | (_, .wrote ret) => ret < 0
  | _ => False

/-- What is promised of the bytes that a call passed on: a write, those it says,
or some of the first of its buffer if it reports an error. -/
def Accepts : Move × Outcome → List Byte → Prop
  | e@(.write _ buf len _ _ _, _), bytes => bytes <+: buf.take len.toNat ∧ (¬ WriteFails e → bytes = sent e)
  | (.read .., _), bytes => bytes = []

end Linkkit.Spec.Net
