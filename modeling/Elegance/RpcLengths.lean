import Elegance.RpcSession
import Elegance.Lib.CheckedInt

/-!
# The lengths of a session's messages

What `AsyncCall` and `OnRecv` copy into `message_buffer_` and send, for any length a caller passes or
a `HandleCall` returns. The totals are `size_t` sums, kept in an `int`.
-/

namespace Elegance

open CInt

/-- `length + sizeof(RPCMessageHeader)` of an `int` and a `size_t`, put into an `int`. -/
def totalLen (length : ℤ) : ℤ :=
  wrap32 ((length % 18446744073709551616 + sizeofRPCMessageHeader) % 18446744073709551616)

/-- A `Send` of the front of `message_buffer_`, and the `memcpy` into it before, if there is one. -/
structure SessionSend where
  copy : Option MemCopy
  totalLen : ℤ
  deriving DecidableEq, Repr

/-- The copy stays in `message_buffer_`, and the message has a body and is shorter than the limit. -/
def SessionSend.InBounds (s : SessionSend) : Prop :=
  (∀ c ∈ s.copy, c.InBounds) ∧
    sizeofRPCMessageHeader + 1 ≤ s.totalLen ∧ s.totalLen ≤ rpcSessionNetworkMessageMaxLen - 1

/-- A call, or what one handler makes of a request. -/
inductive LengthEvent where
  | asyncCall (length : ℤ)
  | handleCall (handleResult returnLength : ℤ)
  deriving DecidableEq, Repr

namespace LengthEvent

/-- `AsyncCall` of some data sends nothing where it gives the request up. -/
def send : LengthEvent → Option SessionSend
  | asyncCall length =>
    if length ≤ 0 then none
    else if totalLen length ≥ rpcSessionNetworkMessageMaxLen then none
    else some
      { copy := some ⟨length, length, sizeofRPCMessageHeader, rpcSessionNetworkMessageMaxLen⟩
        totalLen := totalLen length }
  | handleCall handleResult returnLength =>
    if handleResult ≠ 0 then none
    else if returnLength ≤ 0 then none
    else if totalLen returnLength ≥ rpcSessionNetworkMessageMaxLen then none
    else some { copy := none, totalLen := totalLen returnLength }

/-- The lengths are `int`s. -/
def IsInt : LengthEvent → Prop
  | asyncCall length => CInt.IsInt length
  | handleCall handleResult returnLength => CInt.IsInt handleResult ∧ CInt.IsInt returnLength

/-- A length the header can be added to, if it is to be sent. -/
def Fits : LengthEvent → Prop
  | asyncCall length => length ≤ intMax - sizeofRPCMessageHeader
  | handleCall handleResult returnLength =>
    handleResult = 0 → returnLength ≤ intMax - sizeofRPCMessageHeader

end LengthEvent

end Elegance
