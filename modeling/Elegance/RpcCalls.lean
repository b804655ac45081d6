import Elegance.RpcSession
import Elegance.Lib.Run

/-!
# The calls of one session

A session with what it has sent, latest first, and the request objects called back. A call whose
`memcpy` leaves `message_buffer_` halts it.
-/

namespace Elegance

open CInt

structure RpcCalls (ρ : Type) where
  session : RPCSession ρ
  sent : List (List Byte × ρ) := []
  calledBack : List ρ := []
  halted : Bool := false

inductive CallEvent (ρ : Type) where
  | asyncCall (req : ρ) (data : List Byte)
  | onRecv (data : List Byte) (results : List HandleResult)

/-- The callbacks among what a session does. -/
def callBacks {ρ : Type} (calls : List (SessionCall ρ)) : List (ρ × List Byte) :=
  calls.filterMap fun
    | .onCallBack request data => some (request, data)
    | _ => none

namespace RpcCalls

variable {ρ : Type} (H : HostLayout)

/-- A session after `SetData` and the calls of `RegisterHandler`. -/
def start (endpoint : Endpoint) (networkId : NetworkID) (reserveCh : Byte)
    (handlerList : List Addr) : RpcCalls ρ where
  session := { endpoint, networkId, reserveCh, handlerList }

def step (w : RpcCalls ρ) : CallEvent ρ → RpcCalls ρ
  | .asyncCall req data =>
    if w.halted then w
    else
      match w.session.asyncCall H req data with
      | .givenUp => w
      | .badCopy => { w with halted := true }
      | .sent _ message session => { w with session, sent := (message, req) :: w.sent }
  | .onRecv data results =>
    if w.halted then w
    else
      let (session, calls) := w.session.onRecv H data results
      { w with session, calledBack := w.calledBack ++ (callBacks calls).map Prod.fst }

/-- The id of a message, as its receiver reads it. -/
def messageId (data : List Byte) : ℤ := H.readShort (messageHeader data).messageId

/-- The request last sent with an id. -/
def latest (w : RpcCalls ρ) (id : ℤ) : Option ρ :=
  (w.sent.find? fun m => messageId H m.1 = id).map Prod.snd

/-- No request object is sent twice. -/
def Distinct (w : RpcCalls ρ) : CallEvent ρ → Prop
  | .asyncCall req _ => req ∉ w.sent.map Prod.snd
  | .onRecv _ _ => True

instance [DecidableEq ρ] (w : RpcCalls ρ) : ∀ ev, Decidable (w.Distinct ev)
  | .asyncCall _ _ => inferInstanceAs (Decidable (¬ _))
  | .onRecv _ _ => .isTrue trivial

end RpcCalls

end Elegance
