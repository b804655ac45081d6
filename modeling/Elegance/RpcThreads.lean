import Elegance.RpcCalls

/-!
# A calling thread and a receiving thread

`AsyncCall` in its steps on one thread (draw an id, send, register), and `OnRecv` of the responses
in its steps on another (call back and erase under `request_lock_`, then push the id), with a peer
that answers each request at most once, when and in which order it likes. The request objects are
the numbers of the calls.
-/

namespace Elegance

open CInt

/-- Where the calling thread is in `AsyncCall`. -/
inductive Caller where
  | idle
  | drawn (requestId : ℤ) (call : ℕ) (data : List Byte)
  | sent (requestId : ℤ) (call : ℕ)
  deriving DecidableEq, Repr

namespace Caller

def isDrawn : Caller → Bool
  | .drawn _ _ _ => true
  | _ => false

def isSent : Caller → Bool
  | .sent _ _ => true
  | _ => false

/-- The call that was sent and is not registered yet. -/
def sentCall : Caller → Option ℕ
  | .sent _ call => some call
  | _ => none

/-- The call under way. -/
def call? : Caller → Option ℕ
  | .idle => none
  | .drawn _ call _ => some call
  | .sent _ call => some call

/-- The id drawn for the call under way. -/
def ids : Caller → List ℤ
  | .idle => []
  | .drawn requestId _ _ => [requestId]
  | .sent requestId _ => [requestId]

end Caller

structure RpcThreads where
  session : RPCSession ℕ
  caller : Caller := .idle
  /-- The id `OnRecv` has erased and not pushed yet. -/
  freeing : Option ℤ := none
  unanswered : List (ℕ × List Byte) := []
  responses : List (ℕ × List Byte) := []
  calls : ℕ := 0
  processed : List (ℕ × List Byte) := []
  calledBack : List (ℕ × List Byte) := []
  halted : Bool := false

inductive ThreadEvent where
  | draw (data : List Byte)
  | send
  | register
  | answer (request : ℕ × List Byte) (reserveCh : Byte) (payload : List Byte)
  | recv
  | push

namespace RpcThreads

variable (H : HostLayout)

def start (networkId : NetworkID) (reserveCh : Byte) : RpcThreads where
  session := { networkId, reserveCh }

def step (w : RpcThreads) : ThreadEvent → RpcThreads
  | .draw data =>
    let (requestId, session) := w.session.getRequestID
    { w with session, caller := .drawn requestId w.calls data, calls := w.calls + 1 }
  | .send =>
    match w.caller with
    | .drawn requestId call data =>
      match w.session.requestMessage H requestId data with
      | none => { w with halted := true }
      | some message =>
        { w with
          caller := .sent requestId call
          unanswered := w.unanswered ++ [(call, message)] }
    | _ => w
  | .register =>
    match w.caller with
    | .sent requestId call =>
      { w with session := w.session.register requestId call, caller := .idle }
    | _ => w
  | .answer request reserveCh payload =>
    { w with
      unanswered := w.unanswered.erase request
      responses := w.responses ++ [(request.1, RPCMessageHeader.message
        ⟨rpcMessageTypeResponse, reserveCh, (messageHeader request.2).messageId⟩ payload)] }
  | .recv =>
    match w.responses with
    | [] => w
    | (call, message) :: responses =>
      let processed := w.processed ++ [(call, messageBody message)]
      match w.session.responseTarget H message with
      | none => { w with responses, processed }
      | some request =>
        let messageId := RpcCalls.messageId H message
        { w with
          session := w.session.eraseRequest messageId
          responses, processed
          calledBack := w.calledBack ++ [(request, messageBody message)]
          freeing := some messageId }
  | .push =>
    match w.freeing with
    | none => w
    | some messageId => { w with session := w.session.pushFreeId messageId, freeing := none }

/-- `request_lock_` is held from the lookup of a response to the push of its id; an answer has
something behind its header. -/
def Can (w : RpcThreads) (ev : ThreadEvent) : Prop :=
  w.halted = false ∧
    match ev with
    | .draw data => w.caller = .idle ∧ RPCSession.acceptsLength data = true
    | .send => w.caller.isDrawn
    | .register => w.caller.isSent ∧ w.freeing = none
    | .answer request _ payload => request ∈ w.unanswered ∧ payload ≠ []
    | .recv => w.responses ≠ [] ∧ w.freeing = none
    | .push => w.freeing.isSome

/-- An id is drawn with fewer than `SHRT_MAX` in use. -/
def Room (w : RpcThreads) : ThreadEvent → Prop
  | .draw _ => ((w.freeing.toList ++ w.session.requestList.keys).length : ℤ) < shrtMax
  | _ => True

/-- A response is processed only after its request was registered. -/
def Registered (w : RpcThreads) : ThreadEvent → Prop
  | .recv => ∀ x ∈ w.responses.head?, w.caller.sentCall ≠ some x.1
  | _ => True

/-- Every response processed reached the callback of its request. -/
def Delivered (w : RpcThreads) : Prop := w.calledBack = w.processed

instance (w : RpcThreads) : ∀ ev, Decidable (w.Can ev)
  | .draw _ => inferInstanceAs (Decidable (_ ∧ _ ∧ _))
  | .send => inferInstanceAs (Decidable (_ ∧ _ = true))
  | .register => inferInstanceAs (Decidable (_ ∧ _ = true ∧ _))
  | .answer _ _ _ => inferInstanceAs (Decidable (_ ∧ _ ∈ _ ∧ _))
  | .recv => inferInstanceAs (Decidable (_ ∧ _ ∧ _))
  | .push => inferInstanceAs (Decidable (_ ∧ _ = true))

instance (w : RpcThreads) : ∀ ev, Decidable (w.Room ev)
  | .draw _ => inferInstanceAs (Decidable (_ < _))
  | .send | .register | .answer _ _ _ | .recv | .push => .isTrue trivial

instance (w : RpcThreads) : ∀ ev, Decidable (w.Registered ev)
  | .recv => inferInstanceAs (Decidable (∀ x ∈ w.responses.head?, w.caller.sentCall ≠ some x.1))
  | .draw _ | .send | .register | .answer _ _ _ | .push => .isTrue trivial

end RpcThreads

end Elegance
