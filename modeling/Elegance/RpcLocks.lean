import Elegance.RpcCalls
import Elegance.Lib.LockOrder

/-!
# The locks of one session

`AsyncCall` and `OnRecv` of any number of threads in their steps between the locks of a session,
where the body of an `OnCallBack` or of a `HandleCall` may issue calls on the session. The mutexes
are recursive: what a thread holds is what the calls it is in have locked. What is sent is left
out.
-/

namespace Elegance

open CInt

inductive SessionLock where
  | sendMessageLock
  | requestLock
  | freeRequestIdLock
  deriving DecidableEq, Repr

namespace SessionLock

/-- The order `AsyncCall` takes the locks it holds together in. -/
def sendFirst : SessionLock → ℕ
  | .sendMessageLock => 0
  | .requestLock => 1
  | .freeRequestIdLock => 2

/-- The order an `AsyncCall` in an `OnCallBack` takes them in. -/
def requestFirst : SessionLock → ℕ
  | .requestLock => 0
  | .sendMessageLock => 1
  | .freeRequestIdLock => 2

end SessionLock

/-- The next step of an `AsyncCall` that goes past its length checks. -/
inductive AsyncCallAt (ρ : Type) where
  | lockFreeRequestId (req : ρ) (data : List Byte)
  | drawing (req : ρ) (data : List Byte)
  | lockSendMessage (req : ρ) (data : List Byte) (requestId : ℤ)
  | sending (req : ρ) (data : List Byte) (requestId : ℤ)
  | lockRequest (req : ρ) (requestId : ℤ)
  | registering (req : ρ) (requestId : ℤ)
  | unlockSendMessage
  deriving DecidableEq, Repr

namespace AsyncCallAt

variable {ρ : Type}

/-- The lock the call is about to take. -/
def wants : AsyncCallAt ρ → Option SessionLock
  | .lockFreeRequestId _ _ => some .freeRequestIdLock
  | .lockSendMessage _ _ _ => some .sendMessageLock
  | .lockRequest _ _ => some .requestLock
  | _ => none

/-- The locks the call has taken. -/
def held : AsyncCallAt ρ → List SessionLock
  | .drawing _ _ => [.freeRequestIdLock]
  | .sending _ _ _ | .lockRequest _ _ | .unlockSendMessage => [.sendMessageLock]
  | .registering _ _ => [.sendMessageLock, .requestLock]
  | _ => []

/-- It has yet to take `send_message_lock_`. -/
def beforeSend : AsyncCallAt ρ → Bool
  | .lockFreeRequestId _ _ | .drawing _ _ | .lockSendMessage _ _ _ => true
  | _ => false

/-- It has yet to take `request_lock_`. -/
def beforeRequest : AsyncCallAt ρ → Bool
  | .registering _ _ | .unlockSendMessage => false
  | _ => true

variable (H : HostLayout)

/-- The next step of a call; then it has returned or it is at the one after. Where its `memcpy`
leaves `message_buffer_` there is none. -/
def run (s : RPCSession ρ) : AsyncCallAt ρ → Option (RPCSession ρ × Option (AsyncCallAt ρ))
  | .lockFreeRequestId req data => some (s, some (.drawing req data))
  | .drawing req data =>
    let (requestId, s) := s.getRequestID
    some (s, some (.lockSendMessage req data requestId))
  | .lockSendMessage req data requestId => some (s, some (.sending req data requestId))
  | .sending req data requestId =>
    match s.requestMessage H requestId data with
    | none => none
    | some _ => some (s, some (.lockRequest req requestId))
  | .lockRequest req requestId => some (s, some (.registering req requestId))
  | .registering req requestId => some (s.register requestId req, some .unlockSendMessage)
  | .unlockSendMessage => some (s, none)

end AsyncCallAt

/-- The next step of a thread: in the body of an `OnCallBack` or of a `HandleCall` it may be in a
call. The handlers are the one whose turn it is and those after it. -/
inductive RpcThread (ρ : Type) where
  | idle
  | inAsyncCall (call : AsyncCallAt ρ)
  | lockRequest (data : List Byte)
  | finding (data : List Byte)
  | inOnCallBack (data : List Byte) (call : Option (AsyncCallAt ρ))
  | erasing (data : List Byte)
  | lockFreeRequestId (data : List Byte)
  | pushing (data : List Byte)
  | unlockRequest
  | lockSendMessage (handlers : List Addr)
  | inHandleCall (handlers : List Addr) (call : Option (AsyncCallAt ρ))
  | unlockSendMessage (handlers : List Addr)
  deriving DecidableEq, Repr

namespace RpcThread

variable {ρ : Type}

/-- The lock the thread is about to take. -/
def wants : RpcThread ρ → Option SessionLock
  | .inAsyncCall call => call.wants
  | .inOnCallBack _ call | .inHandleCall _ call => call.bind (·.wants)
  | .lockRequest _ => some .requestLock
  | .lockFreeRequestId _ => some .freeRequestIdLock
  | .lockSendMessage _ => some .sendMessageLock
  | _ => none

/-- The locks the thread has taken. -/
def held : RpcThread ρ → List SessionLock
  | .inAsyncCall call => call.held
  | .inOnCallBack _ call => .requestLock :: call.elim [] (·.held)
  | .inHandleCall _ call => .sendMessageLock :: call.elim [] (·.held)
  | .finding _ | .erasing _ | .lockFreeRequestId _ | .unlockRequest => [.requestLock]
  | .pushing _ => [.requestLock, .freeRequestIdLock]
  | .unlockSendMessage _ => [.sendMessageLock]
  | .idle | .lockRequest _ | .lockSendMessage _ => []

def isIdle : RpcThread ρ → Bool
  | .idle => true
  | _ => false

/-- It is at a point where the program may issue an `AsyncCall`. -/
def mayCall : RpcThread ρ → Bool
  | .idle | .inOnCallBack _ none | .inHandleCall _ none => true
  | _ => false

/-- The body of an `OnCallBack` runs. -/
def inCallBackBody : RpcThread ρ → Bool
  | .inOnCallBack _ none => true
  | _ => false

/-- The body of a `HandleCall` runs. -/
def inHandlerBody : RpcThread ρ → Bool
  | .inHandleCall _ none => true
  | _ => false

/-- A call outside the two takes `send_message_lock_` next. -/
def takesSendMessage : RpcThread ρ → Bool
  | .inAsyncCall (.lockSendMessage _ _ _) => true
  | _ => false

/-- The thread after it enters an `AsyncCall`. -/
def enter (call : AsyncCallAt ρ) : RpcThread ρ → RpcThread ρ
  | .inOnCallBack data none => .inOnCallBack data (some call)
  | .inHandleCall handlers none => .inHandleCall handlers (some call)
  | _ => .inAsyncCall call

/-- An `OnCallBack` is in a call that has yet to take `send_message_lock_`. -/
def beforeSend : RpcThread ρ → Bool
  | .inOnCallBack _ call => call.any (·.beforeSend)
  | _ => false

/-- The thread holds `send_message_lock_` and is in a call that has yet to take
`request_lock_`. -/
def beforeRequest : RpcThread ρ → Bool
  | .inAsyncCall call => call.beforeRequest && !call.beforeSend
  | .inHandleCall _ call => call.any (·.beforeRequest)
  | _ => false

/-- `OnRecv` up to its first lock. -/
def onRecv (s : RPCSession ρ) (data : List Byte) : RpcThread ρ :=
  if data.length ≤ sizeofRPCMessageHeader then .idle
  else if (messageHeader data).type = rpcMessageTypeResponse then .lockRequest data
  else if (messageHeader data).type = rpcMessageTypeRequest then
    match s.handlerList with
    | [] => .idle
    | handlers => .lockSendMessage handlers
  else .idle

/-- The user's body returns. -/
def returns : RpcThread ρ → RpcThread ρ
  | .inOnCallBack data none => .erasing data
  | .inHandleCall handlers none => .unlockSendMessage handlers
  | th => th

variable (H : HostLayout)

/-- The next step of a thread that is not in the program's hands. -/
def run (s : RPCSession ρ) : RpcThread ρ → Option (RPCSession ρ × RpcThread ρ)
  | .inAsyncCall call =>
    (call.run H s).map fun r => (r.1, r.2.elim .idle .inAsyncCall)
  | .lockRequest data => some (s, .finding data)
  | .finding data =>
    match s.responseTarget H data with
    | some _ => some (s, .inOnCallBack data none)
    | none => some (s, .unlockRequest)
  | .inOnCallBack data (some call) =>
    (call.run H s).map fun r => (r.1, .inOnCallBack data r.2)
  | .erasing data => some (s.eraseRequest (RpcCalls.messageId H data), .lockFreeRequestId data)
  | .lockFreeRequestId data => some (s, .pushing data)
  | .pushing data => some (s.pushFreeId (RpcCalls.messageId H data), .unlockRequest)
  | .unlockRequest => some (s, .idle)
  | .lockSendMessage handlers => some (s, .inHandleCall handlers none)
  | .inHandleCall handlers (some call) =>
    (call.run H s).map fun r => (r.1, .inHandleCall handlers r.2)
  | .unlockSendMessage handlers =>
    match handlers.tail with
    | [] => some (s, .idle)
    | handlers => some (s, .lockSendMessage handlers)
  | th => some (s, th)

end RpcThread

/-- A session and `n` threads that use it. -/
structure RpcLocks (ρ : Type) (n : ℕ) where
  session : RPCSession ρ
  threads : Fin n → RpcThread ρ := fun _ => .idle
  halted : Bool := false

inductive LockEvent (ρ : Type) (n : ℕ) where
  | asyncCall (t : Fin n) (req : ρ) (data : List Byte)
  | onRecv (t : Fin n) (data : List Byte)
  | returns (t : Fin n)
  | run (t : Fin n)

namespace RpcLocks

variable {ρ : Type} {n : ℕ}

def goesTo (w : RpcLocks ρ n) (t : Fin n) (th : RpcThread ρ) : RpcLocks ρ n :=
  { w with threads := Function.update w.threads t th }

def step (H : HostLayout) (w : RpcLocks ρ n) : LockEvent ρ n → RpcLocks ρ n
  | .asyncCall t req data =>
    if RPCSession.acceptsLength data then
      w.goesTo t ((w.threads t).enter (.lockFreeRequestId req data))
    else w
  | .onRecv t data => w.goesTo t (RpcThread.onRecv w.session data)
  | .returns t => w.goesTo t (w.threads t).returns
  | .run t =>
    match (w.threads t).run H w.session with
    | none => { w with halted := true }
    | some (session, th) => { w with session }.goesTo t th

/-- A lock is taken when no other thread holds it. -/
def Can (w : RpcLocks ρ n) (ev : LockEvent ρ n) : Prop :=
  w.halted = false ∧
    match ev with
    | .asyncCall t _ _ => (w.threads t).mayCall
    | .onRecv t _ => (w.threads t).isIdle
    | .returns _ => True
    | .run t => ∀ l ∈ (w.threads t).wants, ∀ u, u ≠ t → l ∉ (w.threads u).held

/-- No thread enters a call from an `OnCallBack` while another holds `send_message_lock_` on its way
to `request_lock_`, and none gets on that way while an `OnCallBack` is on its way to
`send_message_lock_`. -/
def Apart (w : RpcLocks ρ n) : LockEvent ρ n → Prop
  | .asyncCall t _ data =>
    RPCSession.acceptsLength data →
      ((w.threads t).inCallBackBody → ∀ u, (w.threads u).beforeRequest = false) ∧
        ((w.threads t).inHandlerBody → ∀ u, (w.threads u).beforeSend = false)
  | .run t => (w.threads t).takesSendMessage → ∀ u, (w.threads u).beforeSend = false
  | .onRecv _ _ | .returns _ => True

/-- Threads wait for the locks they are about to take. -/
def NoDeadlock (w : RpcLocks ρ n) : Prop :=
  LockOrder.Acyclic (fun t => (w.threads t).wants) (fun t l => l ∈ (w.threads t).held)

instance (w : RpcLocks ρ n) : ∀ ev, Decidable (w.Can ev)
  | .asyncCall _ _ _ | .onRecv _ _ => inferInstanceAs (Decidable (_ ∧ _ = true))
  | .returns _ => inferInstanceAs (Decidable (_ ∧ True))
  | .run t => inferInstanceAs (Decidable (_ ∧ ∀ l ∈ (w.threads t).wants, ∀ u, u ≠ t →
      l ∉ (w.threads u).held))

instance (w : RpcLocks ρ n) : ∀ ev, Decidable (w.Apart ev)
  | .asyncCall _ _ _ => inferInstanceAs (Decidable (_ → (_ → ∀ _, _) ∧ (_ → ∀ _, _)))
  | .run _ => inferInstanceAs (Decidable (_ → ∀ _, _))
  | .onRecv _ _ | .returns _ => .isTrue trivial

end RpcLocks

end Elegance
