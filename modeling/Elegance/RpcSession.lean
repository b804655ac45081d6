import Elegance.Packer
import Elegance.Socket

/-!
# `RPCSession`

`AsyncCall` draws a request id, sends the request and enters it in `request_list_`; `OnRecv` runs
the callback a response's id leads to and frees the id, or answers a request once for each handler
that has a result.
-/

namespace Elegance

open CInt

def rpcSessionNetworkMessageMaxLen : ℤ := 10240

/-- `sizeof(RPCMessageHeader)`. -/
def sizeofRPCMessageHeader : ℕ := 4

def rpcMessageTypeCheckKey : Byte := 0

def rpcMessageTypeCheckKeyResponse : Byte := 1

def rpcMessageTypeRequest : Byte := 2

def rpcMessageTypeResponse : Byte := 3

/-- An `RPCMessageHeader`; the id is the two bytes it takes in a message. -/
structure RPCMessageHeader where
  type : Byte
  reserveCh : Byte
  messageId : List Byte

/-- The header at the front of a message, and what follows it. -/
def messageHeader (data : List Byte) : RPCMessageHeader :=
  ⟨data.headD 0, (data.drop 1).headD 0, (data.drop 2).take 2⟩

def messageBody (data : List Byte) : List Byte := data.drop sizeofRPCMessageHeader

/-- The message in `message_buffer_` behind a header. -/
def RPCMessageHeader.message (h : RPCMessageHeader) (body : List Byte) : List Byte :=
  h.type :: h.reserveCh :: (h.messageId ++ body)

/-- How a handler's `HandleCall` ended: its result, the length it returned and as many bytes of the
buffer it was given for the answer. A length near `INT_MAX`, in a buffer of 10236 bytes, is left
out. -/
structure HandleResult where
  handleResult : ℤ
  resultDataLen : ℤ
  resultData : List Byte
  length_resultData : resultData.length = resultDataLen.toNat
  resultDataLen_le : resultDataLen ≤ intMax - sizeofRPCMessageHeader

/-- The answer is sent. -/
def HandleResult.answers (r : HandleResult) : Bool :=
  r.handleResult = 0 && 0 < r.resultDataLen &&
    wrap32 (r.resultDataLen + sizeofRPCMessageHeader) < rpcSessionNetworkMessageMaxLen

/-- What a session does to the outside: `ρ` are the request objects. -/
inductive SessionCall (ρ : Type) where
  | onCallBack (request : ρ) (data : List Byte)
  | handleCall (handler : Addr) (data : List Byte)
  | send (networkId : NetworkID) (data : List Byte)
  deriving DecidableEq, Repr

/-- `message_buffer_` is kept as its second byte, the only one sent that no call writes before. -/
structure RPCSession (ρ : Type) where
  endpoint : Endpoint := {}
  networkId : NetworkID := 0
  reserveCh : Byte := 0
  handlerList : List Addr := []
  requestList : StdMap ℤ ρ := .empty
  nextRequestId : ℤ := 0
  freeRequestIdStack : List ℤ := []

namespace RPCSession

variable {ρ : Type} (H : HostLayout)

/-- The set of pointers is a list in the order of the addresses. -/
def registerHandler (s : RPCSession ρ) (handler : Addr) : RPCSession ρ :=
  if handler ≠ 0 ∧ handler ∉ s.handlerList then
    { s with handlerList := s.handlerList.orderedInsert (· ≤ ·) handler }
  else s

def getRequestID (s : RPCSession ρ) : ℤ × RPCSession ρ :=
  match s.freeRequestIdStack with
  | [] => (s.nextRequestId, { s with nextRequestId := (s.nextRequestId + 1) % shrtMax })
  | top :: rest => (top, { s with freeRequestIdStack := rest })

/-- `AsyncCall` does not give the request up at its length. -/
def acceptsLength (data : List Byte) : Bool :=
  0 < (data.length : ℤ) &&
    wrap32 (data.length + sizeofRPCMessageHeader) < rpcSessionNetworkMessageMaxLen

/-- The message `AsyncCall` sends; `none` where its `memcpy` leaves `message_buffer_`. -/
def requestMessage (s : RPCSession ρ) (requestId : ℤ) (data : List Byte) : Option (List Byte) :=
  if (sizeofRPCMessageHeader + data.length : ℤ) ≤ rpcSessionNetworkMessageMaxLen then
    some (RPCMessageHeader.message
      ⟨rpcMessageTypeRequest, s.reserveCh, H.writeShort (wrap16 requestId)⟩ data)
  else none

/-- `request_list_[request_id] = req`. -/
def register (s : RPCSession ρ) (requestId : ℤ) (req : ρ) : RPCSession ρ :=
  { s with requestList := s.requestList.set requestId req }

/-- How an `AsyncCall` ended. -/
inductive CallResult (ρ : Type) where
  | givenUp
  | badCopy
  | sent (requestId : ℤ) (message : List Byte) (session : RPCSession ρ)

def asyncCall (s : RPCSession ρ) (req : ρ) (data : List Byte) : CallResult ρ :=
  if acceptsLength data then
    let (requestId, s) := s.getRequestID
    match s.requestMessage H requestId data with
    | none => .badCopy
    | some message => .sent requestId message (s.register requestId req)
  else .givenUp

/-- The request a response is for. -/
def responseTarget (s : RPCSession ρ) (data : List Byte) : Option ρ :=
  s.requestList.find (H.readShort (messageHeader data).messageId)

/-- `request_list_.erase(request_it)`, under `request_lock_`. -/
def eraseRequest (s : RPCSession ρ) (messageId : ℤ) : RPCSession ρ :=
  { s with requestList := s.requestList.erase messageId }

/-- `free_request_id_stack_.push(message_id)`, under `free_request_id_lock_`. -/
def pushFreeId (s : RPCSession ρ) (messageId : ℤ) : RPCSession ρ :=
  { s with freeRequestIdStack := messageId :: s.freeRequestIdStack }

/-- The response a handler's result becomes. -/
def answer (s : RPCSession ρ) (data : List Byte) (result : HandleResult) : List Byte :=
  RPCMessageHeader.message
    ⟨rpcMessageTypeResponse, s.reserveCh, (messageHeader data).messageId⟩ result.resultData

/-- A turn of the loop over the handlers. -/
def handleRequest (s : RPCSession ρ) (data : List Byte) (handler : Addr) (result : HandleResult) :
    List (SessionCall ρ) :=
  .handleCall handler (messageBody data) ::
    if result.answers then [.send s.networkId (s.answer data result)] else []

/-- A call of `data`, if it is of a length that is sent, leaves at most `SHRT_MAX` pending. -/
def Room (s : RPCSession ρ) (data : List Byte) : Prop :=
  data ≠ [] → (sizeofRPCMessageHeader + data.length : ℤ) < rpcSessionNetworkMessageMaxLen →
    (s.requestList.size : ℤ) < shrtMax

instance (s : RPCSession ρ) (data : List Byte) : Decidable (s.Room data) :=
  inferInstanceAs (Decidable (_ → _ → _))

/-- `OnRecv`, where each handler's `HandleCall` in turn ends as in `results`. -/
def onRecv (s : RPCSession ρ) (data : List Byte) (results : List HandleResult) :
    RPCSession ρ × List (SessionCall ρ) :=
  if data.length ≤ sizeofRPCMessageHeader then (s, [])
  else
    let messageId := H.readShort (messageHeader data).messageId
    if (messageHeader data).type = rpcMessageTypeResponse then
      match s.responseTarget H data with
      | some request =>
        ((s.eraseRequest messageId).pushFreeId messageId, [.onCallBack request (messageBody data)])
      | none => (s, [])
    else if (messageHeader data).type = rpcMessageTypeRequest then
      (s, (s.handlerList.zip results).flatMap fun p => s.handleRequest data p.1 p.2)
    else (s, [])

end RPCSession

end Elegance
