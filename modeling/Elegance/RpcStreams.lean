import Elegance.RpcLink

/-!
# Two sessions over byte streams

The messages of the two sessions of `RpcLink` go through `PackAndSend` into a stream of bytes a
direction. The other side reads as many bytes at a time as it likes, `UnPack` finds the packages in
them, and they are handed to the session one after another before the next read.
-/

namespace Elegance

open CInt

/-- The messages sent under a net id among what a session does. -/
def sendsOn {ρ : Type} (netId : NetworkID) (calls : List (SessionCall ρ)) : List (List Byte) :=
  calls.filterMap fun
    | .send networkId data => if networkId = netId then some data else none
    | _ => none

/-- The packages of a call of `UnPack` that `OnRecvPackage` passes on to its handlers. -/
def passedOn (netId : NetworkID) (events : List PackerEvent) : List (List Byte) :=
  ((managerRecvs netId events).filter fun p => ¬ (netId ≤ 0 ∨ p.2 ≤ 0)).map
    fun p => p.1.take p.2.toNat

/-- The bytes `PackAndSend` writes for the messages; `none` where one of its copies leaves its
buffer. -/
def packAll (H : HostLayout) (msgs : List (List Byte)) : Option (List Byte) :=
  (msgs.mapM (packAndSend H)).map fun packed => (packed.map Prod.fst).flatten

/-- `sentCalls` are the numbers of the calls sent and `served` how the handlers ended on each
request handed to the server, both in order; they are there for the statement only. -/
structure RpcStreams where
  client : RPCSession ℕ
  server : RPCSession ℕ
  clientMap : NetIdToBufferMap := .empty
  serverMap : NetIdToBufferMap := .empty
  requestBytes : List Byte := []
  responseBytes : List Byte := []
  serverInbox : List (List Byte) := []
  clientInbox : List (List Byte) := []
  calls : ℕ := 0
  sentCalls : List ℕ := []
  served : List (List HandleResult) := []
  calledBack : List (ℕ × List Byte) := []
  halted : Bool := false

inductive StreamEvent where
  | asyncCall (data : List Byte)
  | serverReads (size : ℕ)
  /-- The server is handed a message; its handlers end as in `results`. -/
  | serve (results : List HandleResult)
  | clientReads (size : ℕ)
  /-- The client is handed a message. -/
  | respond

namespace RpcStreams

variable (H : HostLayout)

def start (clientHandlers serverHandlers : List Addr) (clientCh serverCh : Byte)
    (clientId serverId : NetworkID) : RpcStreams where
  client := { handlerList := clientHandlers, reserveCh := clientCh, networkId := clientId }
  server := { handlerList := serverHandlers, reserveCh := serverCh, networkId := serverId }

/-- The bytes of a request are put on the connection. -/
def sendRequest (w : RpcStreams) : Option (List Byte) → RpcStreams
  | none => { w with halted := true }
  | some bytes => { w with requestBytes := w.requestBytes ++ bytes }

def step (w : RpcStreams) : StreamEvent → RpcStreams
  | .asyncCall data =>
    match w.client.asyncCall H w.calls data with
    | .givenUp => { w with calls := w.calls + 1 }
    | .badCopy => { w with halted := true }
    | .sent _ message client =>
      sendRequest
        { w with client, sentCalls := w.sentCalls ++ [w.calls], calls := w.calls + 1 }
        (packAll H [message])
  | .serverReads size =>
    let o := unPack H w.serverMap w.server.networkId (w.requestBytes.take size)
    match o.final with
    | .error _ => { w with halted := true }
    | .ok serverMap =>
      { w with
        serverMap
        requestBytes := w.requestBytes.drop size
        serverInbox := w.serverInbox ++ passedOn w.server.networkId o.events }
  | .serve results =>
    match w.serverInbox with
    | [] => w
    | message :: serverInbox =>
      let (server, calls) := w.server.onRecv H message results
      match packAll H (sendsOn w.server.networkId calls) with
      | none => { w with halted := true }
      | some bytes =>
        { w with
          server
          serverInbox
          responseBytes := w.responseBytes ++ bytes
          served := w.served ++ [results] }
  | .clientReads size =>
    let o := unPack H w.clientMap w.client.networkId (w.responseBytes.take size)
    match o.final with
    | .error _ => { w with halted := true }
    | .ok clientMap =>
      { w with
        clientMap
        responseBytes := w.responseBytes.drop size
        clientInbox := w.clientInbox ++ passedOn w.client.networkId o.events }
  | .respond =>
    match w.clientInbox with
    | [] => w
    | message :: clientInbox =>
      let (client, calls) := w.client.onRecv H message []
      { w with client, clientInbox, calledBack := w.calledBack ++ callBacks calls }

/-- Some bytes are read of those that are there, no more than an `int` counts. -/
def Reads (wire : List Byte) (size : ℕ) : Prop :=
  0 < size ∧ size ≤ wire.length ∧ (size : ℤ) ≤ intMax

/-- A call leaves at most `SHRT_MAX` requests outstanding, and its length and the header's are an
`int`; a side reads once it has been handed what it read before, and every handler is asked. -/
def Can (w : RpcStreams) : StreamEvent → Prop
  | .asyncCall data => w.halted = false ∧ w.client.Room data ∧
      (data.length + sizeofRPCMessageHeader : ℤ) ≤ intMax
  | .serverReads size => w.halted = false ∧ w.serverInbox = [] ∧ Reads w.requestBytes size
  | .serve results => w.halted = false ∧ w.serverInbox ≠ [] ∧
      results.length = w.server.handlerList.length
  | .clientReads size => w.halted = false ∧ w.clientInbox = [] ∧ Reads w.responseBytes size
  | .respond => w.halted = false ∧ w.clientInbox ≠ []

/-- At most one handler answers the request. -/
def OneAnswer (_ : RpcStreams) : StreamEvent → Prop
  | .serve results => (results.filter HandleResult.answers).length ≤ 1
  | _ => True

instance (wire : List Byte) (size : ℕ) : Decidable (Reads wire size) :=
  inferInstanceAs (Decidable (_ ∧ _ ∧ _))

instance (w : RpcStreams) : ∀ ev, Decidable (w.Can ev)
  | .asyncCall _ | .serverReads _ | .serve _ | .clientReads _ =>
    inferInstanceAs (Decidable (_ ∧ _ ∧ _))
  | .respond => inferInstanceAs (Decidable (_ ∧ _ ≠ _))

instance (w : RpcStreams) : ∀ ev, Decidable (w.OneAnswer ev)
  | .serve _ => inferInstanceAs (Decidable (_ ≤ _))
  | .asyncCall _ | .serverReads _ | .clientReads _ | .respond => .isTrue trivial

/-- The answers made, each with the number of the call it is for: the first call sent is the first
one served. -/
def answered (w : RpcStreams) : List (ℕ × List Byte) :=
  (w.sentCalls.zip w.served).flatMap fun p =>
    (p.2.filter HandleResult.answers).map fun r => (p.1, r.resultData)

/-- No byte is under way and no message waits. -/
def Drained (w : RpcStreams) : Prop :=
  w.requestBytes = [] ∧ w.serverInbox = [] ∧ w.responseBytes = [] ∧ w.clientInbox = []

instance (w : RpcStreams) : Decidable w.Drained :=
  inferInstanceAs (Decidable (_ ∧ _ ∧ _ ∧ _))

end RpcStreams

end Elegance
