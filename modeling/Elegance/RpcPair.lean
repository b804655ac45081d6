import Elegance.RpcSessions

/-!
# Two managers and a connection

A manager that has called `AsyncConnect` and one that has called `AsyncListen`, with a connection
that brings the messages of each side to the other, whole and in order. A side has its callbacks when
the connection is opened for it, and a `Disconnect` of either closes it for both.
-/

namespace Elegance

open CInt

variable {ρ : Type}

/-- The keys the two sides were given, and the addresses and ids of the connection. -/
structure RpcPairing where
  clientKey : List Byte
  serverKey : List Byte
  serverIp : IPAddr
  port : Port
  localPort : Port
  clientIp : IPAddr
  clientPort : Port
  clientId : NetworkID
  serverId : NetworkID

inductive ConnState where
  | before
  | opened
  | closed
  deriving DecidableEq, Repr

/-- A side, with the messages that are on their way to it. -/
structure RpcSide (ρ : Type) where
  manager : RPCManager ρ
  state : ConnState := .before
  inbox : List (List Byte) := []
  trace : List (RPCManagerCall ρ) := []

structure RpcPair (ρ : Type) where
  client : RpcSide ρ
  server : RpcSide ρ

inductive RpcPairEvent where
  | onConnect
  | onAccept
  | clientRecv (beyond : List Byte) (reserveCh : Byte) (results : List HandleResult)
  | serverRecv (beyond : List Byte) (reserveCh : Byte) (results : List HandleResult)
  | clientDisconnect
  | serverDisconnect

/-- What a call sends on an id. -/
def RPCManagerCall.sentOn (n : NetworkID) : RPCManagerCall ρ → Option (List Byte)
  | .send networkId data => if networkId = n then some data else none
  | _ => none

/-- The call is `Disconnect` of an id. -/
def RPCManagerCall.drops (n : NetworkID) : RPCManagerCall ρ → Bool
  | .disconnect networkId => networkId = n
  | _ => false

/-- The sessions a side was told are active. -/
def RpcSide.activations (side : RpcSide ρ) : List RPCSessionID :=
  side.trace.filterMap (·.activates)

namespace RpcPair

variable (H : HostLayout) (p : RpcPairing)

def start : RpcPair ρ where
  client := { manager := (({} : RPCManager ρ).asyncConnect p.serverIp p.port p.clientKey).1 }
  server := { manager := (({} : RPCManager ρ).asyncListen p.port p.serverKey).1 }

/-- A callback of the client, and what it sends. -/
def clientTakes (w : RpcPair ρ) (state : ConnState) (inbox : List (List Byte))
    (result : RPCManager ρ × List (RPCManagerCall ρ)) : RpcPair ρ where
  client := { manager := result.1, state, inbox, trace := w.client.trace ++ result.2 }
  server := { w.server with
    inbox := w.server.inbox ++ result.2.filterMap (·.sentOn p.clientId) }

def serverTakes (w : RpcPair ρ) (state : ConnState) (inbox : List (List Byte))
    (result : RPCManager ρ × List (RPCManagerCall ρ)) : RpcPair ρ where
  client := { w.client with
    inbox := w.client.inbox ++ result.2.filterMap (·.sentOn p.serverId) }
  server := { manager := result.1, state, inbox, trace := w.server.trace ++ result.2 }

def step (w : RpcPair ρ) : RpcPairEvent → RpcPair ρ
  | .onConnect => w.clientTakes p .opened w.client.inbox
      (w.client.manager.onConnect H p.serverIp p.port p.localPort true p.clientId)
  | .onAccept => w.serverTakes p .opened w.server.inbox
      (w.server.manager.onAccept p.clientIp p.clientPort p.port p.serverId, [])
  | .clientRecv beyond reserveCh results =>
    match w.client.inbox with
    | [] => w
    | data :: inbox => w.clientTakes p w.client.state inbox
        (w.client.manager.onRecv H p.clientId data beyond reserveCh results)
  | .serverRecv beyond reserveCh results =>
    match w.server.inbox with
    | [] => w
    | data :: inbox => w.serverTakes p w.server.state inbox
        (w.server.manager.onRecv H p.serverId data beyond reserveCh results)
  | .clientDisconnect => w.clientTakes p .closed w.client.inbox
      (w.client.manager.onDisconnect p.clientId)
  | .serverDisconnect => w.serverTakes p .closed w.server.inbox
      (w.server.manager.onDisconnect p.serverId)

/-- A side has called `Disconnect`. -/
def dropped (w : RpcPair ρ) : Bool :=
  w.client.trace.any (·.drops p.clientId) || w.server.trace.any (·.drops p.serverId)

def Can (w : RpcPair ρ) : RpcPairEvent → Prop
  | .onConnect => w.client.state = .before
  | .onAccept => w.server.state = .before
  | .clientRecv _ _ _ => w.client.state = .opened ∧ w.client.inbox ≠ [] ∧ w.dropped p = false
  | .serverRecv _ _ _ => w.server.state = .opened ∧ w.server.inbox ≠ [] ∧ w.dropped p = false
  | .clientDisconnect => w.client.state = .opened ∧ w.dropped p = true
  | .serverDisconnect => w.server.state = .opened ∧ w.dropped p = true

/-- Nothing more happens. -/
def Done (w : RpcPair ρ) : Prop := ∀ ev, ¬ w.Can p ev

/-- The keys decide whether each side is told of one active session, in the end, or neither ever is,
and the server calls `Disconnect` of a client with another key. -/
structure Agreement (w : RpcPair ρ) : Prop where
  active : p.clientKey.length < rpcMaxKeyStringLength → p.clientKey = p.serverKey → w.Done p →
    w.client.activations.length = 1 ∧ w.server.activations.length = 1
  refused : p.clientKey.length < rpcMaxKeyStringLength → p.clientKey ≠ p.serverKey →
    w.client.activations = [] ∧ w.server.activations = [] ∧
      (w.Done p → .disconnect p.serverId ∈ w.server.trace)
  tooLong : rpcMaxKeyStringLength ≤ p.clientKey.length →
    w.client.activations = [] ∧ w.server.activations = []

instance (w : RpcPair ρ) : ∀ ev, Decidable (w.Can p ev)
  | .onConnect | .onAccept => inferInstanceAs (Decidable (_ = _))
  | .clientRecv _ _ _ | .serverRecv _ _ _ => inferInstanceAs (Decidable (_ = _ ∧ _ ≠ _ ∧ _ = _))
  | .clientDisconnect | .serverDisconnect => inferInstanceAs (Decidable (_ = _ ∧ _ = _))

end RpcPair

end Elegance
