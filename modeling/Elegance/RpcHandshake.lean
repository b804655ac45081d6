import Elegance.RpcManager
import Elegance.Lib.Run

/-!
# The handshake

The callbacks of one `RPCManager` in any order, with the network ids that are live, the port each
was accepted on and the keys the messages received on it have carried since.
-/

namespace Elegance

open CInt StdString

/-- A live connection; `acceptedOn` is `none` for one that was connected. -/
structure RpcConn where
  acceptedOn : Option Port
  presentedKeys : List (List Byte) := []
  deriving DecidableEq, Repr

structure RpcHandshake (ρ : Type) where
  manager : RPCManager ρ
  live : NetworkID → Option RpcConn := fun _ => none

inductive RpcEvent where
  | onAccept (remoteIpAddr : IPAddr) (remotePort localPort : Port) (netId : NetworkID)
  | onConnect (ip : IPAddr) (port localPort : Port) (success : Bool) (netId : NetworkID)
  | onRecv (networkId : NetworkID) (data beyond : List Byte) (reserveCh : Byte)
    (results : List HandleResult)
  | onDisconnect (networkId : NetworkID)
  | registerHandler (sessionId : RPCSessionID) (handler : Addr)

/-- The id a message came in on. -/
def RpcEvent.receivedOn : RpcEvent → Option NetworkID
  | .onRecv networkId _ _ _ _ => some networkId
  | _ => none

/-- A session is made active or one of its handlers called. -/
def RPCManagerCall.entersSession {ρ : Type} : RPCManagerCall ρ → Bool
  | .onSessionActive _ => true
  | .session (.handleCall _ _) => true
  | _ => false

/-- The key a message carries: what its own bytes hold of `key_str`, as far as a NUL. -/
def carriedKey (data : List Byte) : Option (List Byte) :=
  if data.headD 0 = rpcMessageTypeCheckKey ∧ keyStrOffset ≤ data.length then
    some (cString (data.drop keyStrOffset))
  else none

/-- A key message ends its string itself, or where the memory behind it happens to. -/
def KeyEnds (data beyond : List Byte) : Prop :=
  keyStrOffset ≤ data.length ∧ (0 ∈ data.drop keyStrOffset ∨ cString beyond = [])

instance (data beyond : List Byte) : Decidable (KeyEnds data beyond) :=
  inferInstanceAs (Decidable (_ ∧ (_ ∨ _)))

namespace RPCManager

variable {ρ : Type} (H : HostLayout)

def handle (m : RPCManager ρ) : RpcEvent → RPCManager ρ × List (RPCManagerCall ρ)
  | .onAccept remoteIpAddr remotePort localPort netId =>
    (m.onAccept remoteIpAddr remotePort localPort netId, [])
  | .onConnect ip port localPort success netId => m.onConnect H ip port localPort success netId
  | .onRecv networkId data beyond reserveCh results =>
    m.onRecv H networkId data beyond reserveCh results
  | .onDisconnect networkId => m.onDisconnect networkId
  | .registerHandler sessionId handler => (m.registerHandler sessionId handler, [])

/-- `OnRecv` takes a message for a right key. -/
def acceptsKey (m : RPCManager ρ) (networkId : NetworkID) (data beyond : List Byte) : Bool :=
  data.headD 0 = rpcMessageTypeCheckKey &&
    receiveKey data beyond = (m.networkId2KeyMap.find networkId).getD []

/-- `OnRecv` takes a message for the word that a key was right. -/
def acceptsResponse (data beyond : List Byte) : Bool :=
  data.headD 0 = rpcMessageTypeCheckKeyResponse && response data beyond = 1

end RPCManager

namespace RpcHandshake

variable {ρ : Type} (H : HostLayout)

/-- After the calls of `AsyncListen` and `AsyncConnect`. -/
def start (listens : List (Port × List Byte)) (connects : List ((IPAddr × Port) × List Byte)) :
    RpcHandshake ρ where
  manager :=
    let listening := listens.foldl (fun m l => (m.asyncListen l.1 l.2).1) {}
    connects.foldl (fun m c => (m.asyncConnect c.1.1 c.1.2 c.2).1) listening

def step (w : RpcHandshake ρ) (ev : RpcEvent) : RpcHandshake ρ where
  manager := (w.manager.handle H ev).1
  live :=
    match ev with
    | .onAccept _ _ localPort netId => Function.update w.live netId (some ⟨some localPort, []⟩)
    | .onConnect _ _ _ true netId => Function.update w.live netId (some ⟨none, []⟩)
    | .onRecv networkId data _ _ _ => Function.update w.live networkId
        ((w.live networkId).map fun conn =>
          { conn with presentedKeys := (carriedKey data).toList ++ conn.presentedKeys })
    | .onDisconnect networkId => Function.update w.live networkId none
    | _ => w.live

/-- Ids are issued when they are not live; messages are not empty and, like disconnects, come on
live ids. -/
def Can (w : RpcHandshake ρ) : RpcEvent → Prop
  | .onAccept _ _ _ netId => (w.live netId).isNone
  | .onConnect _ _ _ success netId => success = true → (w.live netId).isNone
  | .onRecv networkId data _ _ _ => (w.live networkId).isSome ∧ data ≠ []
  | .onDisconnect networkId => (w.live networkId).isSome
  | .registerHandler _ _ => True

/-- Unless the connection was connected, the key registered for its port was presented on it. -/
def Presented (w : RpcHandshake ρ) (networkId : NetworkID) : Prop :=
  ∀ conn ∈ w.live networkId, ∀ localPort ∈ conn.acceptedOn,
    ∃ key ∈ conn.presentedKeys, w.manager.listenPort2KeyMap.find localPort.toNat = some key

/-- A key is registered for the port of the connection. -/
def Registered (w : RpcHandshake ρ) (networkId : NetworkID) : Prop :=
  ∀ conn ∈ w.live networkId, ∀ localPort ∈ conn.acceptedOn,
    (w.manager.listenPort2KeyMap.find localPort.toNat).isSome

/-- A session is entered only for a message on a connection that has presented its key. -/
def Authenticated (w : RpcHandshake ρ) (ev : RpcEvent) : Prop :=
  ∀ call ∈ (w.manager.handle H ev).2, call.entersSession = true →
    ∃ networkId ∈ ev.receivedOn, (w.step H ev).Presented networkId

/-- Where the key is not presented yet, no response that it was right is received, and a message
`OnRecv` takes for the right key ends its string and comes by a port with a key. -/
def Checked (w : RpcHandshake ρ) : RpcEvent → Prop
  | .onRecv networkId data beyond _ _ => ¬ w.Presented networkId →
      RPCManager.acceptsResponse data beyond = false ∧
      (w.manager.acceptsKey networkId data beyond = true →
        KeyEnds data beyond ∧ w.Registered networkId)
  | _ => True

instance (w : RpcHandshake ρ) : ∀ ev, Decidable (w.Can ev)
  | .onAccept _ _ _ _ | .onDisconnect _ => inferInstanceAs (Decidable (_ = true))
  | .onConnect _ _ _ _ _ => inferInstanceAs (Decidable (_ → _ = true))
  | .onRecv _ _ _ _ _ => inferInstanceAs (Decidable (_ = true ∧ _))
  | .registerHandler _ _ => .isTrue trivial

instance (w : RpcHandshake ρ) (networkId : NetworkID) : Decidable (w.Presented networkId) :=
  inferInstanceAs (Decidable (∀ conn ∈ w.live networkId, ∀ localPort ∈ conn.acceptedOn,
    ∃ key ∈ conn.presentedKeys, w.manager.listenPort2KeyMap.find localPort.toNat = some key))

instance (w : RpcHandshake ρ) (networkId : NetworkID) : Decidable (w.Registered networkId) :=
  inferInstanceAs (Decidable (∀ conn ∈ w.live networkId, ∀ localPort ∈ conn.acceptedOn,
    (w.manager.listenPort2KeyMap.find localPort.toNat).isSome = true))

instance (w : RpcHandshake ρ) (ev : RpcEvent) : Decidable (w.Authenticated H ev) :=
  inferInstanceAs (Decidable (∀ call ∈ (w.manager.handle H ev).2, call.entersSession = true →
    ∃ networkId ∈ ev.receivedOn, (w.step H ev).Presented networkId))

instance (w : RpcHandshake ρ) : ∀ ev, Decidable (w.Checked ev)
  | .onRecv _ _ _ _ _ => inferInstanceAs (Decidable (¬ _ → _ ∧ (_ → _ ∧ _)))
  | .onAccept _ _ _ _ | .onConnect _ _ _ _ _ | .onDisconnect _ | .registerHandler _ _ =>
    .isTrue trivial

end RpcHandshake

end Elegance
