import Elegance.RpcHandshake
import Elegance.Lib.Brackets

/-!
# The sessions of a manager

The callbacks of one `RPCManager` in any order, with what the application calls on it and on its
sessions. Beside the manager stand what was last reported of each network id, whether the manager has
noted it, the sessions the id has activated since, and all the calls the manager has made.
-/

namespace Elegance

open CInt Brackets

variable {ρ : Type}

inductive RpcSessionsEvent (ρ : Type) where
  | callback (ev : RpcEvent)
  | asyncConnect (serverIp : IPAddr) (port : Port) (key : List Byte)
  | asyncListen (port : Port) (key : List Byte)
  | asyncCall (sessionId : RPCSessionID) (req : ρ) (data : List Byte)

namespace RpcSessionsEvent

/-- The connection that is reported, with its id. -/
def reports : RpcSessionsEvent ρ → Option (NetworkID × Endpoint)
  | .callback (.onAccept remoteIpAddr remotePort localPort netId) =>
    some (netId, ⟨remoteIpAddr, remotePort, localPort⟩)
  | .callback (.onConnect ip port localPort true netId) => some (netId, ⟨ip, port, localPort⟩)
  | _ => none

def opens (ev : RpcSessionsEvent ρ) : Option NetworkID := ev.reports.map Prod.fst

def ends : RpcSessionsEvent ρ → Option NetworkID
  | .callback (.onDisconnect networkId) => some networkId
  | _ => none

def receivedOn : RpcSessionsEvent ρ → Option NetworkID
  | .callback ev => ev.receivedOn
  | _ => none

end RpcSessionsEvent

/-- The call makes the session active (`true`) or inactive. -/
def RPCManagerCall.activity (sessionId : RPCSessionID) : RPCManagerCall ρ → Option Bool
  | .onSessionActive sid => if sid = sessionId then some true else none
  | .onSessionInactive sid => if sid = sessionId then some false else none
  | _ => none

/-- `OnSessionActive` and `OnSessionInactive` of one session. -/
def activityOf (sessionId : RPCSessionID) (calls : List (RPCManagerCall ρ)) : List Bool :=
  calls.filterMap (·.activity sessionId)

/-- The session of an `OnSessionActive`. -/
def RPCManagerCall.activates : RPCManagerCall ρ → Option RPCSessionID
  | .onSessionActive sessionId => some sessionId
  | _ => none

namespace RPCManager

variable (H : HostLayout)

/-- `session->AsyncCall(req, data, length)` on a session of the manager. -/
def asyncCall (m : RPCManager ρ) (sessionId : RPCSessionID) (req : ρ) (data : List Byte) :
    RPCManager ρ × List (RPCManagerCall ρ) :=
  match m.sessionMap.find sessionId with
  | none => (m, [])
  | some session =>
    match session.asyncCall H req data with
    | .givenUp | .badCopy => (m, [])
    | .sent _ message session' =>
      ({ m with sessionMap := m.sessionMap.set sessionId session' },
        [.send session.networkId message])

def take (m : RPCManager ρ) : RpcSessionsEvent ρ → RPCManager ρ × List (RPCManagerCall ρ)
  | .callback ev => m.handle H ev
  | .asyncConnect serverIp port key => m.asyncConnect serverIp port key
  | .asyncListen port key => m.asyncListen port key
  | .asyncCall sessionId req data => m.asyncCall H sessionId req data

/-- What `uncheck_rpc_info_map_[network_id]` says of the connection. -/
def infoEndpoint (m : RPCManager ρ) (networkId : NetworkID) : Endpoint :=
  let info := (m.uncheckRpcInfoMap.find networkId).getD {}
  ⟨info.remoteIpAddr, info.remotePort, info.localPort⟩

/-- The session `OnActiveNetwork` is called for with it. -/
def sessionIdFor (m : RPCManager ρ) (networkId : NetworkID) : RPCSessionID :=
  let endpoint := m.infoEndpoint networkId
  calculateRPCSessionKey endpoint.localPort endpoint.remoteIpAddr endpoint.remotePort

/-- `OnRecv` calls `OnActiveNetwork`. -/
def activates (m : RPCManager ρ) (networkId : NetworkID) (data beyond : List Byte) : Bool :=
  m.acceptsKey networkId data beyond || acceptsResponse data beyond

/-- `OnRecv` looks for the session of the id. -/
def isForSession (data : List Byte) : Bool :=
  data.headD 0 ≠ rpcMessageTypeCheckKey && data.headD 0 ≠ rpcMessageTypeCheckKeyResponse

/-- The two maps are inverse, a session in them has the id it is bound to, and what is called on it
is sent there. -/
structure Bound (m : RPCManager ρ) : Prop where
  inverse : ∀ networkId sessionId, m.networkId2SessionIdMap.find networkId = some sessionId ↔
    m.sessionId2NetworkIdMap.find sessionId = some networkId
  session : ∀ networkId sessionId, m.networkId2SessionIdMap.find networkId = some sessionId →
    ∃ session, m.sessionMap.find sessionId = some session ∧ session.networkId = networkId
  calls : ∀ networkId sessionId, m.networkId2SessionIdMap.find networkId = some sessionId →
    ∀ req data, ∀ call ∈ (m.asyncCall H sessionId req data).2,
      ∃ message, call = .send networkId message

/-- After a connection is reported `uncheck_rpc_info_map_` has it: `OnConnect` writes it where there
is a key to present, `OnAccept` without the local port and where there is no entry. -/
def notes (m : RPCManager ρ) : RpcSessionsEvent ρ → Bool
  | .callback (.onConnect ip port localPort _ netId) =>
    (m.uncheckKeyMap.find (calculateRPCSessionKey 0 ip port)).any
        (·.length < rpcMaxKeyStringLength) ||
      m.infoEndpoint netId = ⟨ip, port, localPort⟩
  | .callback (.onAccept remoteIpAddr remotePort localPort netId) =>
    if (m.listenPort2KeyMap.find localPort.toNat).isSome ∧
        (m.uncheckRpcInfoMap.find netId).isNone then
      localPort = 0
    else m.infoEndpoint netId = ⟨remoteIpAddr, remotePort, localPort⟩
  | _ => false

/-- `OnActiveNetwork` meets neither the id nor the session bound elsewhere, nor the session with
another id of its own. -/
structure FitsSession (m : RPCManager ρ) (n : NetworkID) : Prop where
  sessionId : ∀ sid ∈ m.networkId2SessionIdMap.find n, sid = m.sessionIdFor n
  networkId : ∀ j ∈ m.sessionId2NetworkIdMap.find (m.sessionIdFor n), j = n
  session : ∀ session ∈ m.sessionMap.find (m.sessionIdFor n), session.networkId = n

/-- A message that activates a session fits it, and one for a session comes on an id with one. -/
structure FitsMessage (m : RPCManager ρ) (networkId : NetworkID) (data beyond : List Byte) :
    Prop where
  activates : m.activates networkId data beyond = true → m.FitsSession networkId
  forSession : isForSession data = true → (m.networkId2SessionIdMap.find networkId).isSome

end RPCManager

structure RpcSessions (ρ : Type) where
  manager : RPCManager ρ := {}
  live : NetworkID → Bool := fun _ => false
  reported : NetworkID → Option Endpoint := fun _ => none
  noted : NetworkID → Bool := fun _ => false
  activated : NetworkID → List RPCSessionID := fun _ => []
  trace : List (RPCManagerCall ρ) := []

namespace RpcSessions

variable (H : HostLayout)

def step (w : RpcSessions ρ) (ev : RpcSessionsEvent ρ) : RpcSessions ρ where
  manager := (w.manager.take H ev).1
  live n := if ev.opens = some n then true else if ev.ends = some n then false else w.live n
  reported n := if ev.opens = some n then ev.reports.map Prod.snd else w.reported n
  noted n := if ev.opens = some n then w.manager.notes ev else w.noted n
  activated n :=
    if ev.opens = some n ∨ ev.ends = some n then []
    else if ev.receivedOn = some n then
      w.activated n ++ (w.manager.take H ev).2.filterMap (·.activates)
    else w.activated n
  trace := w.trace ++ (w.manager.take H ev).2

/-- A connection is reported with an id that is not live, and messages come on live ids. -/
def Can (w : RpcSessions ρ) (ev : RpcSessionsEvent ρ) : Prop :=
  (∀ n ∈ ev.opens, w.live n = false) ∧ ∀ n ∈ ev.receivedOn, w.live n = true

/-- A message fits what it meets. -/
def Fits (w : RpcSessions ρ) : RpcSessionsEvent ρ → Prop
  | .callback (.onRecv networkId data beyond _ _) => w.manager.FitsMessage networkId data beyond
  | _ => True

/-- A session that a message makes active has the endpoint last reported for the message's id. -/
def EndpointRight (w : RpcSessions ρ) (ev : RpcSessionsEvent ρ) : Prop :=
  ∀ sessionId, .onSessionActive sessionId ∈ (w.manager.take H ev).2 →
    ∃ networkId, ev.receivedOn = some networkId ∧
      ∃ session, (w.step H ev).manager.sessionMap.find sessionId = some session ∧
        w.reported networkId = some session.endpoint

/-- A message activates a session only on an id whose last report `uncheck_rpc_info_map_` has. -/
def Noted (w : RpcSessions ρ) : RpcSessionsEvent ρ → Prop
  | .callback (.onRecv networkId data beyond _ _) =>
    w.manager.activates networkId data beyond = true → w.noted networkId = true
  | _ => True

/-- Each session is made active and inactive in turns, and the end of an id makes each session it
has activated inactive once. -/
def Bracketed (w : RpcSessions ρ) (ev : RpcSessionsEvent ρ) : Prop :=
  (∀ sessionId, Alternates (activityOf sessionId (w.step H ev).trace)) ∧
    ∀ networkId ∈ ev.ends, ∀ sessionId ∈ w.activated networkId,
      activityOf sessionId (w.manager.take H ev).2 = [false]

/-- No message activates a session that is bound to an id. -/
def Unbound (w : RpcSessions ρ) : RpcSessionsEvent ρ → Prop
  | .callback (.onRecv networkId data beyond _ _) =>
    w.manager.activates networkId data beyond = true →
      ∀ n, w.manager.networkId2SessionIdMap.find n ≠ some (w.manager.sessionIdFor networkId)
  | _ => True

instance (w : RpcSessions ρ) (ev : RpcSessionsEvent ρ) : Decidable (w.Can ev) :=
  inferInstanceAs (Decidable ((∀ n ∈ ev.opens, w.live n = false) ∧
    ∀ n ∈ ev.receivedOn, w.live n = true))

end RpcSessions

end Elegance
