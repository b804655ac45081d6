import Elegance.RpcSession
import Elegance.Lib.StdString

/-!
# `RPCManager`

`OnAccept` notes the key of the port a connection came in on; `OnRecv` tells key checks, their
responses and session messages apart by the first byte, and `OnActiveNetwork` makes the connection
one of a session. What a callback does to the outside are the `RPCManagerCall`s it returns.
-/

namespace Elegance

open CInt StdString

def rpcMaxKeyStringLength : ℕ := 99

/-- Where `key_str` stands in an `RPCMessageCheckKeyCS`, behind the type and the length. -/
def keyStrOffset : ℕ := 4

abbrev RPCSessionID := List Byte

structure UncheckRPCInfo where
  networkId : NetworkID := 0
  remoteIpAddr : IPAddr := []
  remotePort : Port := 0
  localPort : Port := 0
  deriving DecidableEq, Repr

inductive RPCManagerCall (ρ : Type) where
  | send (networkId : NetworkID) (data : List Byte)
  | disconnect (networkId : NetworkID)
  | syncListen (port : Port)
  | syncConnect (ip : IPAddr) (port : Port)
  | onConnectFail (ip : IPAddr) (port : Port)
  | onSessionActive (sessionId : RPCSessionID)
  | onSessionInactive (sessionId : RPCSessionID)
  | session (call : SessionCall ρ)
  deriving DecidableEq, Repr

structure RPCManager (ρ : Type) where
  sessionId2NetworkIdMap : StdMap RPCSessionID NetworkID := .empty
  networkId2SessionIdMap : StdMap NetworkID RPCSessionID := .empty
  sessionMap : StdMap RPCSessionID (RPCSession ρ) := .empty
  uncheckKeyMap : StdMap (List Byte) (List Byte) := .empty
  uncheckRpcInfoMap : StdMap ℤ UncheckRPCInfo := .empty
  listenPort2KeyMap : StdMap ℤ (List Byte) := .empty
  networkId2KeyMap : StdMap ℤ (List Byte) := .empty

def calculateRPCSessionKey (localPort : Port) (remoteIpAddr : IPAddr) (remotePort : Port) :
    RPCSessionID :=
  decimal localPort.toNat ++ 95 :: (remoteIpAddr ++ 95 :: decimal remotePort.toNat)

namespace RPCManager

variable {ρ : Type} (H : HostLayout)

def asyncConnect (m : RPCManager ρ) (serverIp : IPAddr) (port : Port) (key : List Byte) :
    RPCManager ρ × List (RPCManagerCall ρ) :=
  ({ m with uncheckKeyMap := m.uncheckKeyMap.set (calculateRPCSessionKey 0 serverIp port) key },
    [.syncConnect serverIp port])

def asyncListen (m : RPCManager ρ) (port : Port) (key : List Byte) :
    RPCManager ρ × List (RPCManagerCall ρ) :=
  ({ m with listenPort2KeyMap := m.listenPort2KeyMap.set port.toNat key }, [.syncListen port])

/-- `session->RegisterHandler(handler)` on a session of the manager. -/
def registerHandler (m : RPCManager ρ) (sessionId : RPCSessionID) (handler : Addr) : RPCManager ρ :=
  match m.sessionMap.find sessionId with
  | none => m
  | some session =>
    { m with sessionMap := m.sessionMap.set sessionId (session.registerHandler handler) }

/-- `reserveCh` is what the second byte of a new session's `message_buffer_` happens to be. -/
def onActiveNetwork (m : RPCManager ρ) (reserveCh : Byte) (networkId : NetworkID)
    (listenPort : Port) (remoteIpAddr : IPAddr) (remotePort : Port) :
    RPCManager ρ × List (RPCManagerCall ρ) :=
  let sessionId := calculateRPCSessionKey listenPort remoteIpAddr remotePort
  let sessionMap :=
    match m.sessionMap.find sessionId with
    | some _ => m.sessionMap
    | none => m.sessionMap.set sessionId
        { endpoint := ⟨remoteIpAddr, remotePort, listenPort⟩, networkId, reserveCh }
  ({ m with
      sessionMap
      sessionId2NetworkIdMap := m.sessionId2NetworkIdMap.set sessionId networkId
      networkId2SessionIdMap := m.networkId2SessionIdMap.set networkId sessionId },
    [.onSessionActive sessionId])

/-- The `RPCMessageCheckKeyCS` that is sent of a key, as far as the NUL. -/
def checkKeyMessage (key : List Byte) : List Byte :=
  rpcMessageTypeCheckKey :: 0 :: (H.writeShort key.length ++ (key ++ [0]))

def onConnect (m : RPCManager ρ) (ip : IPAddr) (port localPort : Port) (success : Bool)
    (netId : NetworkID) : RPCManager ρ × List (RPCManagerCall ρ) :=
  if !success then (m, [.onConnectFail ip port])
  else
    match m.uncheckKeyMap.find (calculateRPCSessionKey 0 ip port) with
    | none => (m, [])
    | some rpcKey =>
      if rpcKey.length < rpcMaxKeyStringLength then
        ({ m with uncheckRpcInfoMap := m.uncheckRpcInfoMap.set netId ⟨netId, ip, port, localPort⟩ },
          [.send netId (checkKeyMessage H rpcKey)])
      else (m, [])

def onAccept (m : RPCManager ρ) (remoteIpAddr : IPAddr) (remotePort localPort : Port)
    (netId : NetworkID) : RPCManager ρ :=
  match m.listenPort2KeyMap.find localPort.toNat with
  | none => m
  | some key =>
    { m with
      networkId2KeyMap := m.networkId2KeyMap.set netId key
      uncheckRpcInfoMap :=
        match m.uncheckRpcInfoMap.find netId with
        | none => m.uncheckRpcInfoMap.set netId { networkId := netId, remoteIpAddr, remotePort }
        | some _ => m.uncheckRpcInfoMap }

/-- `receive_key`: `key_str` up to the first NUL, wherever in memory that is. -/
def receiveKey (data beyond : List Byte) : List Byte :=
  cString ((data ++ beyond).drop keyStrOffset)

/-- `respon_sc->response`. -/
def response (data beyond : List Byte) : Byte := ((data ++ beyond).drop 1).headD 0

/-- `OnActiveNetwork` with what `uncheck_rpc_info_map_[network_id]` holds. -/
def activate (m : RPCManager ρ) (reserveCh : Byte) (networkId : NetworkID) :
    RPCManager ρ × List (RPCManagerCall ρ) :=
  let (uncheckRpcInfoMap, info) := m.uncheckRpcInfoMap.index networkId {}
  { m with uncheckRpcInfoMap }.onActiveNetwork reserveCh networkId info.localPort
    info.remoteIpAddr info.remotePort

/-- `OnRecv`, where `beyond` is the memory behind the message and each handler's `HandleCall` in
turn ends as in `results`. -/
def onRecv (m : RPCManager ρ) (networkId : NetworkID) (data beyond : List Byte) (reserveCh : Byte)
    (results : List HandleResult) : RPCManager ρ × List (RPCManagerCall ρ) :=
  if data.headD 0 = rpcMessageTypeCheckKey then
    let (networkId2KeyMap, key) := m.networkId2KeyMap.index networkId []
    let m := { m with networkId2KeyMap }
    if receiveKey data beyond = key then
      let (m, calls) := m.activate reserveCh networkId
      (m, .send networkId [rpcMessageTypeCheckKeyResponse, 1] :: calls)
    else (m, [.disconnect networkId])
  else if data.headD 0 = rpcMessageTypeCheckKeyResponse then
    if response data beyond = 1 then m.activate reserveCh networkId
    else (m, [.disconnect networkId])
  else
    let (networkId2SessionIdMap, sessionId) := m.networkId2SessionIdMap.index networkId []
    let m := { m with networkId2SessionIdMap }
    match m.sessionMap.find sessionId with
    | none => (m, [])
    | some session =>
      let (session, calls) := session.onRecv H data results
      ({ m with sessionMap := m.sessionMap.set sessionId session }, calls.map .session)

def onDisconnect (m : RPCManager ρ) (networkId : NetworkID) :
    RPCManager ρ × List (RPCManagerCall ρ) :=
  let (networkId2SessionIdMap, sessionId) := m.networkId2SessionIdMap.index networkId []
  ({ m with
      sessionId2NetworkIdMap := m.sessionId2NetworkIdMap.erase sessionId
      networkId2SessionIdMap := networkId2SessionIdMap.erase networkId },
    match m.sessionMap.find sessionId with
    | none => []
    | some _ => [.onSessionInactive sessionId])

end RPCManager

end Elegance
