import Elegance.Packer
import Elegance.Socket

/-!
# `NetworkManager`

Net ids come from a stack of freed ids, or from a counter where it is empty; two maps lead from an
id to its endpoint and back, two more from an id to the socket object it was found on. Handlers are
called at once, or by way of the task queue in single-thread mode.
-/

namespace Elegance

open CInt

inductive TaskType where
  | onConnect
  | onConnectFail
  | onListenFail
  | onAccept
  | onDisconnect
  | onRecv
  deriving DecidableEq, Repr

structure NetworkHandleTask where
  taskType : TaskType
  netId : NetworkID := 0
  remoteIp : IPAddr := []
  remotePort : Port := 0
  localPort : Port := 0
  data : List Byte := []
  length : ℤ := 0
  deriving DecidableEq, Repr

/-- A call of an `INetworkHandler`. -/
inductive HandlerCall where
  | onListenFail (port : Port)
  | onAccept (ip : IPAddr) (port localPort : Port) (netId : NetworkID)
  | onConnect (ip : IPAddr) (port localPort : Port) (success : Bool) (netId : NetworkID)
  | onRecv (netId : NetworkID) (data : List Byte) (length : ℤ)
  | onDisconnect (netId : NetworkID)
  deriving DecidableEq, Repr

/-- `net_id_to_endpoint_map_` and `endpoint_to_net_id_map_`. -/
structure EndpointTables where
  netIdToEndpointMap : StdMap NetworkID Endpoint := .empty
  endpointToNetIdMap : StdMap Endpoint NetworkID := .empty

/-- The sets of pointers are lists in the order of the addresses, the stack has its top first. -/
structure NetworkManager extends EndpointTables where
  handlerList : List Addr := []
  acceptList : List Addr := []
  connectList : List Addr := []
  freeNetIdList : List NetworkID := []
  maxNetId : ℤ := 0
  netIdToAccept : StdMap NetworkID Addr := .empty
  netIdToConnect : StdMap NetworkID Addr := .empty
  netIdToBufferMap : NetIdToBufferMap := .empty
  singleThreadHandleMode : Bool := false
  handleTaskQueue : List NetworkHandleTask := []

/-- A `Write` on a socket object. -/
inductive SocketWrite where
  | accept (socket : Addr) (ip : IPAddr) (port : Port) (data : List Byte)
  | connect (socket : Addr) (data : List Byte)
  deriving DecidableEq, Repr

/-- The loop of `OnAccept` and of `OnConnect` over the socket objects: each that passes the test
becomes the owner of the id, and the endpoint is entered again. -/
def registerSockets (checkOnHandle : Addr → Bool) (netId : NetworkID) (endPoint : Endpoint) :
    List Addr → StdMap NetworkID Addr × EndpointTables → StdMap NetworkID Addr × EndpointTables
  | [], r => r
  | socket :: sockets, (owner, t) =>
    registerSockets checkOnHandle netId endPoint sockets <|
      if checkOnHandle socket then
        (owner.set netId socket,
          { netIdToEndpointMap := t.netIdToEndpointMap.set netId endPoint
            endpointToNetIdMap := t.endpointToNetIdMap.set endPoint netId })
      else (owner, t)

namespace NetworkManager

def getFreeNetID (m : NetworkManager) : NetworkID × NetworkManager :=
  match m.freeNetIdList with
  | tmpNetId :: rest => (tmpNetId, { m with freeNetIdList := rest })
  | [] => (wrap32 (m.maxNetId + 1), { m with maxNetId := wrap32 (m.maxNetId + 1) })

/-- Queue the task in single-thread mode, else make the call on every handler. -/
def tell (m : NetworkManager) (task : NetworkHandleTask) (call : HandlerCall) :
    NetworkManager × List (Addr × HandlerCall) :=
  if m.singleThreadHandleMode then ({ m with handleTaskQueue := m.handleTaskQueue ++ [task] }, [])
  else (m, m.handlerList.map fun handler => (handler, call))

def onAccept (accepts : Addr → SocketAccept) (m : NetworkManager) (remoteIp : IPAddr)
    (remotePort localPort : Port) : NetworkManager × List (Addr × HandlerCall) :=
  let (netId, m) := m.getFreeNetID
  let (owner, tables) := registerSockets (fun a => (accepts a).checkOnHandle remoteIp remotePort)
    netId ⟨remoteIp, remotePort, localPort⟩ m.acceptList (m.netIdToAccept, m.toEndpointTables)
  { m with netIdToAccept := owner, toEndpointTables := tables }.tell
    { taskType := .onAccept, netId, remoteIp, remotePort, localPort }
    (.onAccept remoteIp remotePort localPort netId)

def onConnect (connects : Addr → SocketConnect) (m : NetworkManager) (remoteIp : IPAddr)
    (remotePort localPort : Port) : NetworkManager × List (Addr × HandlerCall) :=
  let (netId, m) := m.getFreeNetID
  let (owner, tables) := registerSockets (fun a => (connects a).checkOnHandle remoteIp remotePort)
    netId ⟨remoteIp, remotePort, localPort⟩ m.connectList (m.netIdToConnect, m.toEndpointTables)
  { m with netIdToConnect := owner, toEndpointTables := tables }.tell
    { taskType := .onConnect, netId, remoteIp, remotePort, localPort }
    (.onConnect remoteIp remotePort localPort true netId)

/-- The net id `OnRecv` hands the data of an endpoint to the packer under. -/
def recvNetId (m : NetworkManager) (ip : IPAddr) (port localPort : Port) : Option NetworkID :=
  m.endpointToNetIdMap.find ⟨ip, port, localPort⟩

/-- `packager_->UnPack(net_id, data, length)`: what the packer did, with the packages it handed to
`OnRecvPackage`. -/
def packagerUnPack (H : HostLayout) (m : NetworkManager) (netId : NetworkID) (data : List Byte) :
    List PackerEvent × Except Halt NetworkManager :=
  let o := unPack H m.netIdToBufferMap netId data
  (o.events, o.final.map fun netIdToBufferMap => { m with netIdToBufferMap })

def onRecv (H : HostLayout) (m : NetworkManager) (ip : IPAddr) (port localPort : Port)
    (data : List Byte) : List PackerEvent × Except Halt NetworkManager :=
  match m.recvNetId ip port localPort with
  | none => ([], .ok m)
  | some netId => m.packagerUnPack H netId data

def onDisconnect (m : NetworkManager) (ip : IPAddr) (port localPort : Port) :
    NetworkManager × List (Addr × HandlerCall) :=
  match m.endpointToNetIdMap.find ⟨ip, port, localPort⟩ with
  | none => (m, [])
  | some netId =>
    let (m, calls) :=
      { m with
        netIdToEndpointMap := m.netIdToEndpointMap.erase netId
        endpointToNetIdMap := m.endpointToNetIdMap.erase ⟨ip, port, localPort⟩
        netIdToAccept := m.netIdToAccept.erase netId
        netIdToConnect := m.netIdToConnect.erase netId }.tell
        { taskType := .onDisconnect, netId, localPort } (.onDisconnect netId)
    ({ m with freeNetIdList := netId :: m.freeNetIdList }, calls)

def sendRaw (m : NetworkManager) (netId : NetworkID) (data : List Byte) : List SocketWrite :=
  match m.netIdToEndpointMap.find netId with
  | none => []
  | some endpoint =>
    (match m.netIdToAccept.find netId with
      | some a => [.accept a endpoint.remoteIpAddr endpoint.remotePort data]
      | none => []) ++
    match m.netIdToConnect.find netId with
      | some a => [.connect a data]
      | none => []

/-- `Send`: the writes made; `none` where a `memcpy` of the packer leaves its buffer. -/
def send (H : HostLayout) (m : NetworkManager) (netId : NetworkID) (data : List Byte) :
    Option (List SocketWrite) :=
  match m.netIdToEndpointMap.find netId with
  | none => some []
  | some _ => (packAndSend H data).map fun p => m.sendRaw netId p.1

end NetworkManager

end Elegance
