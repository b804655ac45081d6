import Elegance.Network

/-!
# The socket objects and the threads that own them

`ListenThread` and `ConnectThread` each make a socket object, list it, run its `Listen` or `Connect`
and, whichever way that returns, take the object off the list and delete it. The manager's callbacks
come from the loops; `Disconnect(net_id)` may come from any thread. The handlers' calls are made or
queued by the manager and are not followed further.
-/

namespace Elegance

open CInt StrictWeakOrd

/-- A socket object a net id leads to. -/
inductive Owner where
  | accept (a : Addr)
  | connect (a : Addr)
  deriving DecidableEq, Repr

/-- `SocketConnect::Disconnect`. -/
def SocketConnect.disconnect (s : SocketConnect) : SocketConnect := { s with running := false }

namespace NetworkManager

/-- `Disconnect(net_id)`: the descriptor a listener closes, and the connector told to stop. -/
def disconnect (accepts : Addr → SocketAccept) (m : NetworkManager) (netId : NetworkID) :
    Option ℤ × Option Addr :=
  match m.netIdToEndpointMap.find netId with
  | none => (none, none)
  | some endpoint =>
    ((m.netIdToAccept.find netId).bind fun a =>
      (accepts a).disconnect endpoint.remoteIpAddr endpoint.remotePort, m.netIdToConnect.find netId)

/-- `ListenThread` after `Listen`, which returns only false. -/
def afterListen (m : NetworkManager) (a : Addr) (port : Port) :
    NetworkManager × List (Addr × HandlerCall) :=
  let (m, calls) := m.tell { taskType := .onListenFail, localPort := port } (.onListenFail port)
  ({ m with acceptList := m.acceptList.erase a }, calls)

/-- `ConnectThread` after `Connect` returned `connectResult`. -/
def afterConnect (m : NetworkManager) (a : Addr) (ip : IPAddr) (port localPort : Port)
    (connectResult : Bool) : NetworkManager × List (Addr × HandlerCall) :=
  let (m, calls) :=
    if connectResult then (m, [])
    else m.tell { taskType := .onConnectFail, remoteIp := ip, remotePort := port, localPort }
      (.onConnect ip port localPort false 0)
  ({ m with connectList := m.connectList.erase a }, calls)

/-- The net id leads to the object. -/
def Leads (m : NetworkManager) (netId : NetworkID) : Owner → Prop
  | .accept a => m.netIdToAccept.find netId = some a
  | .connect a => m.netIdToConnect.find netId = some a

/-- The object is listed. -/
def Lists (m : NetworkManager) : Owner → Prop
  | .accept a => a ∈ m.acceptList
  | .connect a => a ∈ m.connectList

instance (m : NetworkManager) (netId : NetworkID) : ∀ owner, Decidable (m.Leads netId owner)
  | .accept _ | .connect _ => inferInstanceAs (Decidable (_ = _))

instance (m : NetworkManager) : ∀ owner, Decidable (m.Lists owner)
  | .accept _ | .connect _ => inferInstanceAs (Decidable (_ ∈ _))

/-- No net id leads to an object that was taken off its list. -/
def NoDangling (m : NetworkManager) : Prop := ∀ netId owner, m.Leads netId owner → m.Lists owner

end NetworkManager

/-- Where `Listen` returns: before its loop, or because a call in it failed. -/
inductive ListenReturn where
  | notListening
  | epollWaitFailed
  | acceptFailed
  | fcntlFailed
  | epollCtlFailed
  deriving DecidableEq, Repr

/-- Where `Connect` returns: before `OnConnect`, because `epoll_ctl` or `epoll_wait` failed, because
`running_` was cleared, or after the end of the connection. -/
inductive ConnectReturn where
  | notConnected
  | epollCtlFailed
  | epollWaitFailed
  | stopped
  | socketError
  deriving DecidableEq, Repr

def ConnectReturn.result : ConnectReturn → Bool
  | .stopped | .socketError => true
  | _ => false

/-- How far `Connect` is: before `OnConnect`, past it, in its loop, or past `OnDisconnect`. -/
inductive ConnectStage where
  | connecting
  | reported
  | looping
  | socketError
  deriving DecidableEq, Repr

/-- `Connect` can return so from a stage. -/
def ConnectReturn.Possible (running : Bool) : ConnectReturn → ConnectStage → Prop
  | .notConnected, stage => stage = .connecting
  | .epollCtlFailed, stage => stage = .reported
  | .epollWaitFailed, stage => stage = .looping
  | .stopped, stage => stage = .looping ∧ running = false
  | .socketError, stage => stage = .socketError

/-- A connection `OnAccept` or `OnConnect` entered under an object, and `OnDisconnect` did not take
out since. One entered later under an equivalent endpoint shadows it: `OnDisconnect` finds that. -/
structure Held where
  owner : Owner
  netId : NetworkID
  endpoint : Endpoint
  shadowed : Bool := false
  deriving DecidableEq, Repr

/-- The last object in set order that passes `CheckOnHandle` is entered. -/
def hold (held : List Held) (owner : Option Owner) (netId : NetworkID) (endpoint : Endpoint) :
    List Held :=
  (held.map fun h => { h with shadowed := h.shadowed || equiv h.endpoint endpoint }) ++
    owner.toList.map fun owner => ⟨owner, netId, endpoint, false⟩

/-- `OnDisconnect` of an endpoint. -/
def letGo (held : List Held) (endpoint : Endpoint) : List Held :=
  held.filter fun h => h.shadowed || !equiv h.endpoint endpoint

structure SocketObjects where
  mgr : NetworkManager
  accepts : Addr → SocketAccept := fun _ => {}
  connects : Addr → SocketConnect := fun _ => {}
  /-- The argument of `ListenThread`. -/
  ports : Addr → Port := fun _ => 0
  /-- The arguments of `ConnectThread`. -/
  targets : Addr → IPAddr × Port := fun _ => ([], 0)
  stages : Addr → ConnectStage := fun _ => .connecting
  /-- The descriptors the listeners accepted and nobody closed. -/
  openSocks : List (Addr × ℤ) := []
  held : List Held := []

inductive ObjectsEvent where
  /-- `ListenThread` makes and lists its object. -/
  | listenThread (a : Addr) (port : Port)
  /-- `Listen` has bound the port. -/
  | listen (a : Addr)
  | accept (a : Addr) (sock : ℤ) (ip : IPAddr) (port : Port)
  /-- `Listen` ends a connection. -/
  | hangUp (a : Addr) (sock : ℤ)
  | listenReturns (a : Addr) (path : ListenReturn)
  /-- `ConnectThread` makes and lists its object. -/
  | connectThread (a : Addr) (ip : IPAddr) (port : Port)
  /-- `Connect` has connected its descriptor, and calls `OnConnect`. -/
  | connect (a : Addr) (localPort : Port)
  /-- `Connect` sets `running_` and enters its loop. -/
  | loop (a : Addr)
  /-- `Connect` ends its connection. -/
  | socketError (a : Addr)
  | connectReturns (a : Addr) (path : ConnectReturn)
  | disconnect (netId : NetworkID)

namespace SocketObjects

open Function (update)

def start (handlers : List Addr) (singleThread : Bool) : SocketObjects where
  mgr := { handlerList := handlers, singleThreadHandleMode := singleThread }

/-- The listener entered for a connection from an address. -/
def acceptOwner (m : NetworkManager) (accepts : Addr → SocketAccept) (ip : IPAddr) (port : Port) :
    Option Addr :=
  (m.acceptList.filter fun a => (accepts a).checkOnHandle ip port).getLast?

/-- The connector entered for a connection to an address. -/
def connectOwner (m : NetworkManager) (connects : Addr → SocketConnect) (ip : IPAddr)
    (port : Port) : Option Addr :=
  (m.connectList.filter fun a => (connects a).checkOnHandle ip port).getLast?

/-- A loop calls `OnDisconnect`. -/
def reportEnd (w : SocketObjects) (e : Endpoint) : SocketObjects :=
  { w with
    mgr := (w.mgr.onDisconnect e.remoteIpAddr e.remotePort e.localPort).1
    held := letGo w.held e }

def step (w : SocketObjects) : ObjectsEvent → SocketObjects
  | .listenThread a port =>
    { w with
      mgr := { w.mgr with acceptList := w.mgr.acceptList.orderedInsert (· ≤ ·) a }
      accepts := update w.accepts a {}
      ports := update w.ports a port }
  | .listen a => { w with accepts := update w.accepts a ((w.accepts a).listen (w.ports a)) }
  | .accept a sock ip port =>
    let accepts := update w.accepts a ((w.accepts a).accepted sock ip port)
    let localPort := (w.accepts a).localPort
    { w with
      mgr := (w.mgr.onAccept accepts ip port localPort).1
      accepts
      openSocks := (a, sock) :: w.openSocks
      held := hold w.held ((acceptOwner w.mgr accepts ip port).map .accept) w.mgr.getFreeNetID.1
        ⟨ip, port, localPort⟩ }
  | .hangUp a sock =>
    match (w.accepts a).sockEndpointMap.find sock with
    | none => { w with openSocks := w.openSocks.erase (a, sock) }
    | some endpoint =>
      { w.reportEnd endpoint with
        accepts := update w.accepts a ((w.accepts a).closed sock)
        openSocks := w.openSocks.erase (a, sock) }
  | .listenReturns a _ => { w with mgr := (w.mgr.afterListen a (w.ports a)).1 }
  | .connectThread a ip port =>
    { w with
      mgr := { w.mgr with connectList := w.mgr.connectList.orderedInsert (· ≤ ·) a }
      connects := update w.connects a {}
      targets := update w.targets a (ip, port)
      stages := update w.stages a .connecting }
  | .connect a localPort =>
    let (ip, port) := w.targets a
    let connects := update w.connects a ((w.connects a).connected ip port localPort)
    { w with
      mgr := (w.mgr.onConnect connects ip port localPort).1
      connects
      stages := update w.stages a .reported
      held := hold w.held ((connectOwner w.mgr connects ip port).map .connect) w.mgr.getFreeNetID.1
        ⟨ip, port, localPort⟩ }
  | .loop a =>
    { w with
      connects := update w.connects a { w.connects a with running := true }
      stages := update w.stages a .looping }
  | .socketError a =>
    { w.reportEnd (w.connects a).endpoint with
      connects := update w.connects a (w.connects a).closed
      stages := update w.stages a .socketError }
  | .connectReturns a path =>
    { w with
      mgr := (w.mgr.afterConnect a (w.targets a).1 (w.targets a).2 (w.connects a).localPort
        path.result).1 }
  | .disconnect netId =>
    let (sock, connector) := w.mgr.disconnect w.accepts netId
    { w with
      openSocks := w.openSocks.filter (some ·.2 ≠ sock)
      connects := match connector with
        | none => w.connects
        | some a => update w.connects a (w.connects a).disconnect }

/-- A thread makes its object where none is, a loop goes on while its object is listed, descriptors
that are open are not returned by `accept`, and fewer than `INT_MAX` net ids are in use. -/
def Can (w : SocketObjects) : ObjectsEvent → Prop
  | .listenThread a _ => a ∉ w.mgr.acceptList ∧ a ∉ w.mgr.connectList
  | .listen a => a ∈ w.mgr.acceptList ∧ (w.accepts a).listening = false
  | .accept a sock _ _ =>
    (a ∈ w.mgr.acceptList ∧ (w.accepts a).listening = true) ∧ (∀ x ∈ w.openSocks, x.2 ≠ sock) ∧
      (w.held.length : ℤ) < intMax
  | .hangUp a sock => a ∈ w.mgr.acceptList ∧ (a, sock) ∈ w.openSocks
  | .listenReturns a path =>
    a ∈ w.mgr.acceptList ∧ ((w.accepts a).listening = false ↔ path = .notListening)
  | .connectThread a _ _ => a ∉ w.mgr.acceptList ∧ a ∉ w.mgr.connectList
  | .connect a _ =>
    a ∈ w.mgr.connectList ∧ (w.stages a = .connecting ∧ (w.connects a).running = false) ∧
      (w.held.length : ℤ) < intMax
  | .loop a => a ∈ w.mgr.connectList ∧ w.stages a = .reported
  | .socketError a => a ∈ w.mgr.connectList ∧ w.stages a = .looping
  | .connectReturns a path =>
    a ∈ w.mgr.connectList ∧ path.Possible (w.connects a).running (w.stages a)
  | .disconnect _ => True

/-- A loop returns after every connection entered under its object was taken out again. -/
def LeavesNone (w : SocketObjects) : ObjectsEvent → Prop
  | .listenReturns a _ => ∀ h ∈ w.held, h.owner ≠ .accept a
  | .connectReturns a _ => ∀ h ∈ w.held, h.owner ≠ .connect a
  | _ => True

instance (running : Bool) : ∀ path stage, Decidable (ConnectReturn.Possible running path stage)
  | .notConnected, _ | .epollCtlFailed, _ | .epollWaitFailed, _ | .socketError, _ =>
    inferInstanceAs (Decidable (_ = _))
  | .stopped, _ => inferInstanceAs (Decidable (_ ∧ _))

instance (w : SocketObjects) : ∀ ev, Decidable (w.Can ev)
  | .listenThread _ _ | .listen _ | .hangUp _ _ | .connectThread _ _ _ | .loop _ | .socketError _ =>
    inferInstanceAs (Decidable (_ ∧ _))
  | .accept _ _ _ _ | .connect _ _ => inferInstanceAs (Decidable (_ ∧ _ ∧ _))
  | .listenReturns _ _ => inferInstanceAs (Decidable (_ ∧ (_ ↔ _)))
  | .connectReturns _ _ => inferInstanceAs (Decidable (_ ∧ ConnectReturn.Possible _ _ _))
  | .disconnect _ => inferInstanceAs (Decidable True)

instance (w : SocketObjects) : ∀ ev, Decidable (w.LeavesNone ev)
  | .listenReturns _ _ | .connectReturns _ _ => inferInstanceAs (Decidable (∀ h ∈ w.held, _))
  | .listenThread _ _ | .listen _ | .accept _ _ _ _ | .hangUp _ _ | .connectThread _ _ _
    | .connect _ _ | .loop _ | .socketError _ | .disconnect _ => inferInstanceAs (Decidable True)

end SocketObjects

end Elegance
