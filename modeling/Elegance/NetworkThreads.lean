import Elegance.HandleNetTask
import Elegance.Lib.Run
import Elegance.Lib.Sessions

/-!
# The threads of a manager

The event functions of `NetworkManager` in their steps between the locks, each connection on a
thread of its own, and one thread that calls `HandleNetTask`. A step is what is done under one lock,
or between two; where undefined behaviour is met the run ends. A class that overrides
`OnRecvPackage` calls the one of the base and then does `afterPackage`, which may make calls of its
own.
-/

namespace Elegance

open CInt StrictWeakOrd Sessions

inductive SocketKind where
  | accept
  | connect
  deriving DecidableEq, Repr

/-- The next step of an event function. A package keeps what `UnPack` calls itself on afterwards. -/
inductive ThreadAt (κ : Type) where
  /-- `OnAccept` and `OnConnect`, once the id is drawn. -/
  | checkSockets (check : Addr → Bool)
  | setOwner (found : List Addr)
  | setTables (found : List Addr)
  | tellOpen
  | callOpen (calls : List (Addr × HandlerCall))
  /-- No event function runs. -/
  | idle
  /-- `OnRecv`, once the id is found. -/
  | unPack (data : List Byte)
  | recvPackage (data : List Byte) (length : ℤ) (rest : Option (List Byte))
  | callRecv (calls : List (Addr × HandlerCall)) (data : List Byte) (length : ℤ)
    (rest : Option (List Byte))
  | afterPackage (data : List Byte) (length : ℤ) (rest : Option (List Byte))
  | callAfter (calls : List (Addr × κ)) (rest : Option (List Byte))
  /-- `OnDisconnect`, once the id is out of the two maps. -/
  | eraseOwners
  | tellClose
  | callClose (calls : List (Addr × HandlerCall))
  | pushFree
  | finished
  /-- `OnDisconnect` has not found the endpoint. -/
  | unknown
  /-- `ListenThread` and `ConnectThread`, where the socket could not be opened. -/
  | report (task : NetworkHandleTask) (call : HandlerCall)
  | callReport (calls : List (Addr × HandlerCall))

namespace ThreadAt

variable {κ : Type}

/-- From the open report to the start of the close report. -/
def live : ThreadAt κ → Bool
  | .checkSockets _ | .setOwner _ | .setTables _ | .tellOpen | .callOpen _ | .idle | .unPack _
  | .recvPackage _ _ _ | .callRecv _ _ _ _ | .afterPackage _ _ _ | .callAfter _ _ => true
  | _ => false

/-- Past the first critical section of `OnDisconnect`, and not returned. -/
def closing : ThreadAt κ → Bool
  | .eraseOwners | .tellClose | .callClose _ | .pushFree => true
  | _ => false

/-- An id was drawn and is not on `free_net_id_list_` again. -/
def holds : ThreadAt κ → Bool
  | .unknown => true
  | p => p.live || p.closing

def isIdle : ThreadAt κ → Bool
  | .idle => true
  | _ => false

/-- The loop over the socket objects is about to start. -/
def loop : ThreadAt κ → Option (Addr → Bool)
  | .checkSockets check => some check
  | _ => none

/-- An event function that has or had an id is under way. -/
def inProgress (p : ThreadAt κ) : Bool := (p.live && !p.isIdle) || p.closing

/-- The calls of handlers the function is about to make. -/
def calls : ThreadAt κ → List (Addr × HandlerCall)
  | .callOpen calls | .callRecv calls _ _ _ | .callClose calls | .callReport calls => calls
  | _ => []

/-- Where `UnPack` goes on. -/
def resume : Option (List Byte) → ThreadAt κ
  | some data => .unPack data
  | none => .idle

end ThreadAt

/-- A connection; `entered` says that the two maps have its id, `netId` is the local variable
`net_id`. The report of a failure is a thread without a connection. -/
structure NetThread (κ : Type) where
  kind : SocketKind := .accept
  endpoint : Endpoint := {}
  netId : NetworkID := 0
  entered : Bool := false
  pos : ThreadAt κ

namespace NetThread

variable {κ : Type}

def openTask (c : NetThread κ) : NetworkHandleTask where
  taskType := match c.kind with
    | .accept => .onAccept
    | .connect => .onConnect
  netId := c.netId
  remoteIp := c.endpoint.remoteIpAddr
  remotePort := c.endpoint.remotePort
  localPort := c.endpoint.localPort

def openCall (c : NetThread κ) : HandlerCall :=
  let e := c.endpoint
  match c.kind with
  | .accept => .onAccept e.remoteIpAddr e.remotePort e.localPort c.netId
  | .connect => .onConnect e.remoteIpAddr e.remotePort e.localPort true c.netId

def closeTask (c : NetThread κ) : NetworkHandleTask :=
  { taskType := .onDisconnect, netId := c.netId, localPort := c.endpoint.localPort }

end NetThread

/-- A call of a handler: by the number of a thread, and in `HandleNetTask` or on the thread
itself. -/
structure Callback (κ : Type) where
  handler : Addr
  call : HandlerCall ⊕ κ
  thread : ℕ
  inTask : Bool
  deriving DecidableEq, Repr

/-- `origins` has, for each task in the queue, the number of the thread that put it there. -/
structure NetworkThreads (κ : Type) where
  mgr : NetworkManager
  threads : List (NetThread κ) := []
  origins : List ℕ := []
  /-- The calls `HandleNetTask` is about to make. -/
  handling : List (ℕ × Addr × HandlerCall) := []
  trace : List (Callback κ) := []
  halted : Bool := false

/-- Where objects are given they are those the loop comes to. -/
inductive ThreadsEvent where
  /-- `ListenThread` and `ConnectThread` put a new object on the list, or take it off. -/
  | insertSocket (kind : SocketKind) (a : Addr)
  | eraseSocket (kind : SocketKind) (a : Addr)
  | listenFail (port : Port)
  | connectFail (ip : IPAddr) (port localPort : Port)
  | accept (accepts : Addr → SocketAccept) (ip : IPAddr) (port localPort : Port)
  | connect (connects : Addr → SocketConnect) (ip : IPAddr) (port localPort : Port)
  | recv (i : ℕ) (data : Chunk)
  | disconnect (i : ℕ)
  /-- The next step of a thread. -/
  | run (i : ℕ)
  | handleNetTask
  /-- The next call in `HandleNetTask`. -/
  | handle

/-- Each map has the entries of the other, turned round. -/
def EndpointTables.Inverse (t : EndpointTables) : Prop :=
  ∀ n e, (n, e) ∈ t.netIdToEndpointMap.entries ↔ (e, n) ∈ t.endpointToNetIdMap.entries

namespace NetworkManager

def registHandler (m : NetworkManager) (handler : Addr) : NetworkManager :=
  if handler ∈ m.handlerList then m
  else { m with handlerList := m.handlerList.orderedInsert (· ≤ ·) handler }

def insertSocket (m : NetworkManager) (a : Addr) : SocketKind → NetworkManager
  | .accept =>
    if a ∈ m.acceptList then m
    else { m with acceptList := m.acceptList.orderedInsert (· ≤ ·) a }
  | .connect =>
    if a ∈ m.connectList then m
    else { m with connectList := m.connectList.orderedInsert (· ≤ ·) a }

def eraseSocket (m : NetworkManager) (a : Addr) : SocketKind → NetworkManager
  | .accept => { m with acceptList := m.acceptList.erase a }
  | .connect => { m with connectList := m.connectList.erase a }

def socketList (m : NetworkManager) : SocketKind → List Addr
  | .accept => m.acceptList
  | .connect => m.connectList

/-- `net_id_to_accept_[net_id] = accept`, and the same for connectors. -/
def setOwner (m : NetworkManager) (netId : NetworkID) (socket : Addr) :
    SocketKind → NetworkManager
  | .accept => { m with netIdToAccept := m.netIdToAccept.set netId socket }
  | .connect => { m with netIdToConnect := m.netIdToConnect.set netId socket }

/-- What `net_id_endpoint_lock_` is taken for in `OnAccept` and `OnConnect`. -/
def setTables (m : NetworkManager) (netId : NetworkID) (endPoint : Endpoint) : NetworkManager :=
  { m with
    netIdToEndpointMap := m.netIdToEndpointMap.set netId endPoint
    endpointToNetIdMap := m.endpointToNetIdMap.set endPoint netId }

/-- What it is taken for in `OnDisconnect`. -/
def eraseTables (m : NetworkManager) (netId : NetworkID) (endPoint : Endpoint) : NetworkManager :=
  { m with
    netIdToEndpointMap := m.netIdToEndpointMap.erase netId
    endpointToNetIdMap := m.endpointToNetIdMap.erase endPoint }

def eraseOwners (m : NetworkManager) (netId : NetworkID) : NetworkManager :=
  { m with
    netIdToAccept := m.netIdToAccept.erase netId
    netIdToConnect := m.netIdToConnect.erase netId }

def pushFree (m : NetworkManager) (netId : NetworkID) : NetworkManager :=
  { m with freeNetIdList := netId :: m.freeNetIdList }

end NetworkManager

/-- What may be read behind the header of a package at the moment `UnPack` hands it over: all the
buffer has there. -/
def readable (entry : Option CacheBuffer) (data : List Byte) (a : Activation) : List Byte :=
  match entry with
  | some c =>
    (c.buffer.buffer.write c.curReadSize.toNat (data.take a.copy.size.toNat)).content.drop
      netPackerFixheadHeaderLength
  | none => []

/-- The base class does nothing after its own `OnRecvPackage`. -/
def NetworkManager.afterPackage (_ : NetworkID) (_ : List Byte) (_ : ℤ) :
    Option (List (Addr × Empty)) := some []

namespace NetworkThreads

variable {κ : Type}

/-- A manager with the handlers of the calls of `RegistHandler`. -/
def start (registered : List Addr) (singleThread : Bool) : NetworkThreads κ where
  mgr := registered.foldl NetworkManager.registHandler { singleThreadHandleMode := singleThread }

def goesTo (w : NetworkThreads κ) (i : ℕ) (c : NetThread κ) : NetworkThreads κ :=
  { w with threads := w.threads.set i c }

/-- Thread `i` has told the handlers. -/
def told (w : NetworkThreads κ) (i : ℕ) (r : NetworkManager × List (Addr × HandlerCall)) :
    NetworkThreads κ :=
  { w with
    mgr := r.1
    origins := w.origins ++
      List.replicate (r.1.handleTaskQueue.length - w.mgr.handleTaskQueue.length) i }

/-- Thread `i` calls a handler. -/
def callsHandler (w : NetworkThreads κ) (i : ℕ) (handler : Addr) (call : HandlerCall ⊕ κ) :
    NetworkThreads κ :=
  { w with trace := w.trace ++ [{ handler, call, thread := i, inTask := false }] }

/-- `OnAccept` and `OnConnect` as far as `GetFreeNetID`; `max_net_id_ + 1` must not overflow. -/
def opens (w : NetworkThreads κ) (kind : SocketKind) (check : Addr → Bool) (endpoint : Endpoint) :
    NetworkThreads κ :=
  if w.mgr.freeNetIdList = [] ∧ w.mgr.maxNetId = intMax then { w with halted := true }
  else
    let (netId, mgr) := w.mgr.getFreeNetID
    { w with
      mgr
      threads := w.threads ++ [{ kind, endpoint, netId, pos := .checkSockets check }] }

variable (H : HostLayout) (afterPackage : NetworkID → List Byte → ℤ → Option (List (Addr × κ)))

/-- The next step of thread `i`. -/
def runThread (w : NetworkThreads κ) (i : ℕ) (c : NetThread κ) : NetworkThreads κ :=
  match c.pos with
  | .checkSockets check =>
    w.goesTo i { c with pos := .setOwner ((w.mgr.socketList c.kind).filter check) }
  | .setOwner [] => w.goesTo i { c with pos := .tellOpen }
  | .setOwner (socket :: found) =>
    { w with mgr := w.mgr.setOwner c.netId socket c.kind }.goesTo i
      { c with pos := .setTables found }
  | .setTables found =>
    { w with mgr := w.mgr.setTables c.netId c.endpoint }.goesTo i
      { c with entered := true, pos := .setOwner found }
  | .tellOpen =>
    let r := w.mgr.tell c.openTask c.openCall
    (w.told i r).goesTo i { c with pos := .callOpen r.2 }
  | .callOpen [] => w.goesTo i { c with pos := .idle }
  | .callOpen (x :: calls) =>
    (w.callsHandler i x.1 (.inl x.2)).goesTo i { c with pos := .callOpen calls }
  | .unPack data =>
    let entry := w.mgr.netIdToBufferMap.find c.netId
    let a := activation H entry data
    if a.copy.InBounds then
      let rest := if 0 < a.remainBytes then some a.rest else none
      { w with
        mgr := { w.mgr with
          netIdToBufferMap := w.mgr.netIdToBufferMap.set c.netId a.cache } }.goesTo i
        { c with
          pos := match a.recv with
            | some package => .recvPackage (readable entry data a) package.2 rest
            | none => .resume rest }
    else { w with halted := true }
  | .recvPackage data length rest =>
    match w.mgr.onRecvPackage c.netId data length with
    | some r => (w.told i r).goesTo i { c with pos := .callRecv r.2 data length rest }
    | none => { w with halted := true }
  | .callRecv [] data length rest => w.goesTo i { c with pos := .afterPackage data length rest }
  | .callRecv (x :: calls) data length rest =>
    (w.callsHandler i x.1 (.inl x.2)).goesTo i { c with pos := .callRecv calls data length rest }
  | .afterPackage data length rest =>
    match afterPackage c.netId data length with
    | some calls => w.goesTo i { c with pos := .callAfter calls rest }
    | none => { w with halted := true }
  | .callAfter [] rest => w.goesTo i { c with pos := .resume rest }
  | .callAfter (x :: calls) rest =>
    (w.callsHandler i x.1 (.inr x.2)).goesTo i { c with pos := .callAfter calls rest }
  | .eraseOwners =>
    { w with mgr := w.mgr.eraseOwners c.netId }.goesTo i { c with pos := .tellClose }
  | .tellClose =>
    let r := w.mgr.tell c.closeTask (.onDisconnect c.netId)
    (w.told i r).goesTo i { c with pos := .callClose r.2 }
  | .callClose [] => w.goesTo i { c with pos := .pushFree }
  | .callClose (x :: calls) =>
    (w.callsHandler i x.1 (.inl x.2)).goesTo i { c with pos := .callClose calls }
  | .pushFree => { w with mgr := w.mgr.pushFree c.netId }.goesTo i { c with pos := .finished }
  | .report task call =>
    let r := w.mgr.tell task call
    (w.told i r).goesTo i { c with pos := .callReport r.2 }
  | .callReport [] => w.goesTo i { c with pos := .finished }
  | .callReport (x :: calls) =>
    (w.callsHandler i x.1 (.inl x.2)).goesTo i { c with pos := .callReport calls }
  | .idle | .finished | .unknown => w

def step (w : NetworkThreads κ) : ThreadsEvent → NetworkThreads κ
  | .insertSocket kind a => { w with mgr := w.mgr.insertSocket a kind }
  | .eraseSocket kind a => { w with mgr := w.mgr.eraseSocket a kind }
  | .listenFail port =>
    { w with
      threads := w.threads ++
        [{ pos := .report { taskType := .onListenFail, localPort := port } (.onListenFail port) }] }
  | .connectFail ip port localPort =>
    { w with
      threads := w.threads ++
        [{ pos := .report
            { taskType := .onConnectFail, remoteIp := ip, remotePort := port, localPort }
            (.onConnect ip port localPort false 0) }] }
  | .accept accepts ip port localPort =>
    w.opens .accept (fun a => (accepts a).checkOnHandle ip port) ⟨ip, port, localPort⟩
  | .connect connects ip port localPort =>
    w.opens .connect (fun a => (connects a).checkOnHandle ip port) ⟨ip, port, localPort⟩
  | .recv i data =>
    match w.threads[i]? with
    | none => w
    | some c =>
      match w.mgr.endpointToNetIdMap.find c.endpoint with
      | none => w
      | some netId => w.goesTo i { c with netId, pos := .unPack data.bytes }
  | .disconnect i =>
    match w.threads[i]? with
    | none => w
    | some c =>
      match w.mgr.endpointToNetIdMap.find c.endpoint with
      | none => w.goesTo i { c with pos := .unknown }
      | some netId =>
        { w with mgr := w.mgr.eraseTables netId c.endpoint }.goesTo i
          { c with netId, entered := false, pos := .eraseOwners }
  | .run i =>
    match w.threads[i]? with
    | none => w
    | some c => w.runThread H afterPackage i c
  | .handleNetTask =>
    let (mgr, calls) := w.mgr.handleNetTask
    { w with
      mgr
      origins := w.origins.tail
      handling := calls.map fun x => (w.origins.headD 0, x) }
  | .handle =>
    match w.handling with
    | [] => w
    | (i, handler, call) :: rest =>
      { w with
        handling := rest
        trace := w.trace ++ [{ handler, call := .inl call, thread := i, inTask := true }] }

/-- No live connection has an endpoint equivalent to this one. -/
def Apart (w : NetworkThreads κ) (endpoint : Endpoint) : Prop :=
  ∀ c ∈ w.threads, c.pos.live = true → equiv c.endpoint endpoint = false

/-- What the socket layer does: a connection is reported open on an endpoint equivalent to no live
one's, and its data and its end while no report of it is under way. The calls of `HandleNetTask`
are made one after another. -/
def Can (w : NetworkThreads κ) (ev : ThreadsEvent) : Prop :=
  w.halted = false ∧
    match ev with
    | .accept _ ip port localPort | .connect _ ip port localPort => w.Apart ⟨ip, port, localPort⟩
    | .recv i _ | .disconnect i => ∃ c ∈ w.threads[i]?, c.pos.isIdle = true
    | .handleNetTask => w.handling = []
    | _ => True

/-- A loop over the socket objects finds one. -/
def Found (w : NetworkThreads κ) : ThreadsEvent → Prop
  | .run i => ∀ c ∈ w.threads[i]?, ∀ check ∈ c.pos.loop,
    ∃ a ∈ w.mgr.socketList c.kind, check a = true
  | _ => True

instance (w : NetworkThreads κ) (endpoint : Endpoint) : Decidable (w.Apart endpoint) :=
  inferInstanceAs (Decidable (∀ c ∈ w.threads, _ → _))

instance (w : NetworkThreads κ) : ∀ ev, Decidable (w.Can ev)
  | .accept _ ip port localPort | .connect _ ip port localPort =>
    inferInstanceAs (Decidable (_ ∧ w.Apart ⟨ip, port, localPort⟩))
  | .recv i _ | .disconnect i =>
    inferInstanceAs (Decidable (_ ∧ ∃ c ∈ w.threads[i]?, c.pos.isIdle = true))
  | .handleNetTask => decidable_of_iff (w.halted = false ∧ w.handling.isEmpty = true) (by simp [Can])
  | .insertSocket _ _ | .eraseSocket _ _ | .listenFail _ | .connectFail _ _ _ | .run _ | .handle =>
    inferInstanceAs (Decidable (_ ∧ True))

instance (w : NetworkThreads κ) : ∀ ev, Decidable (w.Found ev)
  | .run i => inferInstanceAs (Decidable (∀ c ∈ w.threads[i]?, ∀ check ∈ c.pos.loop,
      ∃ a ∈ w.mgr.socketList c.kind, check a = true))
  | .accept _ _ _ _ | .connect _ _ _ _ | .recv _ _ | .disconnect _ | .handleNetTask
  | .insertSocket _ _ | .eraseSocket _ _ | .listenFail _ | .connectFail _ _ _ | .handle =>
    .isTrue trivial

/-- The ids held by event functions in progress: drawn and not in the maps yet, or out of them and
not on `free_net_id_list_` yet. -/
def held (w : NetworkThreads κ) : List NetworkID :=
  (w.threads.filter fun c => c.pos.inProgress && !c.entered).map (·.netId)

/-- The ids in use. -/
def inUse (w : NetworkThreads κ) : List NetworkID := w.mgr.netIdToEndpointMap.keys ++ w.held

end NetworkThreads

/-- What a call says about the connection of a net id. -/
def HandlerCall.phase (netId : NetworkID) : HandlerCall → Option Phase
  | .onAccept _ _ _ n | .onConnect _ _ _ true n => if n = netId then some .opened else none
  | .onRecv n _ _ => if n = netId then some .received else none
  | .onDisconnect n => if n = netId then some .closed else none
  | .onConnect _ _ _ false _ | .onListenFail _ => none

/-- The callbacks of a handler for a net id, each with the number of the connection it is about. -/
def seen {κ : Type} (handler : Addr) (netId : NetworkID) (trace : List (Callback κ)) :
    List (ℕ × Phase) :=
  trace.filterMap fun x =>
    match x.call with
    | .inl call => if x.handler = handler then (call.phase netId).map (x.thread, ·) else none
    | .inr _ => none

/-- A listener that has accepted one connection, from port 9 of an address. -/
def acceptedFrom (ip : IPAddr) : Addr → SocketAccept := fun _ =>
  (({} : SocketAccept).listen 80).accepted 5 ip 9

/-- A package of the one byte `A`. -/
def packageA : Chunk := ⟨[1, 0, 0, 0, 65], by simp, by simp [intMax]⟩

/-- A connection is opened. -/
def openFirst : List ThreadsEvent :=
  [.insertSocket .accept 1, .accept (acceptedFrom [1]) [1] 9 80]

def runFirst (n : ℕ) : List ThreadsEvent := List.replicate n (.run 0)

/-- It is closed; a second is opened before its id is free, and a third gets the id. -/
def reopen : List ThreadsEvent :=
  [.disconnect 0, .run 0, .accept (acceptedFrom [2, 3]) [2, 3] 9 80, .run 1, .run 0, .run 0,
    .run 0, .run 1, .run 0]

def openThird : List ThreadsEvent := [.accept (acceptedFrom [1]) [1] 9 80, .run 2, .run 1]

/-- Three connections, of which the first gets a package. -/
def threeConnections : List ThreadsEvent :=
  openFirst ++ runFirst 7 ++ [.recv 0 packageA] ++ runFirst 9 ++ reopen ++ openThird

end Elegance
