import Elegance.NetworkManager
import Elegance.Lib.Run

/-!
# The manager and the sockets that report to it

A `Network` is the manager, the socket objects in memory and the history of the connections they
reported: every connection is reported open, then its data, then closed, each by one call of the
manager.
-/

namespace Elegance

open CInt StrictWeakOrd

/-- The object that reported a connection; a listener holds it on a descriptor. -/
inductive Reporter where
  | accept (a : Addr) (sock : ℤ)
  | connect (a : Addr)
  deriving DecidableEq, Repr

def Reporter.listener : Reporter → Option Addr
  | .accept a _ => some a
  | .connect _ => none

/-- A connection, with the net id issued when it was opened, the bytes received on it and the
packages handed to `OnRecvPackage` under its id since. -/
structure Conn where
  reporter : Reporter
  endpoint : Endpoint
  netId : NetworkID
  received : List Byte := []
  handed : List (List Byte × ℤ) := []
  deriving DecidableEq, Repr

structure Network where
  mgr : NetworkManager
  accepts : Addr → SocketAccept := fun _ => {}
  connects : Addr → SocketConnect := fun _ => {}
  live : List Conn := []
  closed : List Conn := []
  halt : Option Halt := none

/-- What the socket threads do. -/
inductive NetworkEvent where
  /-- `ListenThread` makes a listener, which binds its port. -/
  | listen (a : Addr) (port : Port)
  /-- `ListenThread` takes the listener off the list and deletes it. -/
  | endListen (a : Addr)
  /-- `ConnectThread` makes a connector. -/
  | startConnect (a : Addr)
  /-- `ConnectThread` takes the connector off the list and deletes it. -/
  | endConnect (a : Addr)
  | accept (a : Addr) (sock : ℤ) (ip : IPAddr) (port : Port)
  | connect (a : Addr) (ip : IPAddr) (port localPort : Port)
  | recv (endpoint : Endpoint) (data : Chunk)
  | disconnect (endpoint : Endpoint)

namespace Network

/-- A new manager. -/
def start (handlers : List Addr) (singleThread : Bool) : Network where
  mgr := { handlerList := handlers, singleThreadHandleMode := singleThread }

/-- The listeners once `a` has accepted a connection. -/
def acceptsAfter (w : Network) (a : Addr) (sock : ℤ) (ip : IPAddr) (port : Port) :
    Addr → SocketAccept :=
  Function.update w.accepts a ((w.accepts a).accepted sock ip port)

/-- The connectors once `a` has connected. -/
def connectsAfter (w : Network) (a : Addr) (ip : IPAddr) (port localPort : Port) :
    Addr → SocketConnect :=
  Function.update w.connects a ((w.connects a).connected ip port localPort)

/-- A connection joins the live ones. -/
def opened (w : Network) (mgr : NetworkManager) (reporter : Reporter) (endpoint : Endpoint) :
    Network :=
  { w with mgr, live := w.live ++ [{ reporter, endpoint, netId := w.mgr.getFreeNetID.1 }] }

/-- The live connections after data arrived on `endpoint` and the packer did `events`. -/
def heard (live : List Conn) (endpoint : Endpoint) (data : List Byte) (events : List PackerEvent) :
    List Conn :=
  live.map fun c => { c with
    received := if c.endpoint = endpoint then c.received ++ data else c.received
    handed := c.handed ++ managerRecvs c.netId events }

/-- The object that reported a connection lets go of it. -/
def release (w : Network) : Reporter → Network
  | .accept a sock => { w with accepts := Function.update w.accepts a ((w.accepts a).closed sock) }
  | .connect a => { w with connects := Function.update w.connects a (w.connects a).closed }

def step (H : HostLayout) (w : Network) : NetworkEvent → Network
  | .listen a port =>
    { w with
      mgr := { w.mgr with acceptList := w.mgr.acceptList.orderedInsert (· ≤ ·) a }
      accepts := Function.update w.accepts a (({} : SocketAccept).listen port) }
  | .endListen a => { w with mgr := { w.mgr with acceptList := w.mgr.acceptList.erase a } }
  | .startConnect a =>
    { w with
      mgr := { w.mgr with connectList := w.mgr.connectList.orderedInsert (· ≤ ·) a }
      connects := Function.update w.connects a {} }
  | .endConnect a => { w with mgr := { w.mgr with connectList := w.mgr.connectList.erase a } }
  | .accept a sock ip port =>
    let accepts := w.acceptsAfter a sock ip port
    let localPort := (w.accepts a).localPort
    { w.opened (w.mgr.onAccept accepts ip port localPort).1 (.accept a sock)
        ⟨ip, port, localPort⟩ with accepts }
  | .connect a ip port localPort =>
    let connects := w.connectsAfter a ip port localPort
    { w.opened (w.mgr.onConnect connects ip port localPort).1 (.connect a)
        ⟨ip, port, localPort⟩ with connects }
  | .recv endpoint data =>
    match w.mgr.onRecv H endpoint.remoteIpAddr endpoint.remotePort endpoint.localPort
      data.bytes with
    | (events, .ok mgr) => { w with mgr, live := heard w.live endpoint data.bytes events }
    | (_, .error halt) => { w with halt }
  | .disconnect endpoint =>
    match w.live.find? (·.endpoint = endpoint) with
    | none => w
    | some c =>
      { w.release c.reporter with
        mgr := (w.mgr.onDisconnect endpoint.remoteIpAddr endpoint.remotePort endpoint.localPort).1
        live := w.live.filter (·.endpoint ≠ endpoint)
        closed := w.closed ++ [c] }

/-- The endpoint an event opens a connection on. -/
def opens (w : Network) : NetworkEvent → Option Endpoint
  | .accept a _ ip port => some ⟨ip, port, (w.accepts a).localPort⟩
  | .connect _ ip port localPort => some ⟨ip, port, localPort⟩
  | _ => none

/-- What the socket layer can do: an object is made at an address that is not in use, reports while
its loop runs, and reports data and the end of live connections. A connection takes a descriptor,
so there are always fewer than `INT_MAX`. -/
def Can (w : Network) : NetworkEvent → Prop
  | .listen a _ => a ∉ w.mgr.acceptList ∧ a ∉ w.mgr.connectList
  | .endListen a => a ∈ w.mgr.acceptList
  | .startConnect a => a ∉ w.mgr.acceptList ∧ a ∉ w.mgr.connectList
  | .endConnect a => a ∈ w.mgr.connectList
  | .accept a _ _ _ => a ∈ w.mgr.acceptList ∧ (w.live.length : ℤ) < intMax
  | .connect a _ _ _ =>
    a ∈ w.mgr.connectList ∧ (w.connects a).running = false ∧ (w.live.length : ℤ) < intMax
  | .recv endpoint _ => ∃ c ∈ w.live, c.endpoint = endpoint
  | .disconnect endpoint => ∃ c ∈ w.live, c.endpoint = endpoint

instance (w : Network) : ∀ ev, Decidable (w.Can ev)
  | .listen _ _ => inferInstanceAs (Decidable (_ ∧ _))
  | .endListen _ => inferInstanceAs (Decidable (_ ∈ _))
  | .startConnect _ => inferInstanceAs (Decidable (_ ∧ _))
  | .endConnect _ => inferInstanceAs (Decidable (_ ∈ _))
  | .accept _ _ _ _ => inferInstanceAs (Decidable (_ ∧ _))
  | .connect _ _ _ _ => inferInstanceAs (Decidable (_ ∧ _ ∧ _))
  | .recv _ _ => inferInstanceAs (Decidable (∃ c ∈ _, _))
  | .disconnect _ => inferInstanceAs (Decidable (∃ c ∈ _, _))

/-- A connection is opened on an endpoint no live one has. -/
def Different (w : Network) (ev : NetworkEvent) : Prop :=
  ∀ e ∈ w.opens ev, ∀ c ∈ w.live, c.endpoint ≠ e

/-- A connection is opened on an endpoint that `operator <` tells from every live one. -/
def Inequivalent (w : Network) (ev : NetworkEvent) : Prop :=
  ∀ e ∈ w.opens ev, ∀ c ∈ w.live, equiv c.endpoint e = false

instance (w : Network) (ev : NetworkEvent) : Decidable (w.Different ev) :=
  inferInstanceAs (Decidable (∀ e ∈ w.opens ev, ∀ c ∈ w.live, c.endpoint ≠ e))

instance (w : Network) (ev : NetworkEvent) : Decidable (w.Inequivalent ev) :=
  inferInstanceAs (Decidable (∀ e ∈ w.opens ev, ∀ c ∈ w.live, equiv c.endpoint e = false))

end Network

end Elegance
