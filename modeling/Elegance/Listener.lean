import Elegance.Socket
import Elegance.Lib.Run

/-!
# The tables of a listener

A listener in its loop, the descriptors the kernel keeps open for its connections, and what was sent
on them. The loop closes a descriptor when the end of its connection is reported, and takes it out
of the tables after it has told the manager; `Disconnect` only closes it.
-/

namespace Elegance

open StrictWeakOrd

structure Listener where
  socket : SocketAccept
  connections : List (ℤ × Endpoint) := []
  ending : Option ℤ := none
  sent : List (Endpoint × Endpoint) := []

inductive ListenerEvent where
  /-- `accept` returned this descriptor. -/
  | accept (sock : ℤ) (ip : IPAddr) (port : Port)
  /-- The end of a connection, or an error on it, was reported: its descriptor is closed. -/
  | hangUp (sock : ℤ)
  /-- The manager was told, and the tables forget the descriptor. -/
  | forget
  | write (ip : IPAddr) (port : Port) (data : List Byte)
  | disconnect (ip : IPAddr) (port : Port)

namespace Listener

def start (port : Port) : Listener where
  socket := ({} : SocketAccept).listen port

/-- `close(sock)`. -/
def close (l : Listener) (sock : ℤ) : Listener :=
  { l with connections := l.connections.filter (·.1 ≠ sock) }

/-- `send(sock)`: noted with the endpoint it was meant for, where a connection has the descriptor. -/
def send (l : Listener) (meant : Endpoint) (sock : ℤ) : Listener :=
  { l with
    sent := l.sent ++ (l.connections.filter (·.1 = sock)).map fun c => (meant, c.2) }

def step (l : Listener) : ListenerEvent → Listener
  | .accept sock ip port =>
    { l with
      socket := l.socket.accepted sock ip port
      connections := l.connections ++ [(sock, l.socket.curEndpoint ip port)] }
  | .hangUp sock => { l.close sock with ending := some sock }
  | .forget =>
    match l.ending with
    | some sock => { l with socket := l.socket.closed sock, ending := none }
    | none => l
  | .write ip port data =>
    match l.socket.write ip port data with
    | some sock => l.send (l.socket.curEndpoint ip port) sock
    | none => l
  | .disconnect ip port =>
    match l.socket.disconnect ip port with
    | some sock => l.close sock
    | none => l

/-- The kernel returns a descriptor that is not open, for an endpoint `operator <` tells from those
of the open connections, and reports open descriptors only; the loop does one thing at a time. -/
def Can (l : Listener) : ListenerEvent → Prop
  | .accept sock ip port => l.ending = none ∧ ∀ c ∈ l.connections,
      c.1 ≠ sock ∧ equiv c.2 (l.socket.curEndpoint ip port) = false
  | .hangUp sock => l.ending = none ∧ ∃ c ∈ l.connections, c.1 = sock
  | .forget => l.ending ≠ none
  | .write _ _ _ => True
  | .disconnect _ _ => True

instance (l : Listener) : ∀ ev, Decidable (l.Can ev)
  | .accept _ _ _ => inferInstanceAs (Decidable (_ ∧ ∀ c ∈ _, _))
  | .hangUp _ => inferInstanceAs (Decidable (_ ∧ ∃ c ∈ _, _))
  | .forget => inferInstanceAs (Decidable (_ ≠ _))
  | .write _ _ _ => inferInstanceAs (Decidable True)
  | .disconnect _ _ => inferInstanceAs (Decidable True)

/-- Each table leads back to where the other came from. -/
def Inverse (s : SocketAccept) : Prop :=
  (∀ e sock, s.endpointSockMap.find e = some sock →
    ∃ e', s.sockEndpointMap.find sock = some e' ∧ equiv e' e = true) ∧
  ∀ sock e, s.sockEndpointMap.find sock = some e → s.endpointSockMap.find e = some sock

/-- The tables are inverse, and all that was sent on a connection was meant for its endpoint. -/
def Good (l : Listener) : Prop := Inverse l.socket ∧ ∀ p ∈ l.sent, p.1 = p.2

/-- What the tables hold at an `accept` is neither for its descriptor and another endpoint nor for
its endpoint and another descriptor, and a `Write` that finds an open connection names its
endpoint. -/
def Fresh (l : Listener) : ListenerEvent → Prop
  | .accept sock ip port =>
    (∀ e ∈ l.socket.sockEndpointMap.find sock,
      equiv e (l.socket.curEndpoint ip port) = true) ∧
    ∀ sock' ∈ l.socket.endpointSockMap.find (l.socket.curEndpoint ip port), sock' = sock
  | .write ip port data => data ≠ [] → ∀ c ∈ l.connections,
      equiv c.2 (l.socket.curEndpoint ip port) = true → c.2 = l.socket.curEndpoint ip port
  | _ => True

end Listener

end Elegance
