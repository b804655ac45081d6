import Elegance.Endpoint

/-!
# `SocketAccept` and `SocketConnect`

What the two socket classes remember of their connections, and the test `CheckOnHandle` the manager
finds them by: a listener looks the remote address up among the connections it holds, a connector
compares it with the one it was told to connect to.
-/

namespace Elegance

/-- The address of an object. -/
abbrev Addr := ℕ

structure SocketAccept where
  listening : Bool := false
  localPort : Port := 0
  endpointSockMap : StdMap Endpoint ℤ := .empty
  sockEndpointMap : StdMap ℤ Endpoint := .empty

namespace SocketAccept

/-- `Listen(port)` once the kernel has bound the port. -/
def listen (s : SocketAccept) (port : Port) : SocketAccept :=
  if s.listening then s else { s with localPort := port, listening := true }

def curEndpoint (s : SocketAccept) (ip : IPAddr) (port : Port) : Endpoint :=
  ⟨ip, port, s.localPort⟩

/-- The tables once `accept` has returned `curSock`. -/
def accepted (s : SocketAccept) (curSock : ℤ) (ip : IPAddr) (port : Port) : SocketAccept :=
  { s with
    sockEndpointMap := s.sockEndpointMap.set curSock (s.curEndpoint ip port)
    endpointSockMap := s.endpointSockMap.set (s.curEndpoint ip port) curSock }

/-- The tables once the end of `sock` was reported. -/
def closed (s : SocketAccept) (sock : ℤ) : SocketAccept :=
  match s.sockEndpointMap.find sock with
  | some endpoint =>
    { s with
      endpointSockMap := s.endpointSockMap.erase endpoint
      sockEndpointMap := s.sockEndpointMap.erase sock }
  | none => s

/-- `Write(ip, port, data, length)`: the descriptor `send` is called on. -/
def write (s : SocketAccept) (ip : IPAddr) (port : Port) (data : List Byte) : Option ℤ :=
  if data = [] then none else s.endpointSockMap.find ⟨ip, port, s.localPort⟩

/-- `Disconnect(ip, port)`: the descriptor `close` is called on. -/
def disconnect (s : SocketAccept) (ip : IPAddr) (port : Port) : Option ℤ :=
  s.endpointSockMap.find ⟨ip, port, s.localPort⟩

def checkOnHandle (s : SocketAccept) (ip : IPAddr) (port : Port) : Bool :=
  (s.endpointSockMap.find ⟨ip, port, s.localPort⟩).isSome

@[simp]
theorem localPort_accepted (s : SocketAccept) (curSock : ℤ) (ip : IPAddr) (port : Port) :
    (s.accepted curSock ip port).localPort = s.localPort := rfl

@[simp]
theorem localPort_closed (s : SocketAccept) (sock : ℤ) :
    (s.closed sock).localPort = s.localPort := by
  unfold closed
  split <;> rfl

/-- The end of a connection leaves the others. -/
theorem find_closed (s : SocketAccept) {sock sock' : ℤ} (hne : sock' ≠ sock) :
    (s.closed sock).sockEndpointMap.find sock' = s.sockEndpointMap.find sock' := by
  rw [closed]
  split
  · rw [StdMap.find_erase_eq, if_neg hne]
  · rfl

/-- A listener handles a connection it has just accepted. -/
theorem checkOnHandle_accepted (s : SocketAccept) (curSock : ℤ) (ip : IPAddr) (port : Port) :
    (s.accepted curSock ip port).checkOnHandle ip port = true := by
  simp [checkOnHandle, accepted, curEndpoint]

end SocketAccept

structure SocketConnect where
  running : Bool := false
  remoteIpAddr : IPAddr := []
  remotePort : Port := 0
  localPort : Port := 0

namespace SocketConnect

/-- `Connect(ip, port)` once the kernel has connected it from `localPort`. -/
def connected (s : SocketConnect) (ip : IPAddr) (port localPort : Port) : SocketConnect :=
  if s.running then s
  else { remoteIpAddr := ip, remotePort := port, localPort := localPort, running := true }

/-- The end of the connection was reported. -/
def closed (s : SocketConnect) : SocketConnect := { s with running := false }

def checkOnHandle (s : SocketConnect) (ip : IPAddr) (port : Port) : Bool :=
  ip = s.remoteIpAddr && port = s.remotePort

/-- The endpoint of the connection it was told to make. -/
def endpoint (s : SocketConnect) : Endpoint := ⟨s.remoteIpAddr, s.remotePort, s.localPort⟩

/-- A connector handles a connection it has just made. -/
theorem checkOnHandle_connected {s : SocketConnect} (hs : s.running = false) (ip : IPAddr)
    (port localPort : Port) : (s.connected ip port localPort).checkOnHandle ip port = true := by
  simp [checkOnHandle, connected, hs]

end SocketConnect

end Elegance
