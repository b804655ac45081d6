import Elegance.NetworkManager

/-!
# `HandleNetTask`

In single-thread mode the event functions of the manager put tasks in a queue, and `HandleNetTask`
makes the calls of the first one. The payload of a package is copied into the task, which has room
for `MAX_SOCKET_MSG_BUFF_LENGTH` bytes; a `memcpy` past them is undefined behaviour, and the model
stops there.
-/

namespace Elegance

def maxSocketMsgBuffLength : ℕ := 1024 * 4

/-- The call of the `switch` in `HandleNetTask`. -/
def NetworkHandleTask.call (t : NetworkHandleTask) : HandlerCall :=
  match t.taskType with
  | .onConnect => .onConnect t.remoteIp t.remotePort t.localPort true t.netId
  | .onConnectFail => .onConnect t.remoteIp t.remotePort t.localPort false 0
  | .onListenFail => .onListenFail t.localPort
  | .onRecv => .onRecv t.netId (t.data.take t.length.toNat) t.length
  | .onAccept => .onAccept t.remoteIp t.remotePort t.localPort t.netId
  | .onDisconnect => .onDisconnect t.netId

namespace NetworkManager

/-- What `ListenThread` reports if `Listen` fails. -/
def onListenFail (m : NetworkManager) (port : Port) : NetworkManager × List (Addr × HandlerCall) :=
  m.tell { taskType := .onListenFail, localPort := port } (.onListenFail port)

/-- What `ConnectThread` reports if `Connect` fails. -/
def onConnectFail (m : NetworkManager) (ip : IPAddr) (port localPort : Port) :
    NetworkManager × List (Addr × HandlerCall) :=
  m.tell { taskType := .onConnectFail, remoteIp := ip, remotePort := port, localPort }
    (.onConnect ip port localPort false 0)

/-- `OnRecvPackage(net_id, data, length)`; `data` is what may be read from the pointer on. -/
def onRecvPackage (m : NetworkManager) (netId : NetworkID) (data : List Byte) (length : ℤ) :
    Option (NetworkManager × List (Addr × HandlerCall)) :=
  if netId ≤ 0 ∨ length ≤ 0 then some (m, [])
  else if m.singleThreadHandleMode ∧
      ¬ MemCopy.InBounds ⟨length, data.length, 0, maxSocketMsgBuffLength⟩ then none
  else
    some (m.tell { taskType := .onRecv, netId, data := data.take length.toNat, length }
      (.onRecv netId (data.take length.toNat) length))

def handleNetTask (m : NetworkManager) : NetworkManager × List (Addr × HandlerCall) :=
  match m.handleTaskQueue with
  | [] => (m, [])
  | task :: rest =>
    ({ m with handleTaskQueue := rest }, m.handlerList.map fun handler => (handler, task.call))

/-- `HandleNetTask` so many times. -/
def handleNetTasks : ℕ → NetworkManager → NetworkManager × List (Addr × HandlerCall)
  | 0, m => (m, [])
  | n + 1, m =>
    let (m, calls) := m.handleNetTask
    let (m, rest) := handleNetTasks n m
    (m, calls ++ rest)

end NetworkManager

/-- What the socket threads and the packer report to the manager; `accepts` and `connects` are the
socket objects at that moment. -/
inductive ManagerEvent where
  | listenFail (port : Port)
  | connectFail (ip : IPAddr) (port localPort : Port)
  | accept (accepts : Addr → SocketAccept) (ip : IPAddr) (port localPort : Port)
  | connect (connects : Addr → SocketConnect) (ip : IPAddr) (port localPort : Port)
  | recvPackage (netId : NetworkID) (data : List Byte) (length : ℤ)
  | disconnect (ip : IPAddr) (port localPort : Port)

namespace NetworkManager

def report (m : NetworkManager) : ManagerEvent → Option (NetworkManager × List (Addr × HandlerCall))
  | .listenFail port => m.onListenFail port
  | .connectFail ip port localPort => m.onConnectFail ip port localPort
  | .accept accepts ip port localPort => onAccept accepts m ip port localPort
  | .connect connects ip port localPort => onConnect connects m ip port localPort
  | .recvPackage netId data length => m.onRecvPackage netId data length
  | .disconnect ip port localPort => m.onDisconnect ip port localPort

/-- The events one after another, with the calls made meanwhile. -/
def reports : NetworkManager → List ManagerEvent →
    Option (NetworkManager × List (Addr × HandlerCall))
  | m, [] => some (m, [])
  | m, ev :: evs => do
    let (m, calls) ← m.report ev
    let (m, rest) ← reports m evs
    some (m, calls ++ rest)

end NetworkManager

/-- What may be read from the pointer of a package includes the package. -/
def ManagerEvent.Readable : ManagerEvent → Prop
  | .recvPackage _ data length => length ≤ data.length
  | _ => True

/-- A package for a handler fits into a task. -/
def ManagerEvent.Fits : ManagerEvent → Prop
  | .recvPackage netId _ length => 0 < netId → length ≤ maxSocketMsgBuffLength
  | _ => True

end Elegance
