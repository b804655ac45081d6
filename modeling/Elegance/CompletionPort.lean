import Elegance.SendQueue
import Elegance.Socket

/-!
# The completion port of a listener on Windows

`Listen` starts the first `WSARecv` of a connection, then puts it into the tables and calls
`OnAccept`. Any number of `ServerWorkThread`s take the completions from the port: for a receive with
bytes they call `OnRecv` and start the next, for one without, or with an error, they call
`OnDisconnect`, erase the connection from the tables, close its socket and free its memory. The
accept loop and each thread go on in steps of their own, also while another is in a handler; what a
thread does with the queue of a socket after a send is in `SendQueue`, and here it is at `send`
meanwhile, where it reads `pHandleData` again and again.
-/

namespace Elegance

inductive IOCPHandleType where
  | send
  | recv
  deriving DecidableEq, Repr

/-- What `GetQueuedCompletionStatus` returns, with the connection that `pHandleData` and `pIoData`
were allocated for. -/
structure Completion where
  connection : ℕ
  type : IOCPHandleType
  bytesTransferred : ℕ
  getQueueError : Bool
  deriving DecidableEq, Repr

/-- The socket is taken to be disconnected. -/
def Completion.ends (c : Completion) : Bool := c.bytesTransferred = 0 || c.getQueueError

/-- What a thread does next with a completion; at `onRecv` and `onDisconnect` it is in the
handler. -/
inductive ServerWorkStep where
  | dispatch
  | send
  | onRecv
  | wsaRecv
  | onDisconnect
  | erase
  | closeHandle
  | globalFree
  | returned
  deriving DecidableEq, Repr

def ServerWorkStep.inHandler : ServerWorkStep → Bool
  | .onRecv | .onDisconnect => true
  | _ => false

inductive ServerWorkAt where
  | getQueued
  | has (c : Completion) (next : ServerWorkStep)
  deriving DecidableEq, Repr

/-- The thread has a completion of a send of the connection. -/
def ServerWorkAt.sends (k : ℕ) : ServerWorkAt → Prop
  | .getQueued => False
  | .has c next => c.type = .send ∧ c.connection = k ∧ next ≠ .returned

instance (k : ℕ) : ∀ pos : ServerWorkAt, Decidable (pos.sends k)
  | .getQueued => inferInstanceAs (Decidable False)
  | .has _ _ => inferInstanceAs (Decidable (_ ∧ _ ∧ _))

/-- The next step of `Listen` for the connection it accepted last; at `onAccept` it is in the
handler. -/
inductive ListenAt where
  | accept
  | register (k : ℕ)
  | callOnAccept (k : ℕ)
  | onAccept (k : ℕ)
  deriving DecidableEq, Repr

/-- The connection it is not done with. -/
def ListenAt.connection : ListenAt → Option ℕ
  | .accept => none
  | .register k | .callOnAccept k | .onAccept k => some k

/-- A call of the handler. -/
inductive ISocketHandlerCall where
  | onAccept (endpoint : Endpoint)
  | onRecv (endpoint : Endpoint) (data : List Byte)
  | onDisconnect (endpoint : Endpoint)
  deriving DecidableEq, Repr

/-- A connection with its `pHandleData` and the `pIoData` of its receives, what its peer has sent,
and how much of that was put into `buffer`; `closed` where a thread is past its `CloseHandle`. -/
structure IocpConnection where
  socket : ℤ
  endpoint : Endpoint
  isOpen : Bool := true
  closed : Bool := false
  freed : Bool := false
  buffer : List Byte := []
  bytesTransferred : ℕ := 0
  arrived : List Byte := []
  taken : ℕ := 0
  deriving DecidableEq, Repr

/-- The `SOCKET` is closed, if it is that of the connection. -/
def IocpConnection.closeSocket (sock : ℤ) (c : IocpConnection) : IocpConnection :=
  { c with isOpen := c.isOpen && c.socket ≠ sock }

/-- `posted` are the connections with a `WSARecv` that is not complete, `calls` the calls of the
handler, each with its connection. -/
structure CompletionPort (n : ℕ) where
  socket : SocketAccept
  connections : List IocpConnection := []
  posted : List ℕ := []
  port : List Completion := []
  listening : ListenAt := .accept
  workers : Fin n → ServerWorkAt := fun _ => .getQueued
  calls : List (ℕ × ISocketHandlerCall) := []

inductive PortEvent (n : ℕ) where
  /-- `WSAAccept` returned this socket, and its first `WSARecv` is started. -/
  | accept (sock : ℤ) (ip : IPAddr) (port : Port)
  | listen
  /-- The peer sends. -/
  | arrive (k : ℕ) (data : List Byte)
  /-- A receive, or a send, is complete. -/
  | complete (k bytesTransferred : ℕ) (getQueueError : Bool)
  | sendDone (k bytesTransferred : ℕ) (getQueueError : Bool)
  /-- A step of a thread; `failed` where it is a `WSARecv`, or ends with a `WSASend`, that fails. -/
  | work (i : Fin n) (failed : Bool)
  | disconnect (ip : IPAddr) (port : Port)

namespace CompletionPort

variable {n : ℕ}

def start (port : Port) : CompletionPort n where
  socket := ({} : SocketAccept).listen port

def goes (w : CompletionPort n) (i : Fin n) (pos : ServerWorkAt) : CompletionPort n :=
  { w with workers := Function.update w.workers i pos }

def call (w : CompletionPort n) (k : ℕ) (c : ISocketHandlerCall) : CompletionPort n :=
  { w with calls := w.calls ++ [(k, c)] }

def modify (w : CompletionPort n) (k : ℕ) (f : IocpConnection → IocpConnection) :
    CompletionPort n :=
  { w with connections := w.connections.modify k f }

/-- `closesocket(sock)`, or `CloseHandle` of it. -/
def closeSocket (w : CompletionPort n) (sock : ℤ) : CompletionPort n :=
  { w with connections := w.connections.map (IocpConnection.closeSocket sock) }

def listen (w : CompletionPort n) : CompletionPort n :=
  match w.listening with
  | .accept => w
  | .register k =>
    match w.connections[k]? with
    | some connection =>
      { w with
        socket := { w.socket with
          sockEndpointMap := w.socket.sockEndpointMap.set connection.socket connection.endpoint
          endpointSockMap := w.socket.endpointSockMap.set connection.endpoint connection.socket }
        listening := .callOnAccept k }
    | none => w
  | .callOnAccept k =>
    match w.connections[k]? with
    | some connection => { w.call k (.onAccept connection.endpoint) with listening := .onAccept k }
    | none => w
  | .onAccept _ => { w with listening := .accept }

/-- The next step of a thread that has a completion of this connection. -/
def handle (w : CompletionPort n) (i : Fin n) (failed : Bool) (c : Completion)
    (connection : IocpConnection) : ServerWorkStep → CompletionPort n
  | .dispatch =>
    let endpoint := w.socket.sockEndpointMap.find connection.socket
    if c.ends then
      match endpoint with
      | some endpoint =>
        (w.call c.connection (.onDisconnect endpoint)).goes i (.has c .onDisconnect)
      | none => w.goes i (.has c .erase)
    else
      match c.type with
      | .send => w.goes i (.has c .send)
      | .recv =>
        let bytesTransferred := connection.bytesTransferred + c.bytesTransferred
        let w := w.modify c.connection fun connection => { connection with bytesTransferred }
        match endpoint with
        | some endpoint =>
          (w.call c.connection (.onRecv endpoint (connection.buffer.take bytesTransferred))).goes i
            (.has c .onRecv)
        | none => w.goes i (.has c .wsaRecv)
  | .send => w.goes i (if failed then .has c .returned else .getQueued)
  | .onRecv => w.goes i (.has c .wsaRecv)
  | .wsaRecv =>
    let w := w.modify c.connection fun connection => { connection with bytesTransferred := 0 }
    if failed then w.goes i (.has c .returned)
    else { w with posted := w.posted ++ [c.connection] }.goes i .getQueued
  | .onDisconnect => w.goes i (.has c .erase)
  | .erase => { w with socket := w.socket.closed connection.socket }.goes i (.has c .closeHandle)
  | .closeHandle =>
    let w := if c.bytesTransferred = 0 ∧ c.getQueueError then w else w.closeSocket connection.socket
    (w.modify c.connection fun connection => { connection with closed := true }).goes i
      (.has c .globalFree)
  | .globalFree =>
    (w.modify c.connection fun connection => { connection with freed := true }).goes i .getQueued
  | .returned => w

def work (w : CompletionPort n) (i : Fin n) (failed : Bool) : CompletionPort n :=
  match w.workers i, w.port with
  | .getQueued, [] => w
  | .getQueued, c :: port => { w with port }.goes i (.has c .dispatch)
  | .has c next, _ =>
    match w.connections[c.connection]? with
    | some connection => w.handle i failed c connection next
    | none => w

def step (w : CompletionPort n) : PortEvent n → CompletionPort n
  | .accept sock ip port =>
    let k := w.connections.length
    { w with
      connections := w.connections ++ [{ socket := sock, endpoint := w.socket.curEndpoint ip port }]
      posted := w.posted ++ [k]
      listening := .register k }
  | .listen => w.listen
  | .arrive k data => w.modify k fun c => { c with arrived := c.arrived ++ data }
  | .complete k bytesTransferred getQueueError =>
    { w.modify k fun c => { c with
        buffer := (c.arrived.drop c.taken).take bytesTransferred
        taken := c.taken + bytesTransferred } with
      posted := w.posted.erase k
      port := w.port ++ [⟨k, .recv, bytesTransferred, getQueueError⟩] }
  | .sendDone k bytesTransferred getQueueError =>
    { w with port := w.port ++ [⟨k, .send, bytesTransferred, getQueueError⟩] }
  | .work i failed => w.work i failed
  | .disconnect ip port =>
    match w.socket.disconnect ip port with
    | some sock => w.closeSocket sock
    | none => w

def CanWork (w : CompletionPort n) : ServerWorkAt → Prop
  | .getQueued => w.port ≠ []
  | .has _ next => next ≠ .returned

/-- An accepted socket is none of those open, a receive that was started gets bytes that have
arrived, and a thread takes a completion where there is one. -/
def Can (w : CompletionPort n) : PortEvent n → Prop
  | .accept sock _ _ =>
    w.listening = .accept ∧ ∀ c ∈ w.connections, c.isOpen = true → c.socket ≠ sock
  | .listen => w.listening ≠ .accept
  | .complete k bytesTransferred getQueueError =>
    k ∈ w.posted ∧ bytesTransferred ≤ maxSocketMsgBuffLength ∧
      (getQueueError = true → bytesTransferred = 0) ∧
      ∀ c ∈ w.connections[k]?, c.taken + bytesTransferred ≤ c.arrived.length
  | .sendDone k _ _ => k < w.connections.length
  | .work i _ => w.CanWork (w.workers i)
  | .arrive _ _ | .disconnect _ _ => True

/-- A thread that reads `pHandleData` and `pIoData` finds them not freed, the iterator it erases by
is not `end()`, and no other connection has the socket it closes. -/
def SafeWork (w : CompletionPort n) : ServerWorkAt → Prop
  | .getQueued | .has _ .returned => True
  | .has c next => ∃ connection ∈ w.connections[c.connection]?, connection.freed = false ∧
      (next = .dispatch ∧ c.ends = true ∨ next = .onDisconnect ∨ next = .erase →
        (w.socket.sockEndpointMap.find connection.socket).isSome = true) ∧
      (next = .closeHandle → ∀ k c', w.connections[k]? = some c' → k ≠ c.connection →
        c'.isOpen = true → c'.socket ≠ connection.socket)

def Safe (w : CompletionPort n) : PortEvent n → Prop
  | .work i _ => w.SafeWork (w.workers i)
  | _ => True

/-- A completion of a send of the connection is in the port, or a thread has it. -/
def Sends (w : CompletionPort n) (k : ℕ) : Prop :=
  (∃ c ∈ w.port, c.type = .send ∧ c.connection = k) ∨ ∃ i, (w.workers i).sends k

instance (w : CompletionPort n) (k : ℕ) : Decidable (w.Sends k) :=
  inferInstanceAs (Decidable ((∃ c ∈ _, _) ∨ ∃ _, _))

/-- A receive is dispatched only when `OnAccept` has returned for its connection, and the memory of
a connection is freed only when its sends are handled. -/
def CarefulWork (w : CompletionPort n) : ServerWorkAt → Prop
  | .has c .dispatch => c.type = .recv → w.listening.connection ≠ some c.connection
  | .has c .globalFree => ¬ w.Sends c.connection
  | _ => True

/-- A `SOCKET` is accepted again only when the `CloseHandle` of those that had it is past; no send
fails, or is complete after the memory of its connection was freed; and the threads are careful. -/
def Careful (w : CompletionPort n) : PortEvent n → Prop
  | .accept sock _ _ => ∀ c ∈ w.connections, c.socket = sock → c.closed = true
  | .sendDone k bytesTransferred getQueueError =>
    Completion.ends ⟨k, .send, bytesTransferred, getQueueError⟩ = false ∧
      ∃ connection ∈ w.connections[k]?, connection.freed = false
  | .work i _ => w.CarefulWork (w.workers i)
  | _ => True

instance (w : CompletionPort n) : ∀ pos, Decidable (w.CanWork pos)
  | .getQueued => inferInstanceAs (Decidable (_ ≠ _))
  | .has _ _ => inferInstanceAs (Decidable (_ ≠ _))

instance (w : CompletionPort n) : ∀ pos, Decidable (w.CarefulWork pos)
  | .has _ .dispatch => inferInstanceAs (Decidable (_ → _))
  | .has _ .globalFree => inferInstanceAs (Decidable (¬ _))
  | .getQueued | .has _ .send | .has _ .onRecv | .has _ .wsaRecv | .has _ .onDisconnect
  | .has _ .erase | .has _ .closeHandle | .has _ .returned => .isTrue trivial

instance (w : CompletionPort n) : ∀ ev, Decidable (w.Can ev)
  | .accept _ _ _ => inferInstanceAs (Decidable (_ ∧ ∀ c ∈ _, _ → _))
  | .listen => inferInstanceAs (Decidable (_ ≠ _))
  | .complete _ _ _ => inferInstanceAs (Decidable (_ ∧ _ ∧ (_ → _) ∧ ∀ c ∈ _, _))
  | .sendDone _ _ _ => inferInstanceAs (Decidable (_ < _))
  | .work _ _ => inferInstanceAs (Decidable (w.CanWork _))
  | .arrive _ _ | .disconnect _ _ => .isTrue trivial

instance (w : CompletionPort n) : ∀ ev, Decidable (w.Careful ev)
  | .accept _ _ _ => inferInstanceAs (Decidable (∀ c ∈ _, _ → _))
  | .sendDone _ _ _ => inferInstanceAs (Decidable (_ ∧ ∃ connection ∈ _, _))
  | .work _ _ => inferInstanceAs (Decidable (w.CarefulWork _))
  | .listen | .arrive _ _ | .complete _ _ _ | .disconnect _ _ => .isTrue trivial

section Observed

/-- The calls about a connection. -/
def callsOf (w : CompletionPort n) (k : ℕ) : List ISocketHandlerCall :=
  (w.calls.filter (·.1 = k)).map Prod.snd

/-- The bytes handed over in some calls. -/
def received (calls : List ISocketHandlerCall) : List Byte :=
  calls.flatMap fun
    | .onRecv _ data => data
    | _ => []

/-- The calls tell of a connection: it is accepted, bytes are received, and it ends; none is left
out before another. -/
def Tells (endpoint : Endpoint) (calls : List ISocketHandlerCall) : Prop :=
  calls = [] ∨ ∃ (datas : List (List Byte)) (closing : List ISocketHandlerCall),
    calls = .onAccept endpoint :: (datas.map (.onRecv endpoint) ++ closing) ∧
      (closing = [] ∨ closing = [.onDisconnect endpoint])

/-- What the handler sees of each connection is one sequence of calls, one after another, with the
bytes its peer has sent. -/
structure InOrder (w : CompletionPort n) : Prop where
  /-- A thread with a completion finds the memory of its connection. -/
  unfreed : ∀ i c next, w.workers i = .has c next → next ≠ .returned →
    ∃ connection, w.connections[c.connection]? = some connection ∧ connection.freed = false
  alone : ∀ i i' c c' next next', w.workers i = .has c next → w.workers i' = .has c' next' →
    next.inHandler = true → next'.inHandler = true → c.connection = c'.connection → i = i'
  accepted : ∀ i c next, w.workers i = .has c next → next.inHandler = true →
    w.listening.connection ≠ some c.connection
  tells : ∀ k c, w.connections[k]? = some c → Tells c.endpoint (w.callsOf k)
  received_prefix : ∀ k c, w.connections[k]? = some c → received (w.callsOf k) <+: c.arrived
  /-- Where the next `WSARecv` is started, all that was taken is handed over. -/
  caught_up : ∀ k c, w.connections[k]? = some c → k ∈ w.posted →
    received (w.callsOf k) = c.arrived.take c.taken
  ended : ∀ k c, w.connections[k]? = some c → .onDisconnect c.endpoint ∈ w.callsOf k →
    received (w.callsOf k) = c.arrived.take c.taken
  /-- Where no thread has anything to do, every connection waits for bytes, but for those that have
  ended and those whose `WSARecv` failed. -/
  served : w.port = [] → (∀ i, w.workers i = .getQueued ∨ ∃ c, w.workers i = .has c .returned) →
    ∀ k c, w.connections[k]? = some c →
      k ∈ w.posted ∨ .onDisconnect c.endpoint ∈ w.callsOf k ∨
        ∃ i c', w.workers i = .has c' .returned ∧ c'.type = .recv ∧ c'.connection = k

end Observed

end CompletionPort

end Elegance
