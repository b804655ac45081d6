import Elegance.Packer
import Elegance.Socket
import Elegance.Lib.Run

/-!
# The epoll loops of `SocketAccept` and `SocketConnect`

Between two calls of `epoll_wait` the loop of `Listen` or of `Connect` goes through the ready
descriptors in turn. An `EPOLLIN` event is read until `read` returns no data; the connection is ended
where the first read of the event already did, or where there is no `EPOLLIN`. The handler is set.
-/

namespace Elegance

/-- A `read` that returns no data: 0 for the end of the file, or -1 with `EAGAIN`. -/
inductive ReadEnd where
  | eof
  | again
  deriving DecidableEq, Repr

/-- The reads of one `EPOLLIN` event. -/
structure Reads where
  data : List Chunk
  last : ReadEnd

/-- What is ready on a connection's descriptor: something to read, or only its error or hang-up. -/
inductive Io where
  | readable (reads : Reads)
  | hangUp

/-- A read of the event returned 0. -/
def Io.eof : Io → Bool
  | .readable reads => reads.last = .eof
  | .hangUp => false

/-- A ready descriptor: the listening one, where `accept` returns a connection, or a connection's. -/
inductive Ready where
  | accept (sock : ℤ) (ip : IPAddr) (port : Port)
  | io (sock : ℤ) (io : Io)

/-- The connection's descriptor. -/
def Ready.sock? : Ready → Option ℤ
  | .accept _ _ _ => none
  | .io sock _ => some sock

/-- A read returned 0 after one of the same event that returned data. -/
def Ready.EndsBehindData : Ready → Prop
  | .io _ (.readable reads) => reads.data ≠ [] ∧ reads.last = .eof
  | _ => False

/-- What the loop calls. -/
inductive SocketCall where
  | close (sock : ℤ)
  | onRecv (endpoint : Endpoint) (data : List Byte)
  | onDisconnect (endpoint : Endpoint)
  deriving DecidableEq, Repr

/-- The call ends a connection. -/
def SocketCall.Ends : SocketCall → Prop
  | .onRecv _ _ => False
  | _ => True

/-- The end of a connection. -/
def endCalls (sock : ℤ) (endpoint : Option Endpoint) : List SocketCall :=
  .close sock :: endpoint.toList.map .onDisconnect

/-- The parts in which the two loops differ. -/
structure SocketLoop (σ : Type*) where
  /-- The endpoint the handler is told for a descriptor. -/
  endpointOf : σ → ℤ → Option Endpoint
  /-- The tables once the end of a descriptor was reported. -/
  closed : σ → ℤ → σ
  /-- No table holds the connection. -/
  erased : σ → ℤ → Endpoint → Bool
  /-- The tables once `accept` returned a descriptor, with its endpoint; `none` without a listening
  descriptor. -/
  accepted : σ → ℤ → IPAddr → Port → Option (σ × Endpoint)
  endpointOf_closed : ∀ s sock sock', sock' ≠ sock →
    endpointOf (closed s sock) sock' = endpointOf s sock'
  erased_closed : ∀ s sock endpoint, endpointOf s sock = some endpoint →
    erased (closed s sock) sock endpoint
  endpointOf_accepted : ∀ s sock ip port s' endpoint, accepted s sock ip port = some (s', endpoint) →
    endpointOf s' sock = some endpoint ∧
      ∀ sock', sock' ≠ sock → endpointOf s' sock' = endpointOf s sock'

/-- The loop of `Listen`. -/
def SocketAccept.loop : SocketLoop SocketAccept where
  endpointOf s := s.sockEndpointMap.find
  closed := closed
  erased s sock endpoint :=
    (s.sockEndpointMap.find sock).isNone && (s.endpointSockMap.find endpoint).isNone
  accepted s sock ip port := some (s.accepted sock ip port, s.curEndpoint ip port)
  endpointOf_closed s sock sock' hne := s.find_closed hne
  erased_closed s sock endpoint h := by
    rw [closed, h]
    simp
  endpointOf_accepted s sock ip port s' endpoint h := by
    obtain ⟨rfl, rfl⟩ := Prod.mk.inj (Option.some.inj h)
    refine ⟨?_, fun sock' hne => ?_⟩ <;> rw [SocketAccept.accepted, StdMap.find_set_eq]
    · rw [if_pos rfl]
    · rw [if_neg hne]

/-- The loop of `Connect`, which has one connection and no table. -/
def SocketConnect.loop : SocketLoop SocketConnect where
  endpointOf s _ := some s.endpoint
  closed s _ := s.closed
  erased _ _ _ := true
  accepted _ _ _ _ := none
  endpointOf_closed _ _ _ _ := rfl
  erased_closed _ _ _ _ := rfl
  endpointOf_accepted _ _ _ _ _ _ h := by cases h

/-- A connection, with what the loop did about its end. -/
structure Served where
  sock : ℤ
  endpoint : Endpoint
  isOpen : Bool := true
  /-- A read returned 0. -/
  sawEof : Bool := false
  closes : ℕ := 0
  reports : ℕ := 0
  erased : Bool := false
  deriving DecidableEq, Repr

structure Serving (σ : Type*) where
  socket : σ
  served : List Served := []

/-- `Listen` has bound its port. -/
def Serving.listening (port : Port) : Serving SocketAccept where
  socket := ({} : SocketAccept).listen port

/-- `Connect` has connected its descriptor. -/
def Serving.connected (sock : ℤ) (ip : IPAddr) (port localPort : Port) : Serving SocketConnect where
  socket := ({} : SocketConnect).connected ip port localPort
  served := [{ sock, endpoint := ⟨ip, port, localPort⟩ }]

namespace SocketLoop

variable {σ : Type*} (L : SocketLoop σ)

/-- One ready connection. -/
def serve (s : σ) (sock : ℤ) : Io → σ × List SocketCall
  | .readable reads =>
    if reads.data = [] then (L.closed s sock, endCalls sock (L.endpointOf s sock))
    else (s, (L.endpointOf s sock).toList.flatMap fun endpoint =>
      reads.data.map fun data => .onRecv endpoint data.bytes)
  | .hangUp => (L.closed s sock, endCalls sock (L.endpointOf s sock))

/-- What happened to a connection when its descriptor was ready. -/
def after (s : σ) (io : Io) (c : Served) : Served :=
  let (s', calls) := L.serve s c.sock io
  { c with
    isOpen := .close c.sock ∉ calls
    sawEof := c.sawEof || io.eof
    closes := c.closes + calls.count (.close c.sock)
    reports := c.reports + calls.count (.onDisconnect c.endpoint)
    erased := L.erased s' c.sock c.endpoint }

/-- One ready descriptor. -/
def step (w : Serving σ) : Ready → Serving σ
  | .accept sock ip port =>
    match L.accepted w.socket sock ip port with
    | none => w
    | some (socket, endpoint) => ⟨socket, w.served ++ [{ sock, endpoint }]⟩
  | .io sock io =>
    { socket := (L.serve w.socket sock io).1
      served := w.served.map fun c =>
        if c.isOpen && c.sock = sock then L.after w.socket io c else c }

/-- The ready descriptors of one `epoll_wait`. -/
def turn (w : Serving σ) (ready : List Ready) : Serving σ := Machine.exec L.step w ready

/-- `accept` returns a descriptor that is not open, and only open connections are ready. -/
def Can (w : Serving σ) : Ready → Prop
  | .accept sock ip port =>
    (L.accepted w.socket sock ip port).isSome ∧ ∀ c ∈ w.served, c.isOpen → c.sock ≠ sock
  | .io sock _ => ∃ c ∈ w.served, c.isOpen ∧ c.sock = sock

/-- `epoll_wait` reports a descriptor once. -/
def CanTurn (w : Serving σ) (ready : List Ready) : Prop :=
  (ready.filterMap Ready.sock?).Nodup ∧ Machine.Along L.step L.Can w ready

/-- Data up to an `EAGAIN` ends no connection. -/
def KeepsOpen (w : Serving σ) : Ready → Prop
  | .io sock (.readable reads) => reads.data ≠ [] → reads.last = .again →
    ∀ call ∈ (L.serve w.socket sock (.readable reads)).2, ¬ call.Ends
  | _ => True

/-- By the next `epoll_wait` every connection a read of which returned 0 was closed and reported
once, and erased. -/
def Detects (w : Serving σ) (ready : List Ready) : Prop :=
  (∀ c ∈ (L.turn w ready).served, c.sawEof → c.closes = 1 ∧ c.reports = 1 ∧ c.erased) ∧
    Machine.Along L.step L.KeepsOpen w ready

instance (w : Serving σ) : ∀ ev, Decidable (L.Can w ev)
  | .accept _ _ _ => inferInstanceAs (Decidable (_ ∧ _))
  | .io _ _ => inferInstanceAs (Decidable (∃ c ∈ w.served, _))

instance (w : Serving σ) (ready : List Ready) : Decidable (L.CanTurn w ready) :=
  inferInstanceAs (Decidable (_ ∧ _))

end SocketLoop

end Elegance
