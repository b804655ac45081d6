import Elegance.HandleNetTask
import Elegance.Lib.Run

/-!
# The send queue of a connection on Windows

`Write` starts a send with `WSASend`, or queues the buffer where `send_queue_map_` holds something;
where the send is pending, a `nullptr` is pushed afterwards. `ServerWorkThread` handles completions:
after that of a send it starts the next that is queued, or goes on with what was not transferred; one
with no bytes or an error, of a send or of a receive, ends the connection. Each call of `WSASend`,
with what comes before it, is a step, and so is each push of a `nullptr`.
-/

namespace Elegance

/-- What `WSASend` returns: 0, or an error that is `ERROR_IO_PENDING` or another. -/
inductive SendResult where
  | sent
  | pending
  | failed
  deriving DecidableEq, Repr

/-- What is left of the buffer that `Write` accepted as its `number`-th. -/
structure IoData where
  number : ℕ
  databuff : List Byte
  deriving DecidableEq, Repr

/-- The queue of a socket, the sends whose completion is not handled, and how many calls are between
`WSASend` and the push of a `nullptr`; the buffers that were accepted are counted, and the numbers of
those given to `WSASend` are kept. -/
structure SendQueue where
  isOpen : Bool
  queue : List (Option IoData)
  inFlight : List IoData
  marking : ℕ
  accepted : ℕ
  passed : List ℕ
  deriving DecidableEq, Repr

inductive SendEvent where
  | write (data : List Byte) (result : SendResult)
  | pushNull
  | complete (index bytesTransferred : ℕ) (getQueueError : Bool) (result : SendResult)
  | receive (bytesTransferred : ℕ) (getQueueError : Bool)
  deriving DecidableEq, Repr

namespace SendQueue

/-- The connection was accepted, and nothing written to it. -/
def start : SendQueue where
  isOpen := true
  queue := []
  inFlight := []
  marking := 0
  accepted := 0
  passed := []

/-- `WSASend` of the buffer. -/
def wsaSend (s : SendQueue) (data : IoData) : SendResult → SendQueue
  | .failed => { s with passed := s.passed ++ [data.number] }
  | _ => { s with inFlight := s.inFlight ++ [data], passed := s.passed ++ [data.number] }

/-- A `nullptr` is to be pushed. -/
def mark (s : SendQueue) : SendResult → SendQueue
  | .pending => { s with marking := s.marking + 1 }
  | _ => s

def write (s : SendQueue) (data : List Byte) (result : SendResult) : SendQueue :=
  if data = [] ∨ data.length > maxSocketMsgBuffLength ∨ !s.isOpen then s
  else if s.queue ≠ [] then
    { s with queue := s.queue ++ [some ⟨s.accepted, data⟩], accepted := s.accepted + 1 }
  else if result = .failed then s
  else { s.wsaSend ⟨s.accepted, data⟩ result with accepted := s.accepted + 1 }.mark result

def pushNull (s : SendQueue) : SendQueue :=
  { s with queue := s.queue ++ [none], marking := s.marking - 1 }

/-- The first buffer of the queue, and what is behind it. -/
def popNext : List (Option IoData) → Option IoData × List (Option IoData)
  | [] => (none, [])
  | none :: queue => popNext queue
  | some data :: queue => (some data, queue)

/-- The endpoint and the queue of the socket are erased. -/
def disconnect (s : SendQueue) : SendQueue := { s with isOpen := false, queue := [] }

/-- The handling of a completion once it is taken from the port. -/
def handle (s : SendQueue) (data : IoData) (bytesTransferred : ℕ) (getQueueError : Bool)
    (result : SendResult) : SendQueue :=
  if bytesTransferred = 0 ∨ getQueueError then s.disconnect
  else if bytesTransferred ≥ data.databuff.length then
    let (next, queue) := popNext s.queue
    let s := { s with queue }
    match next with
    | none => s
    | some next => (s.wsaSend next result).mark result
  else s.wsaSend { data with databuff := data.databuff.drop bytesTransferred } result

def complete (s : SendQueue) (index bytesTransferred : ℕ) (getQueueError : Bool)
    (result : SendResult) : SendQueue :=
  match s.inFlight[index]? with
  | none => s
  | some data =>
    { s with inFlight := s.inFlight.eraseIdx index }.handle data bytesTransferred getQueueError
      result

/-- The handling of a receive; the next is started, which leaves the sends alone. -/
def receive (s : SendQueue) (bytesTransferred : ℕ) (getQueueError : Bool) : SendQueue :=
  if bytesTransferred = 0 ∨ getQueueError then s.disconnect else s

def step (s : SendQueue) : SendEvent → SendQueue
  | .write data result => s.write data result
  | .pushNull => s.pushNull
  | .complete index bytesTransferred getQueueError result =>
    s.complete index bytesTransferred getQueueError result
  | .receive bytesTransferred getQueueError => s.receive bytesTransferred getQueueError

/-- A `nullptr` is pushed by a call that has to, and a completion handled until the end of the
connection, when the memory of its handle is freed. -/
def Can (s : SendQueue) : SendEvent → Prop
  | .write _ _ => True
  | .pushNull => 0 < s.marking
  | .complete index _ _ _ => s.isOpen ∧ index < s.inFlight.length
  | .receive _ _ => s.isOpen

/-- Unless a call is between two steps, a queue that holds something has a send whose completion is
to come. -/
def Served (s : SendQueue) : Prop := s.marking = 0 → s.queue ≠ [] → s.inFlight ≠ []

/-- The buffers were given to `WSASend` in the order they were accepted, and none was left out. -/
structure InOrder (s : SendQueue) : Prop where
  sorted : s.passed.Pairwise (· ≤ ·)
  none_skipped : ∀ n ∈ s.passed, ∀ k < n, k ∈ s.passed

/-- A `nullptr` is pushed while a send is in flight; a handler whose `WSASend` fails leaves nothing
queued, or another send in flight; and what was not transferred is sent before any later buffer. -/
def Careful (s : SendQueue) : SendEvent → Prop
  | .write _ _ => True
  | .pushNull => s.inFlight ≠ []
  | .complete index bytesTransferred getQueueError result =>
    ∀ data, s.inFlight[index]? = some data → bytesTransferred ≠ 0 → getQueueError = false →
      if bytesTransferred ≥ data.databuff.length then
        result = .failed →
          (s.queue.dropWhile Option.isNone).length ≤ 1 ∨ s.inFlight.eraseIdx index ≠ []
      else
        (∀ n ∈ s.passed, n ≤ data.number) ∧
          (result = .failed → s.queue = [] ∨ s.inFlight.eraseIdx index ≠ [])
  | .receive _ _ => True

instance (s : SendQueue) : ∀ ev, Decidable (s.Can ev)
  | .write _ _ => .isTrue trivial
  | .pushNull => inferInstanceAs (Decidable (_ < _))
  | .complete _ _ _ _ => inferInstanceAs (Decidable (_ ∧ _))
  | .receive _ _ => inferInstanceAs (Decidable (_ = true))

instance (s : SendQueue) : ∀ ev, Decidable (s.Careful ev)
  | .write _ _ | .receive _ _ => .isTrue trivial
  | .pushNull => inferInstanceAs (Decidable (_ ≠ _))
  | .complete index _ _ _ =>
    match h : s.inFlight[index]? with
    | none => .isTrue fun data hdata => by simp [h] at hdata
    | some data =>
      decidable_of_iff _ ⟨fun hcareful _ hdata => Option.some.inj (h.symm.trans hdata) ▸ hcareful,
        fun hcareful => hcareful data h⟩

end SendQueue

end Elegance
