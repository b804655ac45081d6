import Elegance.Wires

/-!
# Managers joined by connections

Any number of processes with a `NetworkManager` each. What `send(2)` takes at one end of a
connection is read at the other, in pieces of any size and as late as one likes, also after the
writer has closed its end. Each direction of a connection is a `Channel`: it is there once one end
is opened, and is read from when the network has joined it to a connection of another process, or of
the same.
-/

namespace Elegance

open CInt

/-- Where the object that reported a connection writes to it. -/
def Reporter.wire : Reporter → Wire
  | .accept _ sock => .sock sock
  | .connect a => .connector a

/-- The event brings data. -/
def NetworkEvent.Receives : NetworkEvent → Prop
  | .recv _ _ => True
  | _ => False

instance : ∀ ev : NetworkEvent, Decidable ev.Receives
  | .recv _ _ => .isTrue trivial
  | .listen _ _ | .endListen _ | .startConnect _ | .endConnect _ | .accept _ _ _ _
  | .connect _ _ _ _ | .disconnect _ => .isFalse id

/-- Who reads a channel. -/
inductive Reader (ι : Type) where
  | waiting
  | reads (target : ι) (endpoint : Endpoint)
  | gone
  deriving DecidableEq, Repr

def Reader.isReading {ι : Type} : Reader ι → Bool
  | .reads _ _ => true
  | _ => false

/-- What a connection of `source` writes: the bytes `send(2)` took, and the messages of the sends
under its net id that did not fail. -/
structure Channel (ι : Type) where
  source : ι
  endpoint : Endpoint
  netId : NetworkID
  wire : Wire
  isOpen : Bool := true
  bytes : List Byte := []
  sent : List (List Byte) := []
  reader : Reader ι := .waiting
  read : ℕ := 0
  deriving DecidableEq, Repr

structure Managers (ι : Type) where
  hosts : ι → Wires
  channels : List (Channel ι) := []

inductive ManagersEvent (ι : Type) where
  /-- What the socket threads of a process do, but for what they receive. -/
  | network (i : ι) (ev : NetworkEvent)
  /-- `Send`, as in `WiresEvent`. -/
  | send (i : ι) (netId : NetworkID) (data : List Byte) (kernel : Wire → Option ℕ)
  /-- The other end of a channel is this connection. -/
  | join (k : ℕ) (target : ι) (endpoint : Endpoint)
  /-- The reader of a channel receives the next bytes. -/
  | recv (k : ℕ) (data : Chunk)

namespace Channel

variable {ι : Type} [DecidableEq ι]

/-- The connection that writes it or the one that reads it is closed. -/
def disconnect (c : Channel ι) (i : ι) (endpoint : Endpoint) : Channel ι :=
  { c with
    isOpen := c.isOpen && !(c.source = i && c.endpoint = endpoint)
    reader := if c.reader = .reads i endpoint then .gone else c.reader }

/-- After a `Send` of its process, which left so much on the wires. -/
def send (c : Channel ι) (i : ι) (host : Wires) (netId : NetworkID) (data : List Byte)
    (kernel : Wire → Option ℕ) : Channel ι :=
  if c.source = i ∧ c.isOpen then
    { c with
      bytes := (host.log c.wire).taken
      sent := c.sent ++ if c.netId = netId ∧ (kernel c.wire).isSome then [data] else [] }
  else c

/-- What has not been read. -/
def unread (c : Channel ι) : List Byte := c.bytes.drop c.read

end Channel

namespace Managers

variable {ι : Type} [DecidableEq ι] (H : HostLayout)

def start (handlers : ι → List Addr) (singleThread : ι → Bool) : Managers ι where
  hosts i := .start (handlers i) (singleThread i)

/-- The channel a new connection writes to. -/
def opened (w : Managers ι) (i : ι) (ev : NetworkEvent) : Option (Channel ι) :=
  match ev.opensWire, (w.hosts i).net.opens ev with
  | some wire, some endpoint =>
    some { source := i, endpoint, netId := (w.hosts i).net.mgr.getFreeNetID.1, wire }
  | _, _ => none

/-- A process makes a step. -/
def moved (w : Managers ι) (i : ι) (ev : WiresEvent) : ι → Wires :=
  Function.update w.hosts i ((w.hosts i).step H ev)

def step (w : Managers ι) : ManagersEvent ι → Managers ι
  | .network i ev =>
    { hosts := w.moved H i (.network ev)
      channels := (match ev with
        | .disconnect endpoint => w.channels.map (·.disconnect i endpoint)
        | _ => w.channels) ++ (w.opened i ev).toList }
  | .send i netId data kernel =>
    let hosts := w.moved H i (.send netId data kernel)
    { hosts, channels := w.channels.map (·.send i (hosts i) netId data kernel) }
  | .join k target endpoint =>
    { w with channels := w.channels.modify k fun c => { c with reader := .reads target endpoint } }
  | .recv k data =>
    match (w.channels[k]?).map Channel.reader with
    | some (.reads target endpoint) =>
      { hosts := w.moved H target (.network (.recv endpoint data))
        channels := w.channels.modify k fun c => { c with read := c.read + data.bytes.length } }
    | _ => w

/-- A connection is reported on a descriptor, or by a connector, that no live one has; what is sent
has a frame whose length is an `int`; a channel is joined to a live connection that reads no other;
and what is received is the next part of what the channel holds. -/
def Can (w : Managers ι) : ManagersEvent ι → Prop
  | .network i ev => ¬ ev.Receives ∧ (w.hosts i).Can H (.network ev) ∧ ∀ wire ∈ ev.opensWire,
      ∀ c ∈ (w.hosts i).net.live, c.reporter.wire ≠ wire
  | .send i netId data kernel => (w.hosts i).Can H (.send netId data kernel) ∧
      (data.length : ℤ) ≤ intMax - netPackerFixheadHeaderLength
  | .join k target endpoint =>
      (∃ c ∈ w.channels[k]?, c.reader = .waiting) ∧
      (∃ c ∈ (w.hosts target).net.live, c.endpoint = endpoint) ∧
      ∀ c ∈ w.channels, c.reader ≠ .reads target endpoint
  | .recv k data => ∃ c ∈ w.channels[k]?, c.reader.isReading ∧ data.bytes <+: c.unread

instance (w : Managers ι) : ∀ ev, Decidable (w.Can H ev)
  | .network _ ev =>
    inferInstanceAs (Decidable (¬ ev.Receives ∧ _ ∧ ∀ wire ∈ ev.opensWire, ∀ c ∈ _, _))
  | .send _ _ _ _ => inferInstanceAs (Decidable (_ ∧ _))
  | .join _ _ _ => inferInstanceAs (Decidable ((∃ c ∈ _, _) ∧ (∃ c ∈ _, _) ∧ ∀ c ∈ _, _))
  | .recv _ _ => inferInstanceAs (Decidable (∃ c ∈ _, _ ∧ _))

end Managers

end Elegance
