import Elegance.Network
import Elegance.Lib.PartialWrite

/-!
# What is put on the wire

The calls of `NetworkManager::Send` while connections come and go, down to `send(2)`: for each
descriptor a listener holds and for each connector, the bytes the kernel took since its connection
was opened, and the messages of the sends whose `Write` returned true. A `memcpy` of `PackAndSend`
that leaves its buffer is undefined behaviour; what the state holds after one means nothing.
-/

namespace Elegance

open CInt PartialWrite

/-- Where a socket object's `Write` sends: a descriptor it accepted, or the connector's own. -/
inductive Wire where
  | sock (sock : ℤ)
  | connector (a : Addr)
  deriving DecidableEq, Repr

/-- The wire of the connection an event opens. -/
def NetworkEvent.opensWire : NetworkEvent → Option Wire
  | .accept _ sock _ _ => some (.sock sock)
  | .connect a _ _ _ => some (.connector a)
  | _ => none

structure Wires where
  net : Network
  /-- A `memcpy` of `PackAndSend` has left its buffer. -/
  overrun : Bool := false
  log : Wire → Log Byte := fun _ => {}
  messages : Wire → List (List Byte) := fun _ => []

inductive WiresEvent where
  | network (ev : NetworkEvent)
  /-- `Send`, where `send(2)` on a wire fails (`none`) or takes so many bytes. -/
  | send (netId : NetworkID) (data : List Byte) (kernel : Wire → Option ℕ)

/-- The `send(2)` a `Write` comes to. -/
def SocketWrite.sends (accepts : Addr → SocketAccept) : SocketWrite → Option (Wire × List Byte)
  | .accept a ip port data => ((accepts a).write ip port data).map fun sock => (.sock sock, data)
  | .connect a data => some (.connector a, data)

namespace Wires

variable (H : HostLayout)

def start (handlers : List Addr) (singleThread : Bool) : Wires where
  net := .start handlers singleThread

/-- The calls of `send(2)` of a `Send`; `none` where a `memcpy` leaves its buffer. -/
def sends (w : Wires) (netId : NetworkID) (data : List Byte) : Option (List (Wire × List Byte)) :=
  (w.net.mgr.send H netId data).map fun writes => writes.filterMap (·.sends w.net.accepts)

/-- The frames some calls put on a wire. -/
def framesOn (calls : List (Wire × List Byte)) (wire : Wire) : List (List Byte) :=
  (calls.filter (·.1 = wire)).map Prod.snd

def step (w : Wires) : WiresEvent → Wires
  | .network ev =>
    { w with
      net := w.net.step H ev
      log := fun wire => if ev.opensWire = some wire then {} else w.log wire
      messages := fun wire => if ev.opensWire = some wire then [] else w.messages wire }
  | .send netId data kernel =>
    match w.sends H netId data with
    | none => { w with overrun := true }
    | some calls =>
      { w with
        log := fun wire => (w.log wire).writeAll (framesOn calls wire) (kernel wire)
        messages := fun wire => w.messages wire ++
          if (kernel wire).isSome then (framesOn calls wire).map fun _ => data else [] }

/-- The socket layer can do it, and `send(2)` takes from 1 to all bytes. -/
def Can (w : Wires) : WiresEvent → Prop
  | .network ev => w.net.Can ev
  | .send netId data kernel => ∀ calls ∈ w.sends H netId data, ∀ x ∈ calls, ∀ count ∈ kernel x.1,
      1 ≤ count ∧ count ≤ x.2.length

/-- The frame of a message to a live connection has a length that is an `int`, and `send(2)` fails
or takes all. -/
def TakesAll (w : Wires) : WiresEvent → Prop
  | .network _ => True
  | .send netId data kernel =>
    ((w.net.mgr.netIdToEndpointMap.find netId).isSome →
      (data.length : ℤ) ≤ intMax - netPackerFixheadHeaderLength) ∧
    ∀ calls ∈ w.sends H netId data, ∀ x ∈ calls, ∀ count ∈ kernel x.1, x.2.length ≤ count

/-- The frame `PackAndSend` makes of a message. -/
def frameOf (data : List Byte) : List Byte := ((packAndSend H data).map Prod.fst).getD []

/-- Every copy stayed in its buffer, and each wire has the complete frames of the messages whose
`Write` returned true. -/
def Whole (w : Wires) : Prop :=
  w.overrun = false ∧ ∀ wire, (w.log wire).taken = (w.messages wire).flatMap (frameOf H)

instance (w : Wires) : ∀ ev, Decidable (w.Can H ev)
  | .network _ => inferInstanceAs (Decidable (Network.Can _ _))
  | .send _ _ _ => inferInstanceAs (Decidable (∀ calls ∈ _, ∀ x ∈ calls, ∀ count ∈ _, _ ∧ _))

instance (w : Wires) : ∀ ev, Decidable (w.TakesAll H ev)
  | .network _ => .isTrue trivial
  | .send _ _ _ =>
    inferInstanceAs (Decidable ((_ → _) ∧ ∀ calls ∈ _, ∀ x ∈ calls, ∀ count ∈ _, _))

end Wires

end Elegance
