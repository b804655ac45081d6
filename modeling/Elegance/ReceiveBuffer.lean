import Elegance.HandleNetTask
import Elegance.SocketLoops
import Elegance.Lib.Memory

/-!
# The inner read loops of `SocketAccept` and `SocketConnect`

`Listen` and `Connect` read a descriptor into the array `buff_`, put a zero behind what was read and
hand it on, until a read returns no data. `buff_` has `maxSocketMsgBuffLength` elements; the loop
keeps the memory from `buff_` on and the indices of `buff_` it stores to.
-/

namespace Elegance

/-- What one `read` returns: no more than was asked for. -/
structure SocketRead where
  bytes : List Byte
  ne_nil : bytes ≠ []
  length_le : bytes.length ≤ maxSocketMsgBuffLength

def SocketRead.toChunk (data : SocketRead) : Chunk where
  bytes := data.bytes
  ne_nil := data.ne_nil
  length_le := by
    have h := data.length_le
    unfold maxSocketMsgBuffLength at h
    unfold CInt.intMax
    omega

structure Receiving where
  memory : ℕ → Byte
  stores : List ℕ := []
  calls : List SocketCall := []

namespace Receiving

/-- Stores to `buff_` from an index on. -/
def store (r : Receiving) (index : ℕ) (bs : List Byte) : Receiving :=
  { r with
    memory := Memory.store r.memory index bs
    stores := r.stores ++ List.range' index bs.length }

/-- `OnRecv(buff_, read_size)`, for a descriptor that has an endpoint. -/
def onRecv (r : Receiving) (endpoint : Option Endpoint) (readSize : ℕ) : Receiving :=
  { r with
    calls := r.calls ++
      endpoint.toList.map fun endpoint => .onRecv endpoint (Memory.load r.memory 0 readSize) }

/-- One turn of the loop: what `read` stores, the zero behind it, and the call. -/
def step (endpoint : Option Endpoint) (r : Receiving) (data : SocketRead) : Receiving :=
  ((r.store 0 data.bytes).store data.bytes.length [0]).onRecv endpoint data.bytes.length

/-- Every store is to an index that `buff_` has. -/
def InBounds (r : Receiving) : Prop := ∀ index ∈ r.stores, index < maxSocketMsgBuffLength

/-- The calls for the endpoint have the bytes that were read, in order. -/
def Forwards (r : Receiving) (endpoint : Option Endpoint) (reads : List SocketRead) : Prop :=
  r.calls = endpoint.toList.flatMap fun endpoint =>
    reads.map fun data => .onRecv endpoint data.bytes

end Receiving

namespace SocketLoop

variable {σ : Type*} (L : SocketLoop σ)

/-- The inner loop for one ready descriptor, up to the read that returns no data. -/
def receive (s : σ) (sock : ℤ) (memory : ℕ → Byte) (reads : List SocketRead) : Receiving :=
  Machine.exec (Receiving.step (L.endpointOf s sock)) { memory } reads

end SocketLoop

end Elegance
