import Elegance.FlexibleBuffer
import Elegance.Lib.StdMap

/-!
# `NetworkPackagerFixHead`

`UnPack` keeps, for each net id, the bytes of the package being received and cuts the stream into
packages; `PackAndSend` writes the header in front of one. Each activation of `UnPack` makes one
`memcpy`; one that leaves its blocks is undefined behaviour, and the model stops there.
-/

namespace Elegance

open CInt

abbrev NetworkID := ℤ

def netPackerFixheadHeaderLength : ℕ := 4

/-- `NetPackerFixHeadMsgCacheBuffer`. -/
structure CacheBuffer where
  buffer : FlexibleBuffer := {}
  curReadSize : ℤ := 0
  deriving DecidableEq, Repr

/-- A `memcpy` of `size` bytes from a source with `srcLen` bytes to `off` in a block of `dstLen`. -/
structure MemCopy where
  size : ℤ
  srcLen : ℤ
  off : ℤ
  dstLen : ℤ
  deriving DecidableEq, Repr

/-- The copy has a non-negative size and stays in its source and in its destination. -/
def MemCopy.InBounds (c : MemCopy) : Prop :=
  0 ≤ c.size ∧ c.size ≤ c.srcLen ∧ 0 ≤ c.off ∧ c.off + c.size ≤ c.dstLen

instance (c : MemCopy) : Decidable c.InBounds :=
  inferInstanceAs (Decidable (_ ∧ _ ∧ _ ∧ _))

inductive PackerEvent where
  | copy (c : MemCopy)
  | managerRecv (netId : NetworkID) (data : List Byte) (length : ℤ)
  deriving DecidableEq, Repr

/-- A copy in bounds, or a package of a length that is not negative. -/
def PackerEvent.Safe : PackerEvent → Prop
  | .copy c => c.InBounds
  | .managerRecv _ _ length => 0 ≤ length

/-- Why a run of `UnPack` has no next state. -/
inductive Halt where
  | badCopy
  | outOfFuel
  deriving DecidableEq, Repr

/-- What one activation of `UnPack` does before it calls itself on `rest`. -/
structure Activation where
  copy : MemCopy
  recv : Option (List Byte × ℤ)
  cache : CacheBuffer
  rest : List Byte
  remainBytes : ℤ

/-- `net_id_to_buffer_map_`. -/
abbrev NetIdToBufferMap := StdMap NetworkID CacheBuffer

section Host

variable (H : HostLayout)

/-- `((NetPackerFixHeadMsgHeader *)buffer)->package_length`. -/
def packageLength (b : FlexibleBuffer) : ℤ :=
  H.readInt (b.buffer.content.take netPackerFixheadHeaderLength)

/-- The branch of `UnPack` that reads the body. -/
def readBody (c : CacheBuffer) (data : List Byte) : Activation :=
  let length : ℤ := data.length
  let leftBytes := wrap32 (wrap32 (netPackerFixheadHeaderLength + packageLength H c.buffer)
    - c.curReadSize)
  let copyBytes := if length ≥ leftBytes then leftBytes else length
  let buffer := { c.buffer with
    buffer := c.buffer.buffer.write c.curReadSize.toNat (data.take copyBytes.toNat) }
  let curReadSize := c.curReadSize + copyBytes
  let complete : Bool :=
    curReadSize = wrap32 (netPackerFixheadHeaderLength + packageLength H buffer)
  { copy := ⟨copyBytes, length, c.curReadSize, c.buffer.bufferSize⟩
    recv :=
      if complete then
        some ((buffer.buffer.content.drop netPackerFixheadHeaderLength).take
          (packageLength H buffer).toNat, packageLength H buffer)
      else none
    cache := if complete then ⟨buffer.zeroAllBytes, 0⟩ else ⟨buffer, curReadSize⟩
    rest := data.drop copyBytes.toNat
    remainBytes := length - copyBytes }

/-- The branch of `UnPack` that reads the header. -/
def readHeader (c : CacheBuffer) (data : List Byte) : Activation :=
  let length : ℤ := data.length
  let leftBytes := netPackerFixheadHeaderLength - c.curReadSize
  let copyBytes := if length ≥ leftBytes then leftBytes else length
  let buffer := { c.buffer with
    buffer := c.buffer.buffer.write c.curReadSize.toNat (data.take copyBytes.toNat) }
  let curReadSize := c.curReadSize + copyBytes
  let allPackSize := wrap32 (netPackerFixheadHeaderLength + packageLength H buffer)
  { copy := ⟨copyBytes, length, c.curReadSize, c.buffer.bufferSize⟩
    recv := none
    cache :=
      ⟨if netPackerFixheadHeaderLength ≤ curReadSize ∧ buffer.bufferSize < allPackSize then
        buffer.changeBufferSize allPackSize
      else buffer, curReadSize⟩
    rest := data.drop copyBytes.toNat
    remainBytes := length - copyBytes }

/-- The entry a net id gets when its first bytes arrive. -/
def firstRead : CacheBuffer :=
  ⟨({} : FlexibleBuffer).changeBufferSize netPackerFixheadHeaderLength, 0⟩

/-- One activation of `UnPack` on the entry found for the net id. -/
def activation (entry : Option CacheBuffer) (data : List Byte) : Activation :=
  match entry with
  | some c =>
    if netPackerFixheadHeaderLength ≤ c.curReadSize then readBody H c data
    else readHeader H c data
  | none => readHeader H firstRead data

/-- What a run of `UnPack` did, and the map it left. -/
structure Outcome where
  events : List PackerEvent
  final : Except Halt NetIdToBufferMap

/-- The events of an activation on `netId`. -/
def Activation.events (a : Activation) (netId : NetworkID) : List PackerEvent :=
  .copy a.copy :: (a.recv.map fun p => .managerRecv netId p.1 p.2).toList

/-- `UnPack` with at most `fuel` nested calls. -/
def unPackFuel (netId : NetworkID) : ℕ → NetIdToBufferMap → List Byte → Outcome
  | 0, _, _ => ⟨[], .error .outOfFuel⟩
  | fuel + 1, m, data =>
    let a := activation H (m.find netId) data
    if a.copy.InBounds then
      if 0 < a.remainBytes then
        let o := unPackFuel netId fuel (m.set netId a.cache) a.rest
        ⟨a.events netId ++ o.events, o.final⟩
      else ⟨a.events netId, .ok (m.set netId a.cache)⟩
    else ⟨[.copy a.copy], .error .badCopy⟩

/-- `UnPack(net_id, data, length)`. -/
def unPack (m : NetIdToBufferMap) (netId : NetworkID) (data : List Byte) : Outcome :=
  unPackFuel H netId (data.length + 1) m data

/-- What a socket hands over in one call: at least one byte, and no more than an `int` counts. -/
structure Chunk where
  bytes : List Byte
  ne_nil : bytes ≠ []
  length_le : (bytes.length : ℤ) ≤ intMax

/-- A sequence of `UnPack` calls, stopped where one has no next state. -/
def unPackAll : NetIdToBufferMap → List (NetworkID × Chunk) → Outcome
  | m, [] => ⟨[], .ok m⟩
  | m, (netId, c) :: calls =>
    let o := unPack H m netId c.bytes
    match o.final with
    | .error e => ⟨o.events, .error e⟩
    | .ok m' =>
      let r := unPackAll m' calls
      ⟨o.events ++ r.events, r.final⟩

/-- `PackAndSend(net_id, data, length)`: the bytes and the length handed to `ManagerSend`; `none`
where a `memcpy` leaves the buffer. -/
def packAndSend (data : List Byte) : Option (List Byte × ℤ) :=
  let length : ℤ := data.length
  let buffer := ({} : FlexibleBuffer).changeBufferSize
    (wrap32 (netPackerFixheadHeaderLength + length))
  let copies : List MemCopy :=
    [⟨netPackerFixheadHeaderLength, netPackerFixheadHeaderLength, 0, buffer.bufferSize⟩,
      ⟨length, length, netPackerFixheadHeaderLength, buffer.bufferSize⟩]
  if ∀ c ∈ copies, c.InBounds then
    let block := (buffer.buffer.write 0 (H.writeInt length)).write netPackerFixheadHeaderLength data
    some (block.content, buffer.bufferSize)
  else none

end Host

/-- The `ManagerRecv` calls made for a net id. -/
def managerRecvs (netId : NetworkID) (events : List PackerEvent) : List (List Byte × ℤ) :=
  events.filterMap fun
    | .managerRecv n data length => if n = netId then some (data, length) else none
    | .copy _ => none

/-- The bytes fed to a net id. -/
def fed (netId : NetworkID) (calls : List (NetworkID × Chunk)) : List Byte :=
  calls.flatMap fun c => if c.1 = netId then c.2.bytes else []

end Elegance
