import Elegance.Generated
import Elegance.HandleNetTask
import Elegance.Lib.StdString

/-!
# `SerializeNetworkManager`

An object is sent as one package, behind the name of its class. `OnRecvPackage` first does what the
base class does, then reads the length of the name as a `short` of the host, a little-endian one,
makes an object of the class and hands it to the handlers.
-/

namespace Elegance

open CInt StdString

def serializeClassNameMaxLen : ℤ := 256

def sizeofShort : ℕ := 2

def Data.typeName : Data → ClassName
  | .object name _ => name
  | _ => []

/-- The handlers of objects are a set of pointers, in the order of the addresses. -/
structure SerializeNetworkManager extends NetworkManager where
  serializeHandlerList : List Addr := []

/-- A call of a handler, or of the `OnRecv` that takes an object. -/
inductive SerializeCall where
  | handler (h : Addr) (call : HandlerCall)
  | onRecv (h : Addr) (netId : NetworkID) (data : Data)

namespace SerializeNetworkManager

section Send

/-- The id has an endpoint, and one socket object owns it. -/
def Connected (m : NetworkManager) (netId : NetworkID) : Prop :=
  (m.netIdToEndpointMap.find netId).isSome ∧
    (m.netIdToAccept.find netId).isSome ≠ (m.netIdToConnect.find netId).isSome

variable (behind : Behind) (declared : List GeneratedClass)

/-- The bytes `SendSerialize` fills. -/
def packSerialize (data : Data) : QueueByteArray :=
  serialize behind declared (({} : QueueByteArray).writeString data.typeName) data

def sendSerialize (m : NetworkManager) (netId : NetworkID) (data : Data) :
    Option (List SocketWrite) :=
  let q := packSerialize behind declared data
  let len := q.bytesQueue.length % 4294967296
  match (q.readObject len).1 with
  | none => some []
  | some charData => m.send littleEndian netId charData

/-- The objects one after another. -/
def sendSerializes (m : NetworkManager) (netId : NetworkID) : List Data → Option (List SocketWrite)
  | [] => some []
  | data :: rest => do
    let writes ← sendSerialize behind declared m netId data
    let others ← sendSerializes m netId rest
    some (writes ++ others)

end Send

section Recv

variable (behind : Behind) (declared : List GeneratedClass)

/-- What follows the call of the base class: the object made of the package, if there is one. The
outer `none` is undefined behaviour, or too little fuel for `Unserialize`. -/
def createFrom (fuel : ℕ) (data : List Byte) (length : ℤ) : Option (Option Data) :=
  if data.length < sizeofShort then none
  else
    let nameLen := littleEndian.readShort (data.take sizeofShort)
    if nameLen ≤ 0 ∨ nameLen ≥ serializeClassNameMaxLen then some none
    else if ¬ MemCopy.InBounds ⟨nameLen, data.length - sizeofShort, 0, serializeClassNameMaxLen⟩
      then none
    else
      let serializeName := cString ((data.drop sizeofShort).take nameLen.toNat ++ [0])
      match findClass declared serializeName with
      | none => some none
      | some _ =>
        let serializeLen := wrap32 (length - sizeofShort - nameLen)
        if serializeLen < 0 then some none
        else
          let q := ({} : QueueByteArray).writeObject
            (data.drop (length - serializeLen).toNat) serializeLen
          match unserialize behind declared fuel (construct declared serializeName) q with
          | some (serializeData, _) => some (some serializeData)
          | none => none

def onRecvPackage (fuel : ℕ) (m : SerializeNetworkManager) (netId : NetworkID) (data : List Byte)
    (length : ℤ) : Option (SerializeNetworkManager × List SerializeCall) := do
  let (base, calls) ← m.toNetworkManager.onRecvPackage netId data length
  let serializeData ← createFrom behind declared fuel data length
  some ({ m with toNetworkManager := base },
    calls.map (fun c => .handler c.1 c.2) ++ match serializeData with
      | none => []
      | some serializeData => m.serializeHandlerList.map fun h => .onRecv h netId serializeData)

/-- The packages of a net id, one after another. -/
def onRecvPackages (fuel : ℕ) (netId : NetworkID) : SerializeNetworkManager →
    List (List Byte × ℤ) → Option (SerializeNetworkManager × List SerializeCall)
  | m, [] => some (m, [])
  | m, (data, length) :: packages => do
    let (m, calls) ← m.onRecvPackage behind declared fuel netId data length
    let (m, rest) ← onRecvPackages fuel netId m packages
    some (m, calls ++ rest)

/-- `UnPack` of the chunks that arrive for a net id, with the calls of the handlers. -/
def unPackChunks (m : SerializeNetworkManager) (netId : NetworkID) (chunks : List Chunk)
    (fuel : ℕ) : Option (List SerializeCall) :=
  let o := unPackAll littleEndian m.netIdToBufferMap (chunks.map fun c => (netId, c))
  match o.final with
  | .error _ => none
  | .ok _ =>
    (m.onRecvPackages behind declared fuel netId (managerRecvs netId o.events)).map Prod.snd

end Recv

end SerializeNetworkManager

/-- The objects that handlers were called with. -/
def receivedObjects (calls : List SerializeCall) : List (Addr × NetworkID × Data) :=
  calls.filterMap fun
    | .handler _ _ => none
    | .onRecv h netId data => some (h, netId, data)

/-- The bytes a write hands to its socket. -/
def SocketWrite.data : SocketWrite → List Byte
  | .accept _ _ _ data => data
  | .connect _ data => data

/-- A number, a string, an array of these, or an array of a class with nothing but numbers and
strings. -/
inductive Attr.Flat (protocols : List ProtocolClass) : Attr → Prop
  | scalar (s : Scalar) (subtype : Option TypeName) : Flat protocols ⟨.scalar s, subtype⟩
  | scalars (s : Scalar) : Flat protocols ⟨.array, some (.scalar s)⟩
  | objects (name : ClassName) : (∀ p ∈ protocols, p.name = name → ∀ a ∈ p.attrs,
      ∃ s subtype, a = ⟨.scalar s, subtype⟩) → Flat protocols ⟨.array, some (.other name)⟩

/-- An object of a flat class with a name the receiver takes, small enough for a package. -/
structure Sendable (behind : Behind) (protocols : List ProtocolClass)
    (declared : List GeneratedClass) (d : Data) : Prop where
  fits : Fits declared (.named d.typeName) d
  flat : ∀ p ∈ protocols, p.name = d.typeName → ∀ a ∈ p.attrs, a.Flat protocols
  no_nul : 0 ∉ d.typeName
  name_pos : 1 ≤ d.typeName.length
  name_le : d.typeName.length ≤ 255
  size_le : ((SerializeNetworkManager.packSerialize behind declared d).bytesQueue.length : ℤ) ≤
    intMax - 4

end Elegance
