import Elegance.ByteArray
import Elegance.Packer
import Elegance.Lib.Memory
import Elegance.Lib.StdString

/-!
# `StaticByteArray`

A buffer of fixed size, written and read from the front once; a number lies in it as the host stores
it. A `memcpy` that leaves the buffer is undefined behaviour, and the model stops there.
-/

namespace Elegance

open CInt Memory StdString

def maxMsgLength : ℕ := 1024 * 256

def stringLengthByteSize : ℕ := 2

structure StaticByteArray where
  bufferCache : ℕ → Byte := fun _ => 0
  hasReadLength : ℤ := 0
  hasWriteLength : ℤ := 0

namespace StaticByteArray

def bytesAvailable (a : StaticByteArray) : ℕ :=
  ((a.hasWriteLength - a.hasReadLength) % 4294967296).toNat

/-- The bytes between the two lengths. -/
def unread (a : StaticByteArray) : List Byte :=
  load a.bufferCache a.hasReadLength.toNat (a.hasWriteLength - a.hasReadLength).toNat

structure Bounded (a : StaticByteArray) : Prop where
  read_nonneg : 0 ≤ a.hasReadLength
  read_le : a.hasReadLength ≤ a.hasWriteLength
  write_le : a.hasWriteLength ≤ maxMsgLength

variable (host : Endian)

section Read

def readItemFromBuffer (a : StaticByteArray) (sizeofT : ℕ) : ℕ × StaticByteArray :=
  (host.number (load a.bufferCache a.hasReadLength.toNat sizeofT),
    { a with hasReadLength := a.hasReadLength + sizeofT })

/-- `READNUM`. -/
def readNum (a : StaticByteArray) (sizeofT : ℕ) : ℕ × StaticByteArray :=
  if a.hasReadLength + sizeofT > a.hasWriteLength then (0, a)
  else a.readItemFromBuffer host sizeofT

def readInt8 (a : StaticByteArray) : Int8 × StaticByteArray :=
  (a.readNum host 1).map (fun n => (UInt8.ofNat n).toInt8) id

def readUint8 (a : StaticByteArray) : UInt8 × StaticByteArray :=
  (a.readNum host 1).map UInt8.ofNat id

def readInt16 (a : StaticByteArray) : Int16 × StaticByteArray :=
  (a.readNum host 2).map (fun n => (UInt16.ofNat n).toInt16) id

def readUint16 (a : StaticByteArray) : UInt16 × StaticByteArray :=
  (a.readNum host 2).map UInt16.ofNat id

def readInt32 (a : StaticByteArray) : Int32 × StaticByteArray :=
  (a.readNum host 4).map (fun n => (UInt32.ofNat n).toInt32) id

def readUint32 (a : StaticByteArray) : UInt32 × StaticByteArray :=
  (a.readNum host 4).map UInt32.ofNat id

def readFloat (a : StaticByteArray) : UInt32 × StaticByteArray :=
  (a.readNum host 4).map UInt32.ofNat id

def readInt64 (a : StaticByteArray) : Int64 × StaticByteArray :=
  (a.readNum host 8).map (fun n => (UInt64.ofNat n).toInt64) id

def readUint64 (a : StaticByteArray) : UInt64 × StaticByteArray :=
  (a.readNum host 8).map UInt64.ofNat id

def readDouble (a : StaticByteArray) : UInt64 × StaticByteArray :=
  (a.readNum host 8).map UInt64.ofNat id

/-- The string is built from `read_str`, a `const char *`. -/
def readString (a : StaticByteArray) : List Byte × StaticByteArray :=
  let validBufferLen := a.hasWriteLength - a.hasReadLength
  if validBufferLen < stringLengthByteSize then ([], a)
  else
    let (strLen, a) := a.readUint16 host
    let validBufferLen := validBufferLen - stringLengthByteSize
    if strLen.toNat > validBufferLen then ([], a)
    else
      let readStr := load a.bufferCache a.hasReadLength.toNat strLen.toNat ++ [0]
      (cString readStr, { a with hasReadLength := a.hasReadLength + strLen.toNat })

/-- `none` for `nullptr`. -/
def readObject (a : StaticByteArray) (size : ℕ) : Option (List Byte) × StaticByteArray :=
  if size = 0 ∨ size > a.bytesAvailable then (none, a)
  else
    (some (load a.bufferCache a.hasReadLength.toNat size),
      { a with hasReadLength := a.hasReadLength + size })

end Read

section Write

def writeItemToBuffer (a : StaticByteArray) (src : List Byte) : StaticByteArray :=
  { a with
    bufferCache := store a.bufferCache a.hasWriteLength.toNat src
    hasWriteLength := a.hasWriteLength + src.length }

/-- `WRITENUM`. -/
def writeNum (a : StaticByteArray) (sizeofT n : ℕ) : StaticByteArray :=
  if maxMsgLength < a.hasWriteLength + sizeofT then a
  else a.writeItemToBuffer (host.digits sizeofT n)

def writeInt8 (a : StaticByteArray) (value : Int8) : StaticByteArray :=
  a.writeNum host 1 value.toUInt8.toNat

def writeUint8 (a : StaticByteArray) (value : UInt8) : StaticByteArray :=
  a.writeNum host 1 value.toNat

def writeInt16 (a : StaticByteArray) (value : Int16) : StaticByteArray :=
  a.writeNum host 2 value.toUInt16.toNat

def writeUint16 (a : StaticByteArray) (value : UInt16) : StaticByteArray :=
  a.writeNum host 2 value.toNat

def writeInt32 (a : StaticByteArray) (value : Int32) : StaticByteArray :=
  a.writeNum host 4 value.toUInt32.toNat

def writeUint32 (a : StaticByteArray) (value : UInt32) : StaticByteArray :=
  a.writeNum host 4 value.toNat

def writeFloat (a : StaticByteArray) (bits : UInt32) : StaticByteArray :=
  a.writeNum host 4 bits.toNat

def writeInt64 (a : StaticByteArray) (value : Int64) : StaticByteArray :=
  a.writeNum host 8 value.toUInt64.toNat

def writeUint64 (a : StaticByteArray) (value : UInt64) : StaticByteArray :=
  a.writeNum host 8 value.toNat

def writeDouble (a : StaticByteArray) (bits : UInt64) : StaticByteArray :=
  a.writeNum host 8 bits.toNat

/-- `memcpy(buffer_cache_ + has_write_length_, src, size)`, and the length moved on by `size`. -/
def memcpy (a : StaticByteArray) (src : List Byte) (size : ℤ) : Option StaticByteArray :=
  if MemCopy.InBounds ⟨size, src.length, a.hasWriteLength, maxMsgLength⟩ then
    some (a.writeItemToBuffer (src.take size.toNat))
  else none

def writeString (a : StaticByteArray) (str : List Byte) : Option StaticByteArray :=
  let strLen := wrap32 str.length
  if maxMsgLength < wrap32 (wrap32 (a.hasWriteLength + strLen) + stringLengthByteSize) then some a
  else (a.writeUint16 host (UInt16.ofInt strLen)).memcpy str strLen

def writeObject (a : StaticByteArray) (obj : List Byte) (bytesLen : ℤ) : Option StaticByteArray :=
  if wrap32 (a.hasWriteLength + bytesLen) > maxMsgLength then some a
  else a.memcpy obj bytesLen

end Write

/-- The read of a kind. -/
def read (a : StaticByteArray) : Kind → Option Value × StaticByteArray
  | .int8 => (a.readInt8 host).map (some ∘ .int8) id
  | .uint8 => (a.readUint8 host).map (some ∘ .uint8) id
  | .int16 => (a.readInt16 host).map (some ∘ .int16) id
  | .uint16 => (a.readUint16 host).map (some ∘ .uint16) id
  | .int32 => (a.readInt32 host).map (some ∘ .int32) id
  | .uint32 => (a.readUint32 host).map (some ∘ .uint32) id
  | .float => (a.readFloat host).map (some ∘ .float) id
  | .int64 => (a.readInt64 host).map (some ∘ .int64) id
  | .uint64 => (a.readUint64 host).map (some ∘ .uint64) id
  | .double => (a.readDouble host).map (some ∘ .double) id
  | .string => (a.readString host).map (some ∘ .string) id
  | .object size => (a.readObject size).map (Option.map .object) id

/-- The write of a value. -/
def write (a : StaticByteArray) : Value → Option StaticByteArray
  | .int8 v => a.writeInt8 host v
  | .uint8 v => a.writeUint8 host v
  | .int16 v => a.writeInt16 host v
  | .uint16 v => a.writeUint16 host v
  | .int32 v => a.writeInt32 host v
  | .uint32 v => a.writeUint32 host v
  | .float bits => a.writeFloat host bits
  | .int64 v => a.writeInt64 host v
  | .uint64 v => a.writeUint64 host v
  | .double bits => a.writeDouble host bits
  | .string s => a.writeString host s
  | .object o => a.writeObject o o.length

/-- The writes of the values, each accepted: `none` as soon as one does not move the length on. -/
def writeAll : StaticByteArray → List Value → Option StaticByteArray
  | a, [] => some a
  | a, v :: vs =>
    match a.write host v with
    | none => none
    | some a' => if a.hasWriteLength < a'.hasWriteLength then writeAll a' vs else none

/-- The reads of the kinds, and what is left. -/
def readAll : StaticByteArray → List Kind → List (Option Value) × StaticByteArray
  | a, [] => ([], a)
  | a, k :: ks =>
    let (r, a) := a.read host k
    let (rs, a) := readAll a ks
    (r :: rs, a)

end StaticByteArray

end Elegance
