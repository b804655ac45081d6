import Elegance.ByteArray
import Elegance.Lib.Run

/-!
# `QueueByteArray`

Bytes are written at the back of a queue and read from its front; a wide integer is written and read
as its two halves, in the order of the bytes. The host is little-endian, with a `long` of 8 bytes.
-/

namespace Elegance

open CInt

structure QueueByteArray where
  endian : Endian := .fwLittleEndian
  bytesQueue : List Byte := []

def sizeofLong : ℕ := 8

def ushrtMax : ℕ := 65535

/-- `TransformType<T>` of a value in `memory`: a `T` read over it, whatever its own size. -/
def transformType (sizeofT : ℕ) (memory : List Byte) : ℕ := leNat (memory.take sizeofT)

namespace QueueByteArray

def bytesAvailable (q : QueueByteArray) : ℕ := q.bytesQueue.length % 4294967296

section Read

def readUint8 (q : QueueByteArray) : UInt8 × QueueByteArray :=
  match q.bytesQueue with
  | [] => (0, q)
  | tmp :: rest => (tmp, { q with bytesQueue := rest })

def readInt8 (q : QueueByteArray) : Int8 × QueueByteArray :=
  let (tmp, q) := q.readUint8
  (tmp.toInt8, q)

def readUint16 (q : QueueByteArray) : UInt16 × QueueByteArray :=
  let (left, q) := q.readUint8
  let (right, q) := q.readUint8
  (match q.endian with
    | .fwBigEndian => (left.toUInt16 <<< 8) + right.toUInt16
    | .fwLittleEndian => left.toUInt16 + (right.toUInt16 <<< 8), q)

def readInt16 (q : QueueByteArray) : Int16 × QueueByteArray :=
  let (value, q) := q.readUint16
  (value.toInt16, q)

def readUint32 (q : QueueByteArray) : UInt32 × QueueByteArray :=
  let (left, q) := q.readUint16
  let (right, q) := q.readUint16
  (match q.endian with
    | .fwBigEndian => (left.toUInt32 <<< 16) + right.toUInt32
    | .fwLittleEndian => left.toUInt32 + (right.toUInt32 <<< 16), q)

/-- The four bytes are read as a `long`, with what lies `behind` them. -/
def readInt32 (q : QueueByteArray) (behind : List Byte) : Int32 × QueueByteArray :=
  let (value, q) := q.readUint32
  let realValue := transformType sizeofLong (leBytes 4 value.toNat ++ behind)
  ((UInt32.ofNat realValue).toInt32, q)

def readFloat (q : QueueByteArray) : UInt32 × QueueByteArray :=
  let (value, q) := q.readUint32
  (UInt32.ofNat (transformType 4 (leBytes sizeofLong value.toNat)), q)

def readUint64 (q : QueueByteArray) : UInt64 × QueueByteArray :=
  let (rawLeft, q) := q.readUint32
  let (rawRight, q) := q.readUint32
  (match q.endian with
    | .fwBigEndian => (rawLeft.toUInt64 <<< 32) + rawRight.toUInt64
    | .fwLittleEndian => rawLeft.toUInt64 + (rawRight.toUInt64 <<< 32), q)

def readInt64 (q : QueueByteArray) : Int64 × QueueByteArray :=
  let (value, q) := q.readUint64
  (value.toInt64, q)

def readDouble (q : QueueByteArray) : UInt64 × QueueByteArray := q.readUint64

def readString (q : QueueByteArray) : List Byte × QueueByteArray :=
  match q.bytesQueue with
  | first :: second :: rest =>
    let len :=
      match q.endian with
      | .fwBigEndian => first.toNat * 256 + second.toNat
      | .fwLittleEndian => second.toNat * 256 + first.toNat
    if 2 + len > q.bytesQueue.length then ([], q)
    else (rest.take len, { q with bytesQueue := rest.drop len })
  | _ => ([], q)

/-- `none` for `nullptr`. -/
def readObject (q : QueueByteArray) (size : ℕ) : Option (List Byte) × QueueByteArray :=
  if size > q.bytesQueue.length then (none, q)
  else
    let size := if size = 0 then q.bytesQueue.length % 4294967296 else size
    (some (q.bytesQueue.take size), { q with bytesQueue := q.bytesQueue.drop size })

end Read

section Write

def writeUint8 (q : QueueByteArray) (value : UInt8) : QueueByteArray :=
  { q with bytesQueue := q.bytesQueue ++ [value] }

def writeInt8 (q : QueueByteArray) (value : Int8) : QueueByteArray :=
  q.writeUint8 value.toUInt8

def writeUint16 (q : QueueByteArray) (value : UInt16) : QueueByteArray :=
  match q.endian with
  | .fwBigEndian => (q.writeUint8 (value >>> 8).toUInt8).writeUint8 (value % 256).toUInt8
  | .fwLittleEndian => (q.writeUint8 (value % 256).toUInt8).writeUint8 (value >>> 8).toUInt8

def writeInt16 (q : QueueByteArray) (value : Int16) : QueueByteArray :=
  q.writeUint16 value.toUInt16

def writeUint32 (q : QueueByteArray) (value : UInt32) : QueueByteArray :=
  match q.endian with
  | .fwBigEndian =>
    (q.writeUint16 (value >>> 16).toUInt16).writeUint16 ((value <<< 16) >>> 16).toUInt16
  | .fwLittleEndian =>
    (q.writeUint16 ((value <<< 16) >>> 16).toUInt16).writeUint16 (value >>> 16).toUInt16

def writeInt32 (q : QueueByteArray) (value : Int32) : QueueByteArray :=
  q.writeUint32 value.toUInt32

/-- The four bytes are read as an `unsigned long`, with what lies `behind` them. -/
def writeFloat (q : QueueByteArray) (bits : UInt32) (behind : List Byte) : QueueByteArray :=
  q.writeUint32 (UInt32.ofNat (transformType sizeofLong (leBytes 4 bits.toNat ++ behind)))

def writeUint64 (q : QueueByteArray) (value : UInt64) : QueueByteArray :=
  match q.endian with
  | .fwBigEndian =>
    (q.writeUint32 (value >>> 32).toUInt32).writeUint32 ((value <<< 32) >>> 32).toUInt32
  | .fwLittleEndian =>
    (q.writeUint32 ((value <<< 32) >>> 32).toUInt32).writeUint32 (value >>> 32).toUInt32

def writeInt64 (q : QueueByteArray) (value : Int64) : QueueByteArray :=
  q.writeUint64 value.toUInt64

def writeDouble (q : QueueByteArray) (bits : UInt64) : QueueByteArray := q.writeUint64 bits

def writeString (q : QueueByteArray) (value : List Byte) : QueueByteArray :=
  if value.length > ushrtMax then q
  else
    let q := q.writeUint16 (UInt16.ofNat value.length)
    { q with bytesQueue := q.bytesQueue ++ value }

def writeObject (q : QueueByteArray) (obj : List Byte) (bytesLen : ℤ) : QueueByteArray :=
  if bytesLen ≤ 0 then q
  else { q with bytesQueue := q.bytesQueue ++ obj.take bytesLen.toNat }

end Write

/-- The read of a kind. -/
def read (q : QueueByteArray) (behind : List Byte) : Kind → Option Value × QueueByteArray
  | .int8 => q.readInt8.map (some ∘ .int8) id
  | .uint8 => q.readUint8.map (some ∘ .uint8) id
  | .int16 => q.readInt16.map (some ∘ .int16) id
  | .uint16 => q.readUint16.map (some ∘ .uint16) id
  | .int32 => (q.readInt32 behind).map (some ∘ .int32) id
  | .uint32 => q.readUint32.map (some ∘ .uint32) id
  | .float => q.readFloat.map (some ∘ .float) id
  | .int64 => q.readInt64.map (some ∘ .int64) id
  | .uint64 => q.readUint64.map (some ∘ .uint64) id
  | .double => q.readDouble.map (some ∘ .double) id
  | .string => q.readString.map (some ∘ .string) id
  | .object size => (q.readObject size).map (Option.map .object) id

/-- The write of a value. -/
def write (q : QueueByteArray) (behind : List Byte) : Value → QueueByteArray
  | .int8 v => q.writeInt8 v
  | .uint8 v => q.writeUint8 v
  | .int16 v => q.writeInt16 v
  | .uint16 v => q.writeUint16 v
  | .int32 v => q.writeInt32 v
  | .uint32 v => q.writeUint32 v
  | .float bits => q.writeFloat bits behind
  | .int64 v => q.writeInt64 v
  | .uint64 v => q.writeUint64 v
  | .double bits => q.writeDouble bits
  | .string s => q.writeString s
  | .object o => q.writeObject o o.length

end QueueByteArray

/-- A queue with the values written and not read yet, and what each read was to return and did. -/
structure QueueCalls where
  queue : QueueByteArray
  pending : List Value := []
  reads : List (Value × Option Value) := []

/-- `behind` is the memory behind the number that is converted. -/
inductive QueueEvent where
  | write (v : Value) (behind : List Byte)
  | read (behind : List Byte)

namespace QueueCalls

def start (endian : Endian) : QueueCalls where
  queue := { endian }

def step (w : QueueCalls) : QueueEvent → QueueCalls
  | .write v behind => { w with queue := w.queue.write behind v, pending := w.pending ++ [v] }
  | .read behind =>
    match w.pending with
    | [] => w
    | v :: pending =>
      let (r, queue) := w.queue.read behind v.kind
      { queue, pending, reads := w.reads ++ [(v, r)] }

/-- Strings have at most 65535 bytes, objects at least one and no more than an `int` counts, and a
read does not overtake the writes. -/
def Can (w : QueueCalls) : QueueEvent → Prop
  | .write (.string s) _ => s.length ≤ ushrtMax
  | .write (.object o) _ => 1 ≤ o.length ∧ (o.length : ℤ) ≤ intMax
  | .write _ _ => True
  | .read _ => w.pending ≠ []

end QueueCalls

end Elegance
