import Elegance.QueueByteArray
import Elegance.StaticByteArray

/-!
# Behind the `ByteArray` interface

An object of one of the two classes, and the virtual calls on it. Either keeps the byte order it was
set to, which `StaticByteArray` never looks at: it stores numbers as the host does. As for
`QueueByteArray` the host is little-endian.
-/

namespace Elegance

open CInt Memory

inductive AnyByteArray where
  | queue (q : QueueByteArray)
  | static (curEndian : Endian) (a : StaticByteArray)

namespace AnyByteArray

/-- What the memory behind a number holds when it is converted. -/
abbrev Behind := AnyByteArray → List Byte

def setEndian (endian : Endian) : AnyByteArray → AnyByteArray
  | queue q => queue { q with endian }
  | static _ a => static endian a

def getEndian : AnyByteArray → Endian
  | queue q => q.endian
  | static curEndian _ => curEndian

def bytesAvailable : AnyByteArray → ℕ
  | queue q => q.bytesAvailable
  | static _ a => a.bytesAvailable

section Calls

def read (behind : Behind) (b : AnyByteArray) (k : Kind) : Option Value × AnyByteArray :=
  match b with
  | queue q => (q.read (behind b) k).map id queue
  | static curEndian a => (a.read .fwLittleEndian k).map id (static curEndian)

/-- `none` where a `memcpy` leaves the buffer. -/
def write (behind : Behind) (b : AnyByteArray) (v : Value) : Option AnyByteArray :=
  match b with
  | queue q => some (queue (q.write (behind b) v))
  | static curEndian a => (a.write .fwLittleEndian v).map (static curEndian)

def writeAll (behind : Behind) : AnyByteArray → List Value → Option AnyByteArray
  | b, [] => some b
  | b, v :: vs => do
    let b ← b.write behind v
    writeAll behind b vs

def readAll (behind : Behind) : AnyByteArray → List Kind → List (Option Value) × AnyByteArray
  | b, [] => ([], b)
  | b, k :: ks =>
    let (r, b) := b.read behind k
    let (rs, b) := readAll behind b ks
    (r :: rs, b)

/-- `none` for `nullptr`. -/
def readObject (b : AnyByteArray) (size : ℕ) : Option (List Byte) × AnyByteArray :=
  match b with
  | queue q => (q.readObject size).map id queue
  | static curEndian a => (a.readObject size).map id (static curEndian)

/-- The outer `none` where bytes behind the object are read, or a `memcpy` leaves the buffer. -/
def writeObject (b : AnyByteArray) (obj : Option (List Byte)) (bytesLen : ℤ) :
    Option AnyByteArray :=
  let data := obj.getD []
  match b with
  | queue q => if bytesLen > data.length then none else some (queue (q.writeObject data bytesLen))
  | static curEndian a => (a.writeObject data bytesLen).map (static curEndian)

/-- `ReadFromByteArray(other, bytesLen)` of either class: the object and the other afterwards. -/
def readFromByteArray (b other : AnyByteArray) (bytesLen : ℤ) :
    Option (AnyByteArray × AnyByteArray) :=
  match b with
  | queue _ =>
    let bytesLen :=
      if bytesLen = 0 ∨ other.bytesAvailable < (bytesLen % 4294967296).toNat then
        wrap32 other.bytesAvailable
      else bytesLen
    let (obj, other) := other.readObject (bytesLen % 4294967296).toNat
    (b.writeObject obj bytesLen).map fun b => (b, other)
  | static _ _ =>
    let readSize := (bytesLen % 4294967296).toNat
    if readSize = 0 ∨ readSize > other.bytesAvailable then some (b, other)
    else
      let (obj, other) := other.readObject readSize
      (b.writeObject obj (wrap32 readSize)).map fun b => (b, other)

end Calls

section Observed

/-- The value a read returns where it reads nothing: zero, the empty string or `nullptr`. -/
def nothing : Kind → Option Value
  | .int8 => some (.int8 0)
  | .uint8 => some (.uint8 0)
  | .int16 => some (.int16 0)
  | .uint16 => some (.uint16 0)
  | .int32 => some (.int32 0)
  | .uint32 => some (.uint32 0)
  | .float => some (.float 0)
  | .int64 => some (.int64 0)
  | .uint64 => some (.uint64 0)
  | .double => some (.double 0)
  | .string => some (.string [])
  | .object _ => none

/-- The bytes that can be read, first to last. -/
def unread : AnyByteArray → List Byte
  | queue q => q.bytesQueue
  | static _ a => a.unread

/-- The byte order numbers are read and written in. -/
def wire : AnyByteArray → Endian
  | queue q => q.endian
  | static _ _ => .fwLittleEndian

/-- The lengths of a `StaticByteArray` lie in its buffer, in their order. -/
def Valid : AnyByteArray → Prop
  | queue _ => True
  | static _ a => a.Bounded

/-- What is unread begins with the encoding of a value of the kind. -/
def HoldsItem (b : AnyByteArray) (k : Kind) : Prop :=
  ∃ (v : Value) (rest : List Byte), v.kind = k ∧ (∀ s, v = .string s → s.length ≤ ushrtMax) ∧
    b.unread = v.encode b.wire ++ rest

/-- The read returns nothing and takes nothing. -/
def Harmless (behind : Behind) (b : AnyByteArray) (k : Kind) : Prop :=
  (b.read behind k).1 = nothing k ∧ (b.read behind k).2.unread = b.unread

/-- There is nothing to take, or the read looks at all of the item before it takes any of it. -/
def TakesWhole (b : AnyByteArray) (k : Kind) : Prop :=
  b.unread = [] ∨
    match b with
    | queue _ => k = .string ∨ ∃ size, k = .object size
    | static _ a => k = .string → a.unread.length < stringLengthByteSize

/-- There is room for `n` bytes more. -/
def Fits (n : ℕ) : AnyByteArray → Prop
  | queue _ => True
  | static _ a => a.hasWriteLength + n ≤ maxMsgLength

/-- What was read before, where the object still holds it. -/
def readBefore : AnyByteArray → Option (List Byte)
  | queue _ => none
  | static _ a => some (load a.bufferCache 0 a.hasReadLength.toNat)

/-- Both are of one class and keep the same byte order. -/
def Alike : AnyByteArray → AnyByteArray → Prop
  | queue q, queue q' => q'.endian = q.endian
  | static curEndian _, static curEndian' _ => curEndian' = curEndian
  | _, _ => False

/-- The bytes are added at the end, and that is all. -/
structure Gets (bytes : List Byte) (b b' : AnyByteArray) : Prop where
  added : b'.unread = b.unread ++ bytes
  alike : b.Alike b'
  kept : b'.readBefore = b.readBefore
  valid : b'.Valid

/-- The first `n` bytes are read, and that is all. -/
structure Gives (n : ℕ) (b b' : AnyByteArray) : Prop where
  taken : b'.unread = b.unread.drop n
  alike : b.Alike b'
  kept : b'.readBefore = b.readBefore.map (· ++ b.unread.take n)
  valid : b'.Valid

/-- Some of the unread bytes of the other move to the end of this one, and that is all. -/
def Conserves (b other : AnyByteArray) (bytesLen : ℤ) : Prop :=
  ∃ b' other', b.readFromByteArray other bytesLen = some (b', other') ∧
    ∃ n ≤ other.unread.length, Gets (other.unread.take n) b b' ∧ Gives n other other'

/-- The receiver takes what the other has given: a `QueueByteArray` no more than an `int` counts, a
`StaticByteArray` no more than it has room for. -/
def Accepts (b other : AnyByteArray) (bytesLen : ℤ) : Prop :=
  match b with
  | queue _ => (0 < bytesLen ∧ bytesLen ≤ other.bytesAvailable) ∨ other.bytesAvailable ≤ intMax
  | static _ a => bytesLen = 0 ∨ other.bytesAvailable < bytesLen ∨
      a.hasWriteLength + bytesLen ≤ maxMsgLength

end Observed

end AnyByteArray

end Elegance
