import Elegance.AnyByteArray
import Elegance.Lib.Run

/-!
# The buffer of a `StaticByteArray`

The operations one after another with any arguments, and every copy they make into the buffer or out
of it. Past a copy that leaves the buffer there is no state.
-/

namespace Elegance

open CInt

/-- A copy of `size` bytes into `buffer_cache_` or out of it. -/
structure BufferCopy where
  off : ℤ
  size : ℤ
  deriving DecidableEq, Repr

def BufferCopy.InBuffer (c : BufferCopy) : Prop :=
  0 ≤ c.size ∧ 0 ≤ c.off ∧ c.off + c.size ≤ maxMsgLength

instance (c : BufferCopy) : Decidable c.InBuffer :=
  inferInstanceAs (Decidable (_ ∧ _ ∧ _))

inductive StaticOp where
  | read (k : Kind)
  | write (v : Value)
  | writeObject (obj : List Byte) (bytesLen : ℤ)
  | readFromByteArray (other : AnyByteArray) (bytesLen : ℤ)
  | readFromItself (bytesLen : ℤ)
  | clear

/-- The arguments are values of their types, and an object has the bytes it is said to have. -/
def StaticOp.Given : StaticOp → Prop
  | .write (.object o) => (o.length : ℤ) ≤ intMax
  | .writeObject obj bytesLen => intMin ≤ bytesLen ∧ bytesLen ≤ intMax ∧ bytesLen ≤ obj.length
  | .readFromByteArray _ bytesLen | .readFromItself bytesLen =>
    intMin ≤ bytesLen ∧ bytesLen ≤ intMax
  | .read _ | .write _ | .clear => True

namespace StaticByteArray

variable (host : Endian) (a : StaticByteArray)

section Operations

/-- `Clear` without its `memset`: no read goes past `hasWriteLength`, so it is not seen. -/
def clear : StaticByteArray := { a with hasReadLength := 0, hasWriteLength := 0 }

/-- `ReadFromByteArray` of another array. -/
def readFromByteArray (other : AnyByteArray) (bytesLen : ℤ) : Option StaticByteArray :=
  let readSize := (bytesLen % 4294967296).toNat
  if readSize = 0 ∨ readSize > other.bytesAvailable then some a
  else a.writeObject ((other.readObject readSize).1.getD []) (wrap32 readSize)

/-- `ReadFromByteArray(this, bytesLen)`. -/
def readFromItself (bytesLen : ℤ) : Option StaticByteArray :=
  let readSize := (bytesLen % 4294967296).toNat
  if readSize = 0 ∨ readSize > a.bytesAvailable then some a
  else
    let (obj, a) := a.readObject readSize
    a.writeObject (obj.getD []) (wrap32 readSize)

def apply : StaticOp → Option StaticByteArray
  | .read k => some (a.read host k).2
  | .write v => a.write host v
  | .writeObject obj bytesLen => a.writeObject obj bytesLen
  | .readFromByteArray other bytesLen => a.readFromByteArray other bytesLen
  | .readFromItself bytesLen => a.readFromItself bytesLen
  | .clear => some a.clear

end Operations

section Copies

def readNumCopies (sizeofT : ℕ) : List BufferCopy :=
  if a.hasReadLength + sizeofT > a.hasWriteLength then [] else [⟨a.hasReadLength, sizeofT⟩]

def readStringCopies : List BufferCopy :=
  if a.hasWriteLength - a.hasReadLength < stringLengthByteSize then []
  else
    let (strLen, a') := a.readUint16 host
    a.readNumCopies 2 ++
      if strLen.toNat > a.hasWriteLength - a.hasReadLength - stringLengthByteSize then []
      else [⟨a'.hasReadLength, strLen.toNat⟩]

def readObjectCopies (size : ℕ) : List BufferCopy :=
  if size = 0 ∨ size > a.bytesAvailable then [] else [⟨a.hasReadLength, size⟩]

def readCopies : Kind → List BufferCopy
  | .string => a.readStringCopies host
  | .object size => a.readObjectCopies size
  | k => a.readNumCopies (k.width.getD 0)

def writeNumCopies (sizeofT : ℕ) : List BufferCopy :=
  if maxMsgLength < a.hasWriteLength + sizeofT then [] else [⟨a.hasWriteLength, sizeofT⟩]

def writeStringCopies (str : List Byte) : List BufferCopy :=
  let strLen := wrap32 str.length
  if maxMsgLength < wrap32 (wrap32 (a.hasWriteLength + strLen) + stringLengthByteSize) then []
  else a.writeNumCopies 2 ++ [⟨(a.writeUint16 host (.ofInt strLen)).hasWriteLength, strLen⟩]

def writeObjectCopies (bytesLen : ℤ) : List BufferCopy :=
  if wrap32 (a.hasWriteLength + bytesLen) > maxMsgLength then []
  else [⟨a.hasWriteLength, bytesLen⟩]

def writeCopies : Value → List BufferCopy
  | .string s => a.writeStringCopies host s
  | .object o => a.writeObjectCopies o.length
  | v => a.writeNumCopies (v.kind.width.getD 0)

def copies : StaticOp → List BufferCopy
  | .read k => a.readCopies host k
  | .write v => a.writeCopies host v
  | .writeObject _ bytesLen => a.writeObjectCopies bytesLen
  | .readFromByteArray other bytesLen =>
    let readSize := (bytesLen % 4294967296).toNat
    if readSize = 0 ∨ readSize > other.bytesAvailable then []
    else a.writeObjectCopies (wrap32 readSize)
  | .readFromItself bytesLen =>
    let readSize := (bytesLen % 4294967296).toNat
    if readSize = 0 ∨ readSize > a.bytesAvailable then []
    else a.readObjectCopies readSize ++ (a.readObject readSize).2.writeObjectCopies (wrap32 readSize)
  | .clear => []

end Copies

/-- The length is not negative, and its sum with the bytes written is that of two `int`s; or it is
that of a string of `2 ^ 32 - 1` bytes and the buffer is full. -/
def Countable : StaticOp → Prop
  | .write (.string s) =>
    (0 ≤ wrap32 s.length ∧ a.hasWriteLength + wrap32 s.length + stringLengthByteSize ≤ intMax) ∨
      (wrap32 s.length = -1 ∧ a.hasWriteLength = maxMsgLength)
  | .write (.object o) => a.hasWriteLength + o.length ≤ intMax
  | .writeObject _ bytesLen => 0 ≤ bytesLen ∧ a.hasWriteLength + bytesLen ≤ intMax
  | .readFromByteArray other bytesLen =>
    bytesLen = 0 ∨ other.bytesAvailable < (bytesLen % 4294967296).toNat ∨
      (0 ≤ bytesLen ∧ a.hasWriteLength + bytesLen ≤ intMax)
  | .read _ | .write _ | .readFromItself _ | .clear => True

instance : ∀ op, Decidable (a.Countable op)
  | .write (.string _) => inferInstanceAs (Decidable (_ ∧ _ ∨ _ ∧ _))
  | .write (.object _) => inferInstanceAs (Decidable (_ ≤ _))
  | .writeObject _ _ => inferInstanceAs (Decidable (_ ∧ _))
  | .readFromByteArray _ _ => inferInstanceAs (Decidable (_ ∨ _ ∨ _ ∧ _))
  | .read _ | .readFromItself _ | .clear | .write (.int8 _) | .write (.uint8 _) | .write (.int16 _)
  | .write (.uint16 _) | .write (.int32 _) | .write (.uint32 _) | .write (.float _)
  | .write (.int64 _) | .write (.uint64 _) | .write (.double _) => .isTrue trivial

end StaticByteArray

/-- The array after the operations, and all the copies they made. -/
structure StaticRun where
  array : Option StaticByteArray
  copies : List BufferCopy := []

namespace StaticRun

def step (host : Endian) (s : StaticRun) (op : StaticOp) : StaticRun :=
  match s.array with
  | none => s
  | some a => ⟨a.apply host op, s.copies ++ a.copies host op⟩

/-- The two lengths lie in the buffer, in their order, and so did every copy. -/
def InBounds (s : StaticRun) : Prop :=
  (∃ a, s.array = some a ∧ a.Bounded) ∧ ∀ c ∈ s.copies, c.InBuffer

/-- Whether the next operation is one whose length can be counted. -/
def Countable (s : StaticRun) (op : StaticOp) : Prop :=
  ∀ a, s.array = some a → a.Countable op

instance (s : StaticRun) (op : StaticOp) : Decidable (s.Countable op) :=
  match h : s.array with
  | none => .isTrue fun a ha => by simp [h] at ha
  | some a => decidable_of_iff (a.Countable op)
      ⟨fun hcount _ ha => Option.some.inj (h.symm.trans ha) ▸ hcount, fun hcount => hcount a h⟩

end StaticRun

end Elegance
