import Elegance.SerializeManager
import Elegance.Lib.Memory

/-!
# What `OnRecvPackage` reads and writes

The offsets from `data` on that `SerializeNetworkManager::OnRecvPackage` reads of a package, in a
memory that does not end with it, and the indices of `serialize_name` it writes to. The base class's
`OnRecvPackage`, which comes first, is left out.
-/

namespace Elegance

open CInt StdString

structure Accesses where
  reads : List ℕ := []
  writes : List ℕ := []
  deriving DecidableEq, Repr

/-- Only bytes of the package are read, and only `serialize_name` is written to. -/
def Accesses.InBounds (a : Accesses) (length : ℤ) : Prop :=
  (∀ offset ∈ a.reads, (offset : ℤ) < length) ∧
    ∀ index ∈ a.writes, (index : ℤ) < serializeClassNameMaxLen

namespace SerializeNetworkManager

variable (H : HostLayout) (declared : List GeneratedClass)

/-- `*s_name_len`. -/
def nameLen (memory : ℕ → Byte) : ℤ := H.readShort (Memory.load memory 0 sizeofShort)

/-- `serialize_name`, as far as its NUL. -/
def serializeName (memory : ℕ → Byte) : List Byte :=
  cString (Memory.load memory sizeofShort (nameLen H memory).toNat ++ [0])

/-- What is copied into the `QueueByteArray`, from `data + length - serialize_len` on. -/
def objectReads (memory : ℕ → Byte) (length : ℤ) : List ℕ :=
  match findClass declared (serializeName H memory) with
  | none => []
  | some _ =>
    let serializeLen := wrap32 (length - sizeofShort - nameLen H memory)
    if serializeLen < 0 then []
    else List.range' (length - serializeLen).toNat serializeLen.toNat

def accesses (memory : ℕ → Byte) (length : ℤ) : Accesses :=
  let len := nameLen H memory
  if len ≤ 0 ∨ len ≥ serializeClassNameMaxLen then { reads := List.range sizeofShort }
  else
    { reads := List.range sizeofShort ++ List.range' sizeofShort len.toNat ++
        objectReads H declared memory length
      writes := List.range len.toNat ++ [len.toNat] }

/-- The package has the length of the name, and the name if it is of a length that is copied. -/
def HasName (memory : ℕ → Byte) (length : ℤ) : Prop :=
  sizeofShort ≤ length ∧
    (0 < nameLen H memory → nameLen H memory < serializeClassNameMaxLen →
      sizeofShort + nameLen H memory ≤ length)

end SerializeNetworkManager

end Elegance
