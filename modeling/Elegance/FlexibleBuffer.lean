import Elegance.Lib.CInt

/-!
# `FlexibleBuffer`

A growable block of bytes, as `memory/flexible_buffer.hpp` keeps it.
-/

namespace Elegance

abbrev Byte := UInt8

/-- What `char *buffer` points to: nothing, a block from `new char[]`, or one since deleted. -/
inductive Block where
  | null
  | bytes (bs : List Byte)
  | dangling
  deriving DecidableEq, Repr

/-- The bytes that may be read through the pointer. -/
def Block.content : Block → List Byte
  | .bytes bs => bs
  | _ => []

/-- `memcpy(buffer + off, src, src.size())`. -/
def Block.write (b : Block) (off : ℕ) (src : List Byte) : Block :=
  match b with
  | .bytes bs => .bytes (bs.take off ++ src ++ bs.drop (off + src.length))
  | b => b

structure FlexibleBuffer where
  buffer : Block := .null
  bufferSize : ℤ := 0
  deriving DecidableEq, Repr

namespace FlexibleBuffer

def changeBufferSize (b : FlexibleBuffer) (size : ℤ) : FlexibleBuffer :=
  if b.bufferSize = size then b
  else
    let minBufferSize := if size < b.bufferSize then size else b.bufferSize
    if 0 < size then
      { buffer := (Block.bytes (List.replicate size.toNat 0)).write 0
          (b.buffer.content.take minBufferSize.toNat)
        bufferSize := size }
    else
      { buffer := if b.buffer = .null then .null else .dangling
        bufferSize := size }

def zeroAllBytes (b : FlexibleBuffer) : FlexibleBuffer :=
  if b.buffer = .null ∨ b.bufferSize ≤ 0 then b
  else { b with buffer := b.buffer.write 0 (List.replicate b.bufferSize.toNat 0) }

end FlexibleBuffer

end Elegance
