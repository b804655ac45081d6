import Mathlib.Data.List.DropRight
import Elegance.Packer
import Elegance.Lib.LengthPrefix

/-!
# The fixed-head format

What the packer is for: a stream is a sequence of packages, each with its length in front. `UnPack`
hands an empty package over only with the byte after it, so what it has handed over is the stream
decoded with `eager` false.
-/

namespace Elegance

open CInt LengthPrefix

variable (H : HostLayout)

/-- The four-byte header announces a body of at most `INT_MAX - 4` bytes. -/
def fixHead : Format Byte where
  head := netPackerFixheadHeaderLength
  head_pos := by decide
  len hd :=
    if 0 ≤ H.readInt hd ∧ H.readInt hd ≤ intMax - netPackerFixheadHeaderLength then
      some (H.readInt hd).toNat
    else none

/-- The packages in a stream, and the bytes after the last. -/
def decodeStream (s : List Byte) : List (List Byte) × List Byte :=
  (fixHead H).decode netPackerFixheadHeaderLength s

/-- The packages `UnPack` has handed over once it was fed `s`, and the bytes it still holds: a
package, also an empty one, takes at least one byte after its header. -/
def handedOver (s : List Byte) : List (List Byte) × List Byte :=
  (fixHead H).decode (netPackerFixheadHeaderLength + 1) s

/-- The longest package announced in `s`. -/
def longestPackage (s : List Byte) : ℕ :=
  (fixHead H).longest (netPackerFixheadHeaderLength + 1) s

/-- Every header completed in `s` announces a length in `0..INT_MAX-4`. -/
def Announced (s : List Byte) : Prop :=
  netPackerFixheadHeaderLength ≤ (handedOver H s).2.length →
    ((fixHead H).len ((handedOver H s).2.take netPackerFixheadHeaderLength)).isSome

instance (s : List Byte) : Decidable (Announced H s) :=
  inferInstanceAs (Decidable (_ → _))

/-- The empty package whose header ends `s`: complete, and handed over with the next byte. -/
def awaited (s : List Byte) : List (List Byte) :=
  if (fixHead H).next netPackerFixheadHeaderLength (handedOver H s).2 = none then [] else [[]]

/-- Past its first header outside `0..INT_MAX-4` the stream goes on for no byte if that header is
negative, and otherwise for no more bytes than a buffer of `cap` bytes, regrown for the packages
before it, has room for. -/
def Tame (cap : ℕ) (s : List Byte) : Prop :=
  netPackerFixheadHeaderLength ≤ (handedOver H s).2.length →
    let packageLength := H.readInt ((handedOver H s).2.take netPackerFixheadHeaderLength)
    (0 ≤ packageLength ∧ packageLength ≤ intMax - netPackerFixheadHeaderLength) ∨
    (packageLength < 0 ∧ (handedOver H s).2.length = netPackerFixheadHeaderLength) ∨
    (intMax - netPackerFixheadHeaderLength < packageLength ∧
      (handedOver H s).2.length ≤ max cap (netPackerFixheadHeaderLength + longestPackage H s))

/-- An entry after the bytes `s`: a buffer with room for the longest package, the bytes of the
unfinished package at its front and zeros beyond. Only an empty package waits with its header
complete and nothing to follow. -/
structure PartialFrame (c : CacheBuffer) (s : List Byte) : Prop where
  bufferSize : c.buffer.bufferSize = max 4 (4 + (longestPackage H s : ℤ))
  nonneg : 0 ≤ c.curReadSize
  fits : c.curReadSize ≤ c.buffer.bufferSize
  received : c.curReadSize ≤ s.length
  read : c.buffer.buffer.content.take c.curReadSize.toNat = s.rtake c.curReadSize.toNat
  zeros : c.buffer.buffer.content.drop c.curReadSize.toNat =
    List.replicate (c.buffer.bufferSize - c.curReadSize).toNat 0
  pending : 4 ≤ c.curReadSize → c.curReadSize < 4 + packageLength H c.buffer ∨
    packageLength H c.buffer = 0 ∧ c.curReadSize = 4

end Elegance
