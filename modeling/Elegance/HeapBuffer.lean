import Elegance.FlexibleBuffer
import Elegance.Lib.Blocks
import Elegance.Lib.Memory
import Elegance.Lib.Run

/-!
# `FlexibleBuffer` on the heap

One `FlexibleBuffer` with the blocks it has had from `new char[]`, which is taken to succeed, and
how often each was deleted. `toFlexibleBuffer` forgets the blocks.
-/

namespace Elegance

open Blocks

structure HeapBuffer where
  heap : Heap := {}
  buffer : Option ℕ := none
  bufferSize : ℤ := 0
  deriving DecidableEq, Repr

namespace HeapBuffer

/-- `ChangeBufferSize(size)`; the new block is set to zeros before the old one is copied. -/
def changeBufferSize (b : HeapBuffer) (size : ℤ) : HeapBuffer :=
  if b.bufferSize = size then b
  else
    let minBufferSize := if size < b.bufferSize then size else b.bufferSize
    let oldBuffer := b.buffer
    let grown : HeapBuffer :=
      if 0 < size then
        let heap := b.heap.new (List.replicate size.toNat 0)
        { heap := if oldBuffer ≠ none then
            heap.write b.heap.next (heap.read oldBuffer minBufferSize.toNat) else heap
          buffer := b.heap.next
          bufferSize := size }
      else { b with bufferSize := size }
    { grown with heap := if oldBuffer ≠ none then grown.heap.delete oldBuffer else grown.heap }

/-- `SetBuffer(buff, length)`, with the memory from `buff` on. -/
def setBuffer (b : HeapBuffer) (buff : ℕ → Byte) (length : ℤ) : HeapBuffer :=
  if 0 ≥ length then b
  else
    let b := b.changeBufferSize length
    { b with heap := b.heap.write b.buffer (Memory.load buff 0 length.toNat) }

def zeroAllBytes (b : HeapBuffer) : HeapBuffer :=
  if b.buffer = none ∨ b.bufferSize ≤ 0 then b
  else { b with heap := b.heap.write b.buffer (List.replicate b.bufferSize.toNat 0) }

/-- `~FlexibleBuffer()`. -/
def destroy (b : HeapBuffer) : HeapBuffer := b.changeBufferSize 0

inductive Call where
  | changeBufferSize (size : ℕ)
  | setBuffer (buff : ℕ → Byte) (length : ℤ)
  | zeroAllBytes

def step (b : HeapBuffer) : Call → HeapBuffer
  | .changeBufferSize size => b.changeBufferSize size
  | .setBuffer buff length => b.setBuffer buff length
  | .zeroAllBytes => b.zeroAllBytes

/-- The bytes that may be read through `buffer`. -/
def content (b : HeapBuffer) : List Byte := b.heap.read b.buffer b.bufferSize.toNat

def toFlexibleBuffer (b : HeapBuffer) : FlexibleBuffer where
  buffer :=
    match b.buffer with
    | none => .null
    | some p =>
      match b.heap.blocks[p]? with
      | some ⟨bytes, 0⟩ => .bytes bytes
      | _ => .dangling
  bufferSize := b.bufferSize

/-- `buffer` is null, or a live block of just `buffer_size` bytes. -/
def Owned (b : HeapBuffer) : Prop :=
  ∀ p ∈ b.buffer, ∃ bytes, b.heap.Holds p bytes ∧ (bytes.length : ℤ) = b.bufferSize

/-- `ChangeBufferSize` keeps what there is room for, and zeros follow. -/
def Keeps (b : HeapBuffer) : Call → Prop
  | .changeBufferSize size => (b.changeBufferSize size).content =
      b.content.take (min b.bufferSize.toNat size) ++
        List.replicate (size - min b.bufferSize.toNat size) 0
  | _ => True

/-- The calls keep the buffer owned and its bytes, and after the destructor every block was deleted
once. -/
def Sound (calls : List Call) : Prop :=
  (∀ pre, pre <+: calls → (Machine.exec step {} pre).Owned) ∧
    Machine.Along step Keeps {} calls ∧
    (Machine.exec step {} calls).destroy.heap.DeletedBut ∅

/-- A buffer that has bytes is not shrunk to none. -/
def Careful (b : HeapBuffer) : Call → Prop
  | .changeBufferSize size => size = 0 → b.bufferSize = 0
  | _ => True

end HeapBuffer

end Elegance
