import Elegance.MemoryPool

/-!
# The sizes of `MemoryPoolManager`

`Alloc` as it is called from outside: `new` may throw, for want of memory or for a negative length,
and then the pool it was called for has no buffer. `new` is the address it returns if it returns.
-/

namespace Elegance

open CInt

namespace MemoryPool

/-- The length a chunk of the pool is asked for with. -/
def newLength (p : MemoryPool) : ℤ := wrap32 (p.increaseNum * p.itemLen)

/-- The bytes from `mem` on lie in a chunk of the pool. -/
def HasRoom (p : MemoryPool) (mem : Addr) (size : ℤ) : Prop :=
  ∃ c ∈ p.realBufferPtrs, Span.Within ⟨mem, size.toNat⟩ ⟨c, p.newLength.toNat⟩

end MemoryPool

namespace MemoryPoolManager

/-- The pool of the size is in the map before it allocates. -/
def withPool (m : MemoryPoolManager) (size : ℤ) : MemoryPoolManager :=
  { m with
    memorySizeToPoolMap := m.memorySizeToPoolMap.set (fixSize size) (m.poolOf (fixSize size)) }

/-- `Alloc(size)`, with nothing for an exception. -/
def tryAlloc (m : MemoryPoolManager) (size : ℤ) (new : Option Addr) :
    Option Addr × MemoryPoolManager :=
  match m.newSize size with
  | none => (some (m.alloc size 0).1, (m.alloc size 0).2)
  | some length =>
    if length < 0 then (none, m.withPool size)
    else
      match new with
      | none => (none, m.withPool size)
      | some base => (some (m.alloc size base).1, (m.alloc size base).2)

inductive Call where
  | alloc (size : ℤ) (new : Option Addr)
  | free (memory : Addr)
  deriving DecidableEq, Repr

def step (m : MemoryPoolManager) : Call → MemoryPoolManager
  | .alloc size new => (m.tryAlloc size new).2
  | .free memory => (m.free memory).2

/-- `new` returns memory that no chunk has. -/
def Can (m : MemoryPoolManager) : Call → Prop
  | .alloc size new => ∀ base ∈ new, ∀ length ∈ m.newSize size, base ≠ 0 ∧
      ∀ fix p, m.memorySizeToPoolMap.find fix = some p → ∀ c ∈ p.realBufferPtrs,
        Span.Apart ⟨c, p.newLength.toNat⟩ ⟨base, length.toNat⟩
  | .free _ => True

/-- If `Alloc(size)` returns a pointer, there are `size` bytes from it on in a chunk of its pool. -/
def Placed (m : MemoryPoolManager) (size : ℤ) (new : Option Addr) : Prop :=
  ∀ mem ∈ (m.tryAlloc size new).1, ∃ p,
    (m.tryAlloc size new).2.memorySizeToPoolMap.find (fixSize size) = some p ∧ p.HasRoom mem size

/-- The size with its padding, in unbounded numbers. -/
def roundSize (size : ℤ) : ℤ := size + sizeofLong - size % sizeofLong

/-- Ten buffers of the rounded size have an `int` length, or one that wraps to a negative number, for
which `new` throws. -/
def SizeFits (size : ℤ) : Prop :=
  memoryPoolDefaultIncreaseAllocNum * roundSize size ≤ intMax ∨
    wrap32 (memoryPoolDefaultIncreaseAllocNum * roundSize size) < 0

instance (size : ℤ) : Decidable (SizeFits size) := inferInstanceAs (Decidable (_ ∨ _))

end MemoryPoolManager

end Elegance
