import Elegance.QueueByteArray
import Elegance.Socket
import Elegance.Lib.CInt
import Elegance.Lib.Run
import Elegance.Lib.Slots
import Elegance.Lib.StdMap

/-!
# `MemoryPoolManager`

A pool for each rounded size, which asks `new` for a chunk when it has no free buffer, and the size
of each buffer that was ever given out. `base` is what `new` returns if it is called.
-/

namespace Elegance

open CInt

def memoryPoolDefaultIncreaseAllocNum : ℤ := 10

structure MemoryPool where
  itemLen : ℤ
  increaseNum : ℤ := memoryPoolDefaultIncreaseAllocNum
  freeBuffers : List Addr := []
  realBufferPtrs : List Addr := []

namespace MemoryPool

/-- The buffers of a chunk, whose offsets `i * item_len_` are `int`s. One that
would lie below address 0 is null here, which `MemoryPoolManager::Alloc` does not enter. -/
def cut (p : MemoryPool) (base : Addr) : List Addr :=
  (List.range p.increaseNum.toNat).map fun i : ℕ => (base + wrap32 (i * p.itemLen)).toNat

/-- A chunk is cut into buffers, the last of them on top. -/
def increase (p : MemoryPool) (base : Addr) : MemoryPool :=
  { p with
    realBufferPtrs := p.realBufferPtrs ++ [base]
    freeBuffers := (p.cut base).reverse ++ p.freeBuffers }

/-- The buffer on top; `increase_num_` is positive, so there is one. -/
def alloc (p : MemoryPool) (base : Addr) : Addr × MemoryPool :=
  let p := if p.freeBuffers = [] then p.increase base else p
  (p.freeBuffers.headD 0, { p with freeBuffers := p.freeBuffers.tail })

def free (p : MemoryPool) (memory : Addr) : MemoryPool :=
  { p with freeBuffers := memory :: p.freeBuffers }

end MemoryPool

structure MemoryPoolManager where
  memoryToSizeMap : StdMap Addr ℤ := .empty
  memorySizeToPoolMap : StdMap ℤ MemoryPool := .empty

namespace MemoryPoolManager

def fixSize (size : ℤ) : ℤ :=
  let align : ℤ := sizeofLong
  wrap32 (wrap32 (size + align) - size.tmod align)

/-- The pool of a size, a new one if there is none. -/
def poolOf (m : MemoryPoolManager) (fixSize : ℤ) : MemoryPool :=
  (m.memorySizeToPoolMap.find fixSize).getD { itemLen := fixSize }

def alloc (m : MemoryPoolManager) (size : ℤ) (base : Addr) : Addr × MemoryPoolManager :=
  let (mem, pool) := (m.poolOf (fixSize size)).alloc base
  let m := { m with memorySizeToPoolMap := m.memorySizeToPoolMap.set (fixSize size) pool }
  (mem, if mem = 0 then m
    else { m with memoryToSizeMap := m.memoryToSizeMap.set mem (fixSize size) })

/-- What `Alloc` asks `new` for, if it does. -/
def newSize (m : MemoryPoolManager) (size : ℤ) : Option ℤ :=
  let pool := m.poolOf (fixSize size)
  if pool.freeBuffers = [] then some (wrap32 (pool.increaseNum * pool.itemLen)) else none

/-- What `Free` returns; where that is `false` a lock is not given back. -/
def free (m : MemoryPoolManager) (memory : Addr) : Bool × MemoryPoolManager :=
  match m.memoryToSizeMap.find memory with
  | none => (false, m)
  | some size =>
    match m.memorySizeToPoolMap.find size with
    | none => (false, m)
    | some pool =>
      (true, { m with memorySizeToPoolMap := m.memorySizeToPoolMap.set size (pool.free memory) })

end MemoryPoolManager

/-- A buffer given out for `size` bytes. -/
structure MemoryBlock where
  addr : Addr
  size : ℤ
  deriving DecidableEq, Repr

/-- The bytes that may be used in it. -/
def MemoryBlock.span (b : MemoryBlock) : Span :=
  ⟨b.addr, (MemoryPoolManager.fixSize b.size).toNat⟩

/-- The manager with the chunks `new` returned and the buffers given out and not freed. -/
structure MemoryUse where
  manager : MemoryPoolManager := {}
  news : List Span := []
  live : List MemoryBlock := []

inductive MemoryEvent where
  | alloc (size : ℤ) (base : Addr)
  | free (b : MemoryBlock)

namespace MemoryUse

open MemoryPoolManager

def step (s : MemoryUse) : MemoryEvent → MemoryUse
  | .alloc size base =>
    let (mem, manager) := s.manager.alloc size base
    let news := match s.manager.newSize size with
      | some n => ⟨base, n.toNat⟩ :: s.news
      | none => s.news
    { manager, news, live := ⟨mem, size⟩ :: s.live }
  | .free b =>
    { s with manager := (s.manager.free b.addr).2, live := s.live.erase b }

/-- Sizes are positive and not too large, `new` returns memory that it has not returned, and what is
freed is in use. -/
def Can (s : MemoryUse) : MemoryEvent → Prop
  | .alloc size base =>
    0 < size ∧
      memoryPoolDefaultIncreaseAllocNum * (size + sizeofLong - size % sizeofLong) ≤ intMax ∧
      ∀ n, s.manager.newSize size = some n →
        base ≠ 0 ∧ ∀ c ∈ s.news, c.Apart ⟨base, n.toNat⟩
  | .free b => b ∈ s.live

instance (s : MemoryUse) : ∀ ev, Decidable (s.Can ev)
  | .alloc _ _ => inferInstanceAs (Decidable (_ ∧ _ ∧ ∀ n, s.manager.newSize _ = some n → _))
  | .free _ => inferInstanceAs (Decidable (_ ∈ _))

/-- The addresses in use of a rounded size. -/
def liveOf (s : MemoryUse) (fix : ℤ) : List Addr :=
  (s.live.filter fun b => fixSize b.size = fix).map MemoryBlock.addr

/-- The blocks in use do not overlap, hold what was asked for, and lie in one chunk each, and in
every pool each buffer of a chunk is either free or in use. -/
structure Sound (s : MemoryUse) : Prop where
  disjoint : s.live.Pairwise fun b c => b.span.Apart c.span
  enough : ∀ b ∈ s.live, b.size ≤ b.span.size
  placed : ∀ b ∈ s.live, ∃ c ∈ s.news, b.span.Within c ∧ sizeofLong ∣ b.addr - c.base
  balanced : ∀ fix p, s.manager.memorySizeToPoolMap.find fix = some p →
    p.freeBuffers.length + (s.liveOf fix).length = p.increaseNum * p.realBufferPtrs.length

/-- A block that is freed is put on the pool of its own rounded size, and nowhere else. -/
def GivesBack (s : MemoryUse) : MemoryEvent → Prop
  | .alloc _ _ => True
  | .free b => (s.manager.free b.addr).1 = true ∧
      ∃ p, s.manager.memorySizeToPoolMap.find (fixSize b.size) = some p ∧
        ∀ fix, (s.manager.free b.addr).2.memorySizeToPoolMap.find fix =
          if fix = fixSize b.size then some (p.free b.addr)
          else s.manager.memorySizeToPoolMap.find fix

end MemoryUse

end Elegance
