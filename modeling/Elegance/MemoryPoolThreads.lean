import Elegance.MemoryPoolSizes
import Elegance.Lib.RecursiveMutex

/-!
# The locks of `MemoryPoolManager`

`Alloc` and `Free` of any number of threads, in their steps from one lock to the next. A call that
returns leaves an entry: what it returned, how often its thread had each lock when it was called and
has it now, and the manager before and after each of its steps. An exception of `new` ends a call
without one; the maps and the stacks of free buffers get the memory they need.
-/

namespace Elegance

namespace MemoryPoolManager

/-- What `Alloc` does under `memory_size_to_pool_map_lock_`. -/
def takeFrom (m : MemoryPoolManager) (size : ℤ) (base : Addr) : Addr × MemoryPoolManager :=
  let (mem, pool) := (m.poolOf (fixSize size)).alloc base
  (mem, { m with memorySizeToPoolMap := m.memorySizeToPoolMap.set (fixSize size) pool })

/-- The same, with nothing for an exception. -/
def tryTake (m : MemoryPoolManager) (size : ℤ) (new : Option Addr) :
    Option Addr × MemoryPoolManager :=
  match m.newSize size with
  | none => (some (m.takeFrom size 0).1, (m.takeFrom size 0).2)
  | some length =>
    if length < 0 then (none, m.withPool size)
    else
      match new with
      | none => (none, m.withPool size)
      | some base => (some (m.takeFrom size base).1, (m.takeFrom size base).2)

/-- What it does under `memory_to_size_map_lock_`. -/
def enter (m : MemoryPoolManager) (mem : Addr) (size : ℤ) : MemoryPoolManager :=
  { m with memoryToSizeMap := m.memoryToSizeMap.set mem (fixSize size) }

/-- The last line of `Free`, for the pool of the size. -/
def push (m : MemoryPoolManager) (memory : Addr) (size : ℤ) : MemoryPoolManager :=
  match m.memorySizeToPoolMap.find size with
  | none => m
  | some pool =>
    { m with memorySizeToPoolMap := m.memorySizeToPoolMap.set size (pool.free memory) }

/-- The size and the pool `Free` looks up under `memory_size_to_pool_map_lock_`. -/
def poolSize (m : MemoryPoolManager) (memory : Addr) : Option ℤ :=
  (m.memoryToSizeMap.find memory).filter fun size => (m.memorySizeToPoolMap.find size).isSome

end MemoryPoolManager

inductive PoolLock where
  | memoryToSizeMapLock
  | memorySizeToPoolMapLock
  deriving DecidableEq, Repr

inductive LockOp where
  | keeps
  | locks (lock : PoolLock)
  | unlocks (lock : PoolLock)
  deriving DecidableEq, Repr

inductive PoolResult where
  | memory (mem : Addr)
  | freed (ok : Bool)
  deriving DecidableEq, Repr

/-- The next step of a call. -/
inductive CallAt where
  | lockPools (size : ℤ) (new : Option Addr)
  | takeFrom (size : ℤ) (new : Option Addr)
  | unlockPools (size : ℤ) (mem : Addr)
  | lockSizes (size : ℤ) (mem : Addr)
  | enter (size : ℤ) (mem : Addr)
  | unlockSizes (mem : Addr)
  | freeLockSizes (memory : Addr)
  | freeFindSize (memory : Addr)
  | freeUnlockSizes (memory : Addr)
  | freeLockPools (memory : Addr)
  | freeFindPool (memory : Addr)
  | freeUnlockPools (memory : Addr) (size : ℤ)
  | freePush (memory : Addr) (size : ℤ)
  deriving DecidableEq, Repr

/-- What comes after a step. -/
inductive AfterStep where
  | goes (next : CallAt)
  | returns (result : PoolResult)
  | throws
  deriving DecidableEq, Repr

namespace CallAt

open MemoryPoolManager

/-- What the step does to the locks. -/
def lockOp : CallAt → LockOp
  | lockPools _ _ | freeLockPools _ => .locks .memorySizeToPoolMapLock
  | unlockPools _ _ | freeUnlockPools _ _ => .unlocks .memorySizeToPoolMapLock
  | lockSizes _ _ | freeLockSizes _ => .locks .memoryToSizeMapLock
  | unlockSizes _ | freeUnlockSizes _ => .unlocks .memoryToSizeMapLock
  | takeFrom _ _ | enter _ _ | freeFindSize _ | freeFindPool _ | freePush _ _ => .keeps

/-- What the step does to the manager, and what comes after it. -/
def act (m : MemoryPoolManager) : CallAt → MemoryPoolManager × AfterStep
  | lockPools size new => (m, .goes (takeFrom size new))
  | takeFrom size new =>
    match m.tryTake size new with
    | (none, m) => (m, .throws)
    | (some mem, m) => (m, .goes (unlockPools size mem))
  | unlockPools size mem => (m, if mem = 0 then .returns (.memory mem) else .goes (lockSizes size mem))
  | lockSizes size mem => (m, .goes (enter size mem))
  | enter size mem => (m.enter mem size, .goes (unlockSizes mem))
  | unlockSizes mem => (m, .returns (.memory mem))
  | freeLockSizes memory => (m, .goes (freeFindSize memory))
  | freeFindSize memory =>
    match m.memoryToSizeMap.find memory with
    | none => (m, .returns (.freed false))
    | some _ => (m, .goes (freeUnlockSizes memory))
  | freeUnlockSizes memory => (m, .goes (freeLockPools memory))
  | freeLockPools memory => (m, .goes (freeFindPool memory))
  | freeFindPool memory =>
    match m.poolSize memory with
    | none => (m, .returns (.freed false))
    | some size => (m, .goes (freeUnlockPools memory size))
  | freeUnlockPools memory size => (m, .goes (freePush memory size))
  | freePush memory size => (m.push memory size, .returns (.freed true))

/-- The first step of a call. -/
def ofCall : Call → CallAt
  | .alloc size new => lockPools size new
  | .free memory => freeLockSizes memory

/-- The call returns from this step, whatever its lookups find. -/
def IsLast : CallAt → Prop
  | unlockPools _ mem => mem = 0
  | unlockSizes _ | freePush _ _ => True
  | _ => False

instance : ∀ pos : CallAt, Decidable pos.IsLast
  | unlockPools _ _ => inferInstanceAs (Decidable (_ = _))
  | unlockSizes _ | freePush _ _ => .isTrue trivial
  | lockPools _ _ | takeFrom _ _ | lockSizes _ _ | enter _ _ | freeLockSizes _ | freeFindSize _
  | freeUnlockSizes _ | freeLockPools _ | freeFindPool _ | freeUnlockPools _ _ => .isFalse nofun

instance (p : Addr → Prop) [DecidablePred p] :
    ∀ pos : CallAt, Decidable (∀ memory, pos = freeFindSize memory → p memory)
  | freeFindSize memory =>
    decidable_of_iff (p memory) ⟨fun h _ heq => freeFindSize.inj heq ▸ h, fun h => h memory rfl⟩
  | lockPools _ _ | takeFrom _ _ | unlockPools _ _ | lockSizes _ _ | enter _ _ | unlockSizes _
  | freeLockSizes _ | freeUnlockSizes _ | freeLockPools _ | freeFindPool _ | freeUnlockPools _ _
  | freePush _ _ => .isTrue nofun

end CallAt

/-- A call under way. -/
structure Running where
  next : CallAt
  /-- How often the thread had each lock when it was called. -/
  found : PoolLock → ℕ
  /-- The manager before and after each step so far. -/
  steps : List (MemoryPoolManager × MemoryPoolManager) := []

/-- A call that returned. -/
structure Returned where
  result : PoolResult
  found : PoolLock → ℕ
  /-- How often the thread has each lock. -/
  holds : PoolLock → ℕ
  steps : List (MemoryPoolManager × MemoryPoolManager)

structure MemoryPoolThreads (τ : Type*) where
  manager : MemoryPoolManager := {}
  lock : PoolLock → RecursiveMutex τ := fun _ => .free
  running : τ → Option Running := fun _ => none
  /-- How often an exception left an `Alloc` of the thread. -/
  thrown : τ → ℕ := fun _ => 0
  returned : List Returned := []

inductive MemoryPoolEvent (τ : Type*) where
  | call (thread : τ) (call : MemoryPoolManager.Call)
  /-- The next step of the thread's call. -/
  | run (thread : τ)
  deriving DecidableEq, Repr

namespace MemoryPoolThreads

variable {τ : Type*} [DecidableEq τ]

/-- The locks after a thread's step. -/
def lockAfter (s : MemoryPoolThreads τ) (thread : τ) : LockOp → PoolLock → RecursiveMutex τ
  | .keeps => s.lock
  | .locks l => Function.update s.lock l ((s.lock l).lock thread)
  | .unlocks l => Function.update s.lock l ((s.lock l).unlock thread)

/-- The next step of a call. -/
def advance (s : MemoryPoolThreads τ) (thread : τ) (r : Running) : MemoryPoolThreads τ :=
  let lock := s.lockAfter thread r.next.lockOp
  let manager := (r.next.act s.manager).1
  let steps := r.steps ++ [(s.manager, manager)]
  match (r.next.act s.manager).2 with
  | .goes next =>
    { s with
      manager, lock
      running := Function.update s.running thread (some { next, found := r.found, steps }) }
  | .returns result =>
    { s with
      manager, lock
      running := Function.update s.running thread none
      returned := s.returned ++
        [{ result, found := r.found, holds := fun l => (lock l).heldBy thread, steps }] }
  | .throws =>
    { s with
      manager, lock
      running := Function.update s.running thread none
      thrown := Function.update s.thrown thread (s.thrown thread + 1) }

def step (s : MemoryPoolThreads τ) : MemoryPoolEvent τ → MemoryPoolThreads τ
  | .call thread call =>
    { s with
      running := Function.update s.running thread
        (some { next := .ofCall call, found := fun l => (s.lock l).heldBy thread }) }
  | .run thread =>
    match s.running thread with
    | none => s
    | some r => s.advance thread r

/-- The thread need not wait for a lock the step takes. -/
def Ready (s : MemoryPoolThreads τ) (thread : τ) : LockOp → Prop
  | .locks l => (s.lock l).Available thread
  | _ => True

/-- A thread is in one call at a time, and does not go on while it waits for a lock. -/
def Can (s : MemoryPoolThreads τ) : MemoryPoolEvent τ → Prop
  | .call thread _ => s.running thread = none
  | .run thread => ∃ r ∈ s.running thread, s.Ready thread r.next.lockOp

/-- Every call that returned has no lock left, and a `Free` that returned false changed nothing. -/
def Released (s : MemoryPoolThreads τ) : Prop :=
  ∀ r ∈ s.returned, (∀ l, r.holds l = 0) ∧
    (r.result = .freed false → r.holds = r.found ∧ ∀ p ∈ r.steps, p.2 = p.1)

/-- A pointer that is looked up has a size, and no call returns in a thread that an exception left
with a lock. -/
def Careful (s : MemoryPoolThreads τ) : MemoryPoolEvent τ → Prop
  | .call _ _ => True
  | .run thread => ∀ r ∈ s.running thread,
      (∀ memory, r.next = .freeFindSize memory →
        (s.manager.memoryToSizeMap.find memory).isSome) ∧
      (r.next.IsLast → s.thrown thread = 0)

instance (s : MemoryPoolThreads τ) (thread : τ) : ∀ op, Decidable (s.Ready thread op)
  | .locks _ => inferInstanceAs (Decidable (RecursiveMutex.Available _ _))
  | .keeps | .unlocks _ => .isTrue trivial

instance (s : MemoryPoolThreads τ) : ∀ ev, Decidable (s.Can ev)
  | .call _ _ => inferInstanceAs (Decidable (_ = none))
  | .run thread => inferInstanceAs (Decidable (∃ r ∈ s.running thread, s.Ready thread _))

instance (s : MemoryPoolThreads τ) : ∀ ev, Decidable (s.Careful ev)
  | .call _ _ => .isTrue trivial
  | .run thread => inferInstanceAs (Decidable (∀ r ∈ s.running thread,
      (∀ memory, Running.next r = .freeFindSize memory → Option.isSome _ = true) ∧ (_ → _)))

end MemoryPoolThreads

end Elegance
