import Elegance.MemoryPoolThreads
import Elegance.Proofs.MemoryPoolSizes

/-!
# Which calls give their locks back

A thread has the locks its call is between taking and giving back, and those that exceptions left it
with (`Inv`). The first lookup of `Free` returns with its lock when it finds nothing; the second one
always finds a pool, as a size is entered after its pool (`known_act`). So the locks are given back
as long as pointers that are freed have a size and no exception came before (`released_iff_careful`).
-/

namespace Elegance

open Machine

namespace MemoryPoolManager

variable {m : MemoryPoolManager}

/-- `Alloc` of one thread alone, step by step, is the whole call. -/
theorem tryAlloc_eq (m : MemoryPoolManager) (size : ℤ) (new : Option Addr) :
    m.tryAlloc size new =
      match m.tryTake size new with
      | (none, m) => (none, m)
      | (some mem, m) => (some mem, if mem = 0 then m else m.enter mem size) := by
  have halloc : ∀ base, m.alloc size base = ((m.takeFrom size base).1,
      if (m.takeFrom size base).1 = 0 then (m.takeFrom size base).2
      else (m.takeFrom size base).2.enter (m.takeFrom size base).1 size) := fun _ => rfl
  unfold tryAlloc tryTake
  rcases m.newSize size with _ | length
  · simp only [halloc]
  · dsimp only
    split_ifs
    · rfl
    · rcases new with _ | base
      · rfl
      · simp only [halloc]

/-- `Free` of one thread alone, step by step. -/
theorem free_eq (m : MemoryPoolManager) (memory : Addr) :
    m.free memory =
      match m.poolSize memory with
      | none => (false, m)
      | some size => (true, m.push memory size) := by
  unfold free poolSize push
  rcases m.memoryToSizeMap.find memory with _ | size
  · rfl
  dsimp only
  rcases hpool : m.memorySizeToPoolMap.find size with _ | pool
  · simp [Option.filter, hpool]
  · simp [Option.filter, hpool]

/-- Each size that is entered has its pool. -/
def Known (m : MemoryPoolManager) : Prop :=
  ∀ a size, m.memoryToSizeMap.find a = some size → (m.memorySizeToPoolMap.find size).isSome

/-- No entry of a map is lost. -/
structure Grows (m m' : MemoryPoolManager) : Prop where
  pools : ∀ size, (m.memorySizeToPoolMap.find size).isSome → (m'.memorySizeToPoolMap.find size).isSome
  sizes : ∀ a, (m.memoryToSizeMap.find a).isSome → (m'.memoryToSizeMap.find a).isSome

theorem Grows.refl (m : MemoryPoolManager) : m.Grows m := ⟨fun _ h => h, fun _ h => h⟩

theorem grows_set (m : MemoryPoolManager) (size : ℤ) (pool : MemoryPool) :
    m.Grows { m with memorySizeToPoolMap := m.memorySizeToPoolMap.set size pool } where
  pools k h := by
    rw [StdMap.find_set_eq]
    split_ifs
    · rfl
    · exact h
  sizes _ h := h

theorem grows_enter (m : MemoryPoolManager) (mem : Addr) (size : ℤ) :
    m.Grows (m.enter mem size) where
  pools _ h := h
  sizes a h := by
    rw [enter, StdMap.find_set_eq]
    split_ifs
    · rfl
    · exact h

theorem Known.set (h : m.Known) (size : ℤ) (pool : MemoryPool) :
    Known { m with memorySizeToPoolMap := m.memorySizeToPoolMap.set size pool } :=
  fun a k ha => (grows_set m size pool).pools k (h a k ha)

theorem Known.enter (h : m.Known) (mem : Addr) {size : ℤ}
    (hpool : (m.memorySizeToPoolMap.find (fixSize size)).isSome) : (m.enter mem size).Known := by
  intro a k ha
  rw [MemoryPoolManager.enter, StdMap.find_set_eq] at ha
  split_ifs at ha
  · exact Option.some.inj ha ▸ hpool
  · exact h a k ha

theorem Known.poolSize (h : m.Known) {memory : Addr}
    (hsize : (m.memoryToSizeMap.find memory).isSome) : (m.poolSize memory).isSome := by
  obtain ⟨size, hsize⟩ := Option.isSome_iff_exists.1 hsize
  simp [MemoryPoolManager.poolSize, hsize, Option.filter, h memory size hsize]

/-- A pool is taken from, or none is but it is there. -/
theorem tryTake_cases (m : MemoryPoolManager) (size : ℤ) (new : Option Addr) :
    ∃ pool, (m.tryTake size new).2 =
      { m with memorySizeToPoolMap := m.memorySizeToPoolMap.set (fixSize size) pool } := by
  unfold tryTake
  rcases m.newSize size with _ | length
  · exact ⟨_, rfl⟩
  · dsimp only
    split_ifs
    · exact ⟨_, rfl⟩
    · rcases new with _ | base
      · exact ⟨_, rfl⟩
      · exact ⟨_, rfl⟩

end MemoryPoolManager

/-- How often a thread has the lock after the operation. -/
def LockOp.after (op : LockOp) (l : PoolLock) (n : ℕ) : ℕ :=
  match op with
  | .keeps => n
  | .locks l' => if l = l' then n + 1 else n
  | .unlocks l' => if l = l' then n - 1 else n

namespace CallAt

open MemoryPoolManager

variable {m : MemoryPoolManager} {pos next : CallAt}

/-- How often the call has the lock before the step. -/
def count : CallAt → PoolLock → ℕ
  | takeFrom _ _, .memorySizeToPoolMapLock => 1
  | unlockPools _ _, .memorySizeToPoolMapLock => 1
  | freeFindPool _, .memorySizeToPoolMapLock => 1
  | freeUnlockPools _ _, .memorySizeToPoolMapLock => 1
  | enter _ _, .memoryToSizeMapLock => 1
  | unlockSizes _, .memoryToSizeMapLock => 1
  | freeFindSize _, .memoryToSizeMapLock => 1
  | freeUnlockSizes _, .memoryToSizeMapLock => 1
  | _, _ => 0

/-- It is a step of `Free`. -/
def InFree : CallAt → Prop
  | freeLockSizes _ | freeFindSize _ | freeUnlockSizes _ | freeLockPools _ | freeFindPool _
  | freeUnlockPools _ _ | freePush _ _ => True
  | _ => False

/-- What the call has found or put into the maps is still there. -/
def Knows (m : MemoryPoolManager) : CallAt → Prop
  | unlockPools size _ | lockSizes size _ | enter size _ =>
    (m.memorySizeToPoolMap.find (fixSize size)).isSome
  | freeUnlockSizes memory | freeLockPools memory | freeFindPool memory =>
    (m.memoryToSizeMap.find memory).isSome
  | _ => True

theorem count_ofCall (c : Call) (l : PoolLock) : (ofCall c).count l = 0 := by
  cases c <;> cases l <;> rfl

theorem knows_ofCall (c : Call) : (ofCall c).Knows m := by
  cases c <;> trivial

theorem Knows.grows {m' : MemoryPoolManager} (h : pos.Knows m) (hm : m.Grows m') : pos.Knows m' := by
  cases pos <;> first | trivial | exact hm.pools _ h | exact hm.sizes _ h

/-- The steps that go on, with the next one and the manager they leave. -/
inductive Goes (m : MemoryPoolManager) : CallAt → CallAt → MemoryPoolManager → Prop where
  | lockPools (size : ℤ) (new : Option Addr) : Goes m (lockPools size new) (takeFrom size new) m
  | takeFrom (size : ℤ) (new : Option Addr) (mem : Addr) :
      Goes m (takeFrom size new) (unlockPools size mem) (m.tryTake size new).2
  | unlockPools (size : ℤ) (mem : Addr) : Goes m (unlockPools size mem) (lockSizes size mem) m
  | lockSizes (size : ℤ) (mem : Addr) : Goes m (lockSizes size mem) (enter size mem) m
  | enter (size : ℤ) (mem : Addr) : Goes m (enter size mem) (unlockSizes mem) (m.enter mem size)
  | freeLockSizes (memory : Addr) : Goes m (freeLockSizes memory) (freeFindSize memory) m
  | freeFindSize (memory : Addr) (h : (m.memoryToSizeMap.find memory).isSome) :
      Goes m (freeFindSize memory) (freeUnlockSizes memory) m
  | freeUnlockSizes (memory : Addr) : Goes m (freeUnlockSizes memory) (freeLockPools memory) m
  | freeLockPools (memory : Addr) : Goes m (freeLockPools memory) (freeFindPool memory) m
  | freeFindPool (memory : Addr) (size : ℤ) :
      Goes m (freeFindPool memory) (freeUnlockPools memory size) m
  | freeUnlockPools (memory : Addr) (size : ℤ) :
      Goes m (freeUnlockPools memory size) (freePush memory size) m

theorem act_takeFrom (m : MemoryPoolManager) (size : ℤ) (new : Option Addr) :
    (takeFrom size new).act m = ((m.tryTake size new).2,
      (m.tryTake size new).1.elim .throws fun mem => .goes (unlockPools size mem)) := by
  rw [act]
  rcases m.tryTake size new with ⟨_ | mem, m'⟩ <;> rfl

theorem act_freeFindSize (m : MemoryPoolManager) (memory : Addr) :
    (freeFindSize memory).act m = (m, (m.memoryToSizeMap.find memory).elim
      (.returns (.freed false)) fun _ => .goes (freeUnlockSizes memory)) := by
  rw [act]
  rcases m.memoryToSizeMap.find memory with _ | size <;> rfl

theorem act_freeFindPool (m : MemoryPoolManager) (memory : Addr) :
    (freeFindPool memory).act m = (m, (m.poolSize memory).elim
      (.returns (.freed false)) fun size => .goes (freeUnlockPools memory size)) := by
  rw [act]
  rcases m.poolSize memory with _ | size <;> rfl

theorem goes_act (h : (pos.act m).2 = .goes next) : Goes m pos next (pos.act m).1 := by
  cases pos with
  | takeFrom size new =>
    rw [act_takeFrom] at h ⊢
    rcases htake : (m.tryTake size new).1 with _ | mem <;> rw [htake] at h <;> cases h
    exact .takeFrom size new mem
  | unlockPools size mem =>
    simp only [act] at h
    split_ifs at h
    cases h
    exact .unlockPools size mem
  | freeFindSize memory =>
    rw [act_freeFindSize] at h ⊢
    rcases hsize : m.memoryToSizeMap.find memory with _ | size <;> rw [hsize] at h <;> cases h
    exact .freeFindSize memory (by rw [hsize]; rfl)
  | freeFindPool memory =>
    rw [act_freeFindPool] at h ⊢
    rcases hsize : m.poolSize memory with _ | size <;> rw [hsize] at h <;> cases h
    exact .freeFindPool memory size
  | unlockSizes mem => cases h
  | freePush memory size => cases h
  | _ =>
    cases h
    constructor

/-- A step that goes on has the locks the next one counts on. -/
theorem after_goes (h : (pos.act m).2 = .goes next) (l : PoolLock) (n : ℕ) :
    pos.lockOp.after l (pos.count l + n) = next.count l + n := by
  have hgoes := goes_act h
  generalize (pos.act m).1 = m' at hgoes
  cases hgoes <;> cases l <;> simp [lockOp, LockOp.after, count, Nat.add_comm]

/-- A call returns from a last step with no lock, or where a lookup of `Free` finds nothing. -/
theorem returns_cases {result : PoolResult} (h : (pos.act m).2 = .returns result) :
    (pos.IsLast ∧ result ≠ .freed false ∧ ∀ l n, pos.lockOp.after l (pos.count l + n) = n) ∨
      (∃ memory, pos = freeFindSize memory ∧ m.memoryToSizeMap.find memory = none) ∨
      ∃ memory, pos = freeFindPool memory ∧ m.poolSize memory = none := by
  have hafter : ∀ {pos : CallAt} {l : PoolLock}, (∀ l', pos.count l' = if l' = l then 1 else 0) →
      pos.lockOp = .unlocks l → ∀ l' n, pos.lockOp.after l' (pos.count l' + n) = n := by
    intro pos l hcount hop l' n
    rw [hop, hcount]
    by_cases hl : l' = l <;> simp [LockOp.after, hl]
  cases pos with
  | takeFrom size new =>
    rw [act_takeFrom] at h
    rcases htake : (m.tryTake size new).1 with _ | mem <;> rw [htake] at h <;> cases h
  | unlockPools size mem =>
    simp only [act] at h
    split_ifs at h with hnull
    cases h
    exact .inl ⟨hnull, by simp, hafter (l := .memorySizeToPoolMapLock) (fun l => by cases l <;> rfl)
      rfl⟩
  | unlockSizes mem =>
    cases h
    exact .inl ⟨trivial, by simp, hafter (l := .memoryToSizeMapLock) (fun l => by cases l <;> rfl)
      rfl⟩
  | freePush memory size =>
    cases h
    exact .inl ⟨trivial, by simp, fun l n => by simp [lockOp, LockOp.after, count]⟩
  | freeFindSize memory =>
    rw [act_freeFindSize] at h
    rcases hsize : m.memoryToSizeMap.find memory with _ | size <;> rw [hsize] at h <;> cases h
    exact .inr (.inl ⟨memory, rfl, hsize⟩)
  | freeFindPool memory =>
    rw [act_freeFindPool] at h
    rcases hsize : m.poolSize memory with _ | size <;> rw [hsize] at h <;> cases h
    exact .inr (.inr ⟨memory, rfl, hsize⟩)
  | _ => cases h

theorem IsLast.returns (h : pos.IsLast) (m : MemoryPoolManager) :
    ∃ result, (pos.act m).2 = .returns result := by
  cases pos with
  | unlockPools size mem =>
    refine ⟨.memory mem, ?_⟩
    simp only [act]
    exact if_pos h
  | unlockSizes mem => exact ⟨_, rfl⟩
  | freePush memory size => exact ⟨_, rfl⟩
  | _ => cases h

theorem throws_cases (h : (pos.act m).2 = .throws) : ∃ size new, pos = takeFrom size new := by
  cases pos with
  | takeFrom size new => exact ⟨size, new, rfl⟩
  | unlockPools size mem =>
    simp only [act] at h
    split_ifs at h
  | freeFindSize memory =>
    rw [act_freeFindSize] at h
    rcases hsize : m.memoryToSizeMap.find memory with _ | size <;> rw [hsize] at h <;> cases h
  | freeFindPool memory =>
    rw [act_freeFindPool] at h
    rcases hsize : m.poolSize memory with _ | size <;> rw [hsize] at h <;> cases h
  | _ => cases h

/-- A step of `Free` before the last one changes nothing. -/
theorem inFree_goes (h : (pos.act m).2 = .goes next) (hnext : next.InFree) :
    pos.InFree ∧ (pos.act m).1 = m := by
  have hgoes := goes_act h
  generalize (pos.act m).1 = m' at hgoes
  cases hgoes <;> first | exact ⟨trivial, rfl⟩ | cases hnext

theorem grows_act (m : MemoryPoolManager) (pos : CallAt) : m.Grows (pos.act m).1 := by
  cases pos with
  | takeFrom size new =>
    obtain ⟨pool, htake⟩ := m.tryTake_cases size new
    rw [act_takeFrom, htake]
    exact grows_set m _ pool
  | enter size mem => exact grows_enter m mem size
  | freePush memory size =>
    show m.Grows (m.push memory size)
    unfold push
    split
    · exact .refl m
    · exact grows_set m _ _
  | freeFindSize memory =>
    rw [act_freeFindSize]
    exact .refl m
  | freeFindPool memory =>
    rw [act_freeFindPool]
    exact .refl m
  | _ => exact .refl m

theorem known_act (hm : m.Known) (h : pos.Knows m) : (pos.act m).1.Known := by
  cases pos with
  | takeFrom size new =>
    obtain ⟨pool, htake⟩ := m.tryTake_cases size new
    rw [act_takeFrom, htake]
    exact hm.set _ pool
  | enter size mem => exact hm.enter mem h
  | freePush memory size =>
    show (m.push memory size).Known
    unfold push
    split
    · exact hm
    · exact hm.set _ _
  | freeFindSize memory =>
    rw [act_freeFindSize]
    exact hm
  | freeFindPool memory =>
    rw [act_freeFindPool]
    exact hm
  | _ => exact hm

theorem knows_goes (h : pos.Knows m) (hgoes : (pos.act m).2 = .goes next) :
    next.Knows (pos.act m).1 := by
  have hgoes := goes_act hgoes
  generalize (pos.act m).1 = m' at hgoes
  cases hgoes with
  | takeFrom size new mem =>
    obtain ⟨pool, htake⟩ := m.tryTake_cases size new
    rw [htake, Knows]
    dsimp only
    rw [StdMap.find_set_eq, if_pos rfl]
    rfl
  | freeFindSize memory hsize => exact hsize
  | _ => first | exact h | trivial

end CallAt

namespace MemoryPoolThreads

variable {τ : Type*} [DecidableEq τ] {s : MemoryPoolThreads τ} {t u : τ} {r : Running}

theorem heldBy_lockAfter_self {op : LockOp} (h : s.Ready t op) (l : PoolLock) :
    (s.lockAfter t op l).heldBy t = op.after l ((s.lock l).heldBy t) := by
  cases op with
  | keeps => rfl
  | locks l' =>
    by_cases hl : l = l'
    · subst hl
      simp [lockAfter, LockOp.after, RecursiveMutex.heldBy_lock_self h]
    · simp [lockAfter, LockOp.after, hl]
  | unlocks l' =>
    by_cases hl : l = l'
    · subst hl
      simp [lockAfter, LockOp.after, RecursiveMutex.heldBy_unlock_self]
    · simp [lockAfter, LockOp.after, hl]

theorem heldBy_lockAfter_of_ne {op : LockOp} (h : s.Ready t op) (hne : u ≠ t) (l : PoolLock) :
    (s.lockAfter t op l).heldBy u = (s.lock l).heldBy u := by
  cases op with
  | keeps => rfl
  | locks l' =>
    by_cases hl : l = l'
    · subst hl
      simp [lockAfter, RecursiveMutex.heldBy_lock_of_ne h hne]
    · simp [lockAfter, hl]
  | unlocks l' =>
    by_cases hl : l = l'
    · subst hl
      simp [lockAfter, RecursiveMutex.heldBy_unlock_of_ne _ hne]
    · simp [lockAfter, hl]

/-- How often a thread has the lock for its call. -/
def inCall (s : MemoryPoolThreads τ) (t : τ) (l : PoolLock) : ℕ :=
  (s.running t).elim 0 fun r => r.next.count l

/-- How often exceptions left a thread with the lock. -/
def left (s : MemoryPoolThreads τ) (t : τ) : PoolLock → ℕ
  | .memoryToSizeMapLock => 0
  | .memorySizeToPoolMapLock => s.thrown t

/-- What holds of a call under way. -/
structure CallOk (s : MemoryPoolThreads τ) (t : τ) (r : Running) : Prop where
  found : ∀ l, r.found l = s.left t l
  steps : r.next.InFree → ∀ p ∈ r.steps, p.2 = p.1
  knows : r.next.Knows s.manager

omit [DecidableEq τ] in
theorem left_congr {s' : MemoryPoolThreads τ} (h : s'.thrown t = s.thrown t) (l : PoolLock) :
    s'.left t l = s.left t l := by
  cases l
  · rfl
  · exact h

omit [DecidableEq τ] in
theorem CallOk.congr {s' : MemoryPoolThreads τ} (h : s.CallOk t r)
    (hthrown : s'.thrown t = s.thrown t) (hgrows : s.manager.Grows s'.manager) :
    s'.CallOk t r where
  found l := (h.found l).trans (left_congr hthrown l).symm
  steps := h.steps
  knows := h.knows.grows hgrows

structure Inv (s : MemoryPoolThreads τ) : Prop where
  locks : ∀ t l, (s.lock l).heldBy t = s.inCall t l + s.left t l
  calls : ∀ t, ∀ r ∈ s.running t, s.CallOk t r
  known : s.manager.Known
  released : s.Released

theorem inv_start : Inv ({} : MemoryPoolThreads τ) where
  locks t l := by cases l <;> rfl
  calls t r hr := by cases hr
  known a size h := by simp at h
  released r hr := by cases hr

theorem Inv.call (h : Inv s) (hcan : s.running t = none) (c : MemoryPoolManager.Call) :
    Inv (s.step (.call t c)) where
  locks u l := by
    have hlocks := h.locks u l
    by_cases hu : u = t
    · subst hu
      simp only [inCall, hcan] at hlocks
      simpa [step, inCall, left, CallAt.count_ofCall] using hlocks
    · simpa [step, inCall, left, Function.update_of_ne hu] using hlocks
  calls u r hr := by
    by_cases hu : u = t
    · subst hu
      simp only [step, Function.update_self] at hr
      obtain rfl := Option.some.inj hr
      refine ⟨fun l => ?_, fun _ p hp => by simp at hp, CallAt.knows_ofCall c⟩
      have hlocks := h.locks u l
      simp only [inCall, hcan] at hlocks
      exact (hlocks.trans (zero_add _)).trans (left_congr rfl l).symm
    · simp only [step, Function.update_of_ne hu] at hr
      exact (h.calls u r hr).congr rfl (.refl _)
  known := h.known
  released := h.released

theorem Inv.heldBy_of_ne (h : Inv s) {op : LockOp} (hready : s.Ready t op) (hne : u ≠ t)
    (l : PoolLock) : (s.lockAfter t op l).heldBy u = s.inCall u l + s.left u l := by
  rw [heldBy_lockAfter_of_ne hready hne, h.locks]

/-- What is left of a call that returned. -/
theorem advance_returns {result : PoolResult}
    (hreturns : (r.next.act s.manager).2 = .returns result) :
    s.advance t r = { s with
      manager := (r.next.act s.manager).1
      lock := s.lockAfter t r.next.lockOp
      running := Function.update s.running t none
      returned := s.returned ++
        [{ result
           found := r.found
           holds := fun l => (s.lockAfter t r.next.lockOp l).heldBy t
           steps := r.steps ++ [(s.manager, (r.next.act s.manager).1)] }] } := by
  simp only [advance, hreturns]

/-- A call that returns with a lock. -/
theorem not_released_returns {result : PoolResult} {l : PoolLock}
    (hreturns : (r.next.act s.manager).2 = .returns result)
    (hheld : (s.lockAfter t r.next.lockOp l).heldBy t ≠ 0) : ¬ (s.advance t r).Released := by
  rw [advance_returns hreturns]
  exact fun h => hheld ((h _ (List.mem_append_right _ (List.mem_singleton_self _))).1 l)

section Advance

variable (hr : s.running t = some r) (hready : s.Ready t r.next.lockOp)

include hr hready

/-- The locks of the thread after its step, from what its call had. -/
theorem Inv.heldBy_self (h : Inv s) (l : PoolLock) :
    (s.lockAfter t r.next.lockOp l).heldBy t =
      r.next.lockOp.after l (r.next.count l + s.left t l) := by
  have hlocks := h.locks t l
  simp only [inCall, hr, Option.elim_some] at hlocks
  rw [heldBy_lockAfter_self hready, hlocks]

theorem Inv.goes (h : Inv s) {next : CallAt} (hgoes : (r.next.act s.manager).2 = .goes next) :
    Inv (s.advance t r) := by
  have hok := h.calls t r hr
  have hadvance : s.advance t r = { s with
      manager := (r.next.act s.manager).1
      lock := s.lockAfter t r.next.lockOp
      running := Function.update s.running t (some
        { next, found := r.found, steps := r.steps ++ [(s.manager, (r.next.act s.manager).1)] }) } := by
    simp only [advance, hgoes]
  rw [hadvance]
  constructor
  case locks =>
    intro u l
    by_cases hu : u = t
    · subst hu
      have hheld := h.heldBy_self hr hready l
      rw [CallAt.after_goes hgoes] at hheld
      simpa [inCall, left_congr (s := s)] using hheld
    · have hheld := h.heldBy_of_ne hready hu l
      simpa [inCall, Function.update_of_ne hu, left_congr (s := s)] using hheld
  case calls =>
    intro u r' hr'
    by_cases hu : u = t
    · subst hu
      simp only [Function.update_self] at hr'
      obtain rfl := Option.some.inj hr'
      refine ⟨fun l => ?_, fun hfree p hp => ?_, CallAt.knows_goes hok.knows hgoes⟩
      · exact (hok.found l).trans (left_congr rfl l).symm
      · obtain ⟨hpos, hsame⟩ := CallAt.inFree_goes hgoes hfree
        rcases List.mem_append.1 hp with hp | hp
        · exact hok.steps hpos p hp
        · obtain rfl := List.mem_singleton.1 hp
          exact hsame
    · simp only [Function.update_of_ne hu] at hr'
      exact (h.calls u r' hr').congr rfl (CallAt.grows_act _ _)
  case known => exact CallAt.known_act h.known hok.knows
  case released => exact h.released

/-- An exception leaves the thread with the lock of the pools. -/
theorem Inv.throws (h : Inv s) (hthrows : (r.next.act s.manager).2 = .throws) :
    Inv (s.advance t r) := by
  have hok := h.calls t r hr
  have hadvance : s.advance t r = { s with
      manager := (r.next.act s.manager).1
      lock := s.lockAfter t r.next.lockOp
      running := Function.update s.running t none
      thrown := Function.update s.thrown t (s.thrown t + 1) } := by
    simp only [advance, hthrows]
  rw [hadvance]
  constructor
  case locks =>
    intro u l
    by_cases hu : u = t
    · subst hu
      have hheld := h.heldBy_self hr hready l
      obtain ⟨size, new, hpos⟩ := CallAt.throws_cases hthrows
      rw [hpos] at hheld
      rw [hpos]
      cases l <;> simp_all [inCall, left, CallAt.count, CallAt.lockOp, LockOp.after, Nat.add_comm]
    · have hheld := h.heldBy_of_ne hready hu l
      have hleft : left { s with
          manager := (r.next.act s.manager).1
          lock := s.lockAfter t r.next.lockOp
          running := Function.update s.running t none
          thrown := Function.update s.thrown t (s.thrown t + 1) } u l = s.left u l :=
        left_congr (Function.update_of_ne hu _ _) l
      simpa [inCall, Function.update_of_ne hu, hleft] using hheld
  case calls =>
    intro u r' hr'
    by_cases hu : u = t
    · subst hu
      simp at hr'
    · simp only [Function.update_of_ne hu] at hr'
      exact (h.calls u r' hr').congr (Function.update_of_ne hu _ _) (CallAt.grows_act _ _)
  case known => exact CallAt.known_act h.known hok.knows
  case released => exact h.released

/-- A call that returns from a last step, in a thread that has no lock left. -/
theorem Inv.returns (h : Inv s) {result : PoolResult}
    (hreturns : (r.next.act s.manager).2 = .returns result) (hresult : result ≠ .freed false)
    (hafter : ∀ l n, r.next.lockOp.after l (r.next.count l + n) = n) (hthrown : s.thrown t = 0) :
    Inv (s.advance t r) := by
  have hok := h.calls t r hr
  rw [advance_returns hreturns]
  constructor
  case locks =>
    intro u l
    by_cases hu : u = t
    · subst hu
      have hheld := h.heldBy_self hr hready l
      rw [hafter] at hheld
      simpa [inCall, left_congr (s := s)] using hheld
    · have hheld := h.heldBy_of_ne hready hu l
      simpa [inCall, Function.update_of_ne hu, left_congr (s := s)] using hheld
  case calls =>
    intro u r' hr'
    by_cases hu : u = t
    · subst hu
      simp at hr'
    · simp only [Function.update_of_ne hu] at hr'
      exact (h.calls u r' hr').congr rfl (CallAt.grows_act _ _)
  case known => exact CallAt.known_act h.known hok.knows
  case released =>
    intro entry hentry
    rcases List.mem_append.1 hentry with hentry | hentry
    · exact h.released entry hentry
    · obtain rfl := List.mem_singleton.1 hentry
      refine ⟨fun l => ?_, fun hfalse => absurd hfalse hresult⟩
      have hheld := h.heldBy_self hr hready l
      rw [hafter] at hheld
      cases l
      · exact hheld
      · exact hheld.trans hthrown

end Advance

theorem step_run (hr : s.running t = some r) : s.step (.run t) = s.advance t r := by
  simp only [step, hr]

theorem inv_step (h : Inv s) {ev : MemoryPoolEvent τ} (hcan : s.Can ev) (hcareful : s.Careful ev) :
    Inv (s.step ev) := by
  cases ev with
  | call t c => exact h.call hcan c
  | run t =>
    obtain ⟨r, hr, hready⟩ := hcan
    obtain ⟨hfinds, hlast⟩ := hcareful r hr
    rw [step_run hr]
    cases hact : (r.next.act s.manager).2 with
    | goes next => exact h.goes hr hready hact
    | throws => exact h.throws hr hready hact
    | returns result =>
      rcases CallAt.returns_cases hact with ⟨hpos, hresult, hafter⟩ | ⟨memory, hpos, hnone⟩ |
        ⟨memory, hpos, hnone⟩
      · exact h.returns hr hready hact hresult hafter (hlast hpos)
      · have hsome := hfinds memory hpos
        rw [hnone] at hsome
        cases hsome
      · have hknows := (h.calls t r hr).knows
        rw [hpos] at hknows
        have hsome := h.known.poolSize hknows
        rw [hnone] at hsome
        cases hsome

/-- Any other step returns with a lock. -/
theorem Inv.not_released_step (h : Inv s) {ev : MemoryPoolEvent τ} (hcan : s.Can ev)
    (hcareful : ¬ s.Careful ev) : ¬ (s.step ev).Released := by
  cases ev with
  | call t c => exact absurd trivial hcareful
  | run t =>
    obtain ⟨r, hr, hready⟩ := hcan
    have hbad : (∃ memory, r.next = .freeFindSize memory ∧
        s.manager.memoryToSizeMap.find memory = none) ∨ (r.next.IsLast ∧ s.thrown t ≠ 0) := by
      by_contra hgood
      rw [not_or] at hgood
      refine hcareful fun r' hr' => ?_
      obtain rfl : r = r' := Option.some.inj (hr.symm.trans hr')
      refine ⟨fun memory hpos => ?_, fun hlast => ?_⟩
      · rw [Option.isSome_iff_ne_none]
        exact fun hnone => hgood.1 ⟨memory, hpos, hnone⟩
      · by_contra hthrown
        exact hgood.2 ⟨hlast, hthrown⟩
    rw [step_run hr]
    rcases hbad with ⟨memory, hpos, hnone⟩ | ⟨hlast, hthrown⟩
    · have hreturns : (r.next.act s.manager).2 = .returns (.freed false) := by
        rw [hpos, CallAt.act_freeFindSize, hnone]
        rfl
      refine not_released_returns (l := .memoryToSizeMapLock) hreturns ?_
      rw [h.heldBy_self hr hready, hpos]
      exact Nat.one_ne_zero
    · obtain ⟨result, hreturns⟩ := hlast.returns s.manager
      refine not_released_returns (l := .memorySizeToPoolMapLock) hreturns ?_
      rw [h.heldBy_self hr hready]
      rcases CallAt.returns_cases hreturns with ⟨-, -, hafter⟩ | ⟨memory, hpos, -⟩ |
        ⟨memory, hpos, -⟩
      · rw [hafter]
        exact hthrown
      · rw [hpos] at hlast
        cases hlast
      · rw [hpos] at hlast
        cases hlast

/-- Every call that returned has given its locks back, and each `Free` that returned false has
changed nothing, exactly as long as what is freed is looked up with a size and no call returns in a
thread that an exception left with a lock. -/
theorem released_iff_careful (evs : List (MemoryPoolEvent τ)) (hcan : Along step Can {} evs) :
    (∀ pre, pre <+: evs → (exec step {} pre).Released) ↔ Along step Careful {} evs :=
  along_iff_forall_exec (fun _ h => h.released) (fun _ _ h hc hcareful => inv_step h hc hcareful)
    (fun _ _ h hc hcareful => h.not_released_step hc hcareful) inv_start hcan

/-- Two threads allocate and free, each step of the one between two steps of the other. -/
def twoThreads : List (MemoryPoolEvent ℕ) := List.flatten
  [[.call 0 (.alloc 1 (some 16)), .call 1 (.alloc 20 (some 4000))], List.replicate 3 (.run 0),
    (List.replicate 3 [.run 1, .run 0]).flatten, [.call 0 (.free 88)],
    List.replicate 3 (.run 1), [.call 1 (.free 4216)], List.replicate 3 (.run 0),
    (List.replicate 3 [.run 1, .run 0]).flatten, List.replicate 4 (.run 1), [.run 0]]

theorem released_iff_careful_two :
    (exec step ({} : MemoryPoolThreads ℕ) twoThreads).returned.map Returned.result =
      [.memory 88, .memory 4216, .freed true, .freed true] ∧
    ∀ pre, pre <+: twoThreads → (exec step ({} : MemoryPoolThreads ℕ) pre).Released :=
  ⟨by decide +kernel, (released_iff_careful twoThreads (by decide +kernel)).2 (by decide +kernel)⟩

/-- `Free` of a pointer that was never allocated returns false with a lock, for which any other
thread waits. -/
theorem not_released_unknown :
    Along step Can ({} : MemoryPoolThreads ℕ) [.call 0 (.free 5), .run 0, .run 0] ∧
      ¬ (exec step ({} : MemoryPoolThreads ℕ) [.call 0 (.free 5), .run 0, .run 0]).Released ∧
      ¬ ((exec step ({} : MemoryPoolThreads ℕ) [.call 0 (.free 5), .run 0, .run 0]).lock
        .memoryToSizeMapLock).Available 1 := by
  refine ⟨⟨rfl, ⟨_, rfl, trivial⟩, ⟨_, rfl, trivial⟩, trivial⟩, fun h => ?_, by decide⟩
  have hheld := (h _ (List.mem_singleton_self _)).1 .memoryToSizeMapLock
  revert hheld
  decide

end MemoryPoolThreads

end Elegance
