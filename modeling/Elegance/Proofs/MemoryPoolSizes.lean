import Elegance.MemoryPoolSizes
import Elegance.Proofs.MemoryPool

/-!
# Which sizes `MemoryPoolManager` has room for

A pool whose chunks have an `int` length gives out slots of them, and one whose length is negative
gives out nothing (`kept_step`). Any other length wraps to fewer bytes than ten buffers have, and
some buffer of the first chunk has a negative offset, which the allocations come to (`exists_before`).
-/

namespace Elegance

open CInt Machine

namespace MemoryPool

variable {fix : ℤ} {p : MemoryPool} {a base : Addr}

/-- A pool of buffers of `fix` bytes, each in one of its chunks. -/
structure Roomy (fix : ℤ) (p : MemoryPool) : Prop where
  item_len : p.itemLen = fix
  increase_num : p.increaseNum = memoryPoolDefaultIncreaseAllocNum
  free : ∀ a ∈ p.freeBuffers, p.HasRoom a fix

theorem HasRoom.increase (h : p.HasRoom a fix) (base : Addr) : (p.increase base).HasRoom a fix := by
  obtain ⟨c, hc, hwithin⟩ := h
  exact ⟨c, List.mem_append_left _ hc, hwithin⟩

theorem Roomy.increase (h : Roomy fix p) (hpos : 0 < fix)
    (hle : memoryPoolDefaultIncreaseAllocNum * fix ≤ intMax) (base : Addr) :
    Roomy fix (p.increase base) where
  item_len := h.item_len
  increase_num := h.increase_num
  free a ha := by
    rcases List.mem_append.1 ha with ha | ha
    · rw [List.mem_reverse, cut_eq_slots h.increase_num (h.item_len ▸ hpos) (h.item_len ▸ hle),
        h.item_len] at ha
      refine ⟨base, List.mem_append_right _ (List.mem_singleton_self base), ?_⟩
      have hlength : (p.increase base).newLength.toNat = 10 * fix.toNat := by
        have hmin : intMin ≤ memoryPoolDefaultIncreaseAllocNum * fix := by
          rw [memoryPoolDefaultIncreaseAllocNum, intMin]
          omega
        show (wrap32 (p.increaseNum * p.itemLen)).toNat = _
        rw [h.increase_num, h.item_len, wrap32_of_range hmin hle, memoryPoolDefaultIncreaseAllocNum]
        omega
      rw [hlength]
      exact slot_within ha
    · exact (h.free a ha).increase base

/-- What is given out, and what is still there, has room in the chunks. -/
theorem Roomy.alloc (h : Roomy fix p) (base : Addr) (hincrease : p.freeBuffers = [] →
      0 < fix ∧ memoryPoolDefaultIncreaseAllocNum * fix ≤ intMax) :
    Roomy fix (p.alloc base).2 ∧ (p.alloc base).2.HasRoom (p.alloc base).1 fix ∧
      ∀ a, p.HasRoom a fix → (p.alloc base).2.HasRoom a fix := by
  have hpop : ∀ {q : MemoryPool}, Roomy fix q → q.freeBuffers ≠ [] →
      Roomy fix { q with freeBuffers := q.freeBuffers.tail } ∧
        q.HasRoom (q.freeBuffers.headD 0) fix := by
    intro q hq hne
    obtain ⟨a, rest, hfree⟩ := List.exists_cons_of_ne_nil hne
    refine ⟨⟨hq.item_len, hq.increase_num, fun b hb => ?_⟩, ?_⟩
    · exact hq.free b (List.mem_of_mem_tail hb)
    · refine hq.free _ ?_
      rw [hfree]
      exact List.mem_cons_self
  unfold MemoryPool.alloc
  by_cases hempty : p.freeBuffers = []
  · obtain ⟨hpos, hle⟩ := hincrease hempty
    have hne : (p.increase base).freeBuffers ≠ [] := by
      simp [MemoryPool.increase, cut, h.increase_num, memoryPoolDefaultIncreaseAllocNum]
    simp only [if_pos hempty]
    obtain ⟨hroomy, hroom⟩ := hpop (h.increase hpos hle base) hne
    exact ⟨hroomy, hroom, fun a ha => ha.increase base⟩
  · simp only [if_neg hempty]
    obtain ⟨hroomy, hroom⟩ := hpop h hempty
    exact ⟨hroomy, hroom, fun a ha => ha⟩

end MemoryPool

namespace MemoryPoolManager

open MemoryPool

variable {m : MemoryPoolManager} {fix size : ℤ}

theorem find_withPool (m : MemoryPoolManager) (size k : ℤ) :
    (m.withPool size).memorySizeToPoolMap.find k =
      if k = fixSize size then some (m.poolOf (fixSize size)) else m.memorySizeToPoolMap.find k :=
  StdMap.find_set_eq _ _ _ _

theorem find_alloc (m : MemoryPoolManager) (size : ℤ) (base : Addr) (k : ℤ) :
    (m.alloc size base).2.memorySizeToPoolMap.find k =
      if k = fixSize size then some ((m.poolOf (fixSize size)).alloc base).2
      else m.memorySizeToPoolMap.find k := by
  have hpools : (m.alloc size base).2.memorySizeToPoolMap =
      m.memorySizeToPoolMap.set (fixSize size) ((m.poolOf (fixSize size)).alloc base).2 := by
    simp only [alloc]
    split_ifs <;> rfl
  rw [hpools]
  exact StdMap.find_set_eq _ _ _ _

theorem find_memoryToSizeMap_alloc {base a : Addr} {k : ℤ}
    (h : (m.alloc size base).2.memoryToSizeMap.find a = some k) :
    (a = (m.alloc size base).1 ∧ k = fixSize size) ∨ m.memoryToSizeMap.find a = some k := by
  simp only [alloc] at h ⊢
  split_ifs at h with hnull
  · exact .inr h
  · rw [StdMap.find_set_eq] at h
    split_ifs at h with ha
    · exact .inl ⟨ha, (Option.some.inj h).symm⟩
    · exact .inr h

/-- `Alloc` throws, or returns what it returns with the memory of `new`. -/
theorem tryAlloc_cases (m : MemoryPoolManager) (size : ℤ) (new : Option Addr) :
    m.tryAlloc size new = (none, m.withPool size) ∨
      ∃ base, m.tryAlloc size new = (some (m.alloc size base).1, (m.alloc size base).2) ∧
        ∀ length ∈ m.newSize size, 0 ≤ length := by
  unfold tryAlloc
  rcases m.newSize size with _ | length
  · exact .inr ⟨0, rfl, by simp⟩
  · dsimp only
    split_ifs with hneg
    · exact .inl rfl
    · rcases new with _ | base
      · exact .inl rfl
      · exact .inr ⟨base, rfl, by simpa using hneg⟩

/-- A pool of this size has chunks it cuts right, or none. -/
def GoodSize (fix : ℤ) : Prop :=
  0 < fix ∧ memoryPoolDefaultIncreaseAllocNum * fix ≤ intMax ∨
    wrap32 (memoryPoolDefaultIncreaseAllocNum * fix) < 0

/-- The addresses of the size, free or not, have room in the chunks of its pool. -/
structure Kept (fix : ℤ) (m : MemoryPoolManager) : Prop where
  pools : ∀ p, m.memorySizeToPoolMap.find fix = some p → Roomy fix p
  sizes : ∀ a, m.memoryToSizeMap.find a = some fix →
    ∃ p, m.memorySizeToPoolMap.find fix = some p ∧ p.HasRoom a fix

theorem kept_start (fix : ℤ) : Kept fix {} := by
  constructor <;> simp

theorem Kept.poolOf (h : Kept fix m) : Roomy fix (m.poolOf fix) := by
  rw [MemoryPoolManager.poolOf]
  rcases hfind : m.memorySizeToPoolMap.find fix with _ | p
  · exact ⟨rfl, rfl, by simp⟩
  · exact h.pools p hfind

/-- Where there is a pool, it is the one. -/
theorem poolOf_of_find {p : MemoryPool} (h : m.memorySizeToPoolMap.find fix = some p) :
    m.poolOf fix = p := by
  rw [poolOf, h, Option.getD_some]

theorem Kept.withPool (h : Kept fix m) (size : ℤ) : Kept fix (m.withPool size) where
  pools p hp := by
    rw [find_withPool] at hp
    split_ifs at hp with hfix
    · rw [← Option.some.inj hp, ← hfix]
      exact h.poolOf
    · exact h.pools p hp
  sizes a ha := by
    obtain ⟨p, hp, hroom⟩ := h.sizes a ha
    refine ⟨p, ?_, hroom⟩
    rw [find_withPool]
    split_ifs with hfix
    · rw [← hfix, poolOf_of_find hp]
    · exact hp

/-- The pool `Alloc` takes from, where its size is the one. -/
theorem Kept.alloc_pool (h : Kept fix m) (hgood : GoodSize fix) (hfix : fixSize size = fix)
    (hlength : ∀ length ∈ m.newSize size, 0 ≤ length) (base : Addr) :
    Roomy fix ((m.poolOf fix).alloc base).2 ∧
      ((m.poolOf fix).alloc base).2.HasRoom ((m.poolOf fix).alloc base).1 fix ∧
      ∀ a, (m.poolOf fix).HasRoom a fix → ((m.poolOf fix).alloc base).2.HasRoom a fix := by
  refine h.poolOf.alloc base fun hempty => hgood.resolve_right fun hneg => ?_
  have hsize : m.newSize size = some (wrap32 (memoryPoolDefaultIncreaseAllocNum * fix)) := by
    rw [newSize, hfix]
    simp only [if_pos hempty, h.poolOf.increase_num, h.poolOf.item_len]
  exact absurd (hlength _ hsize) (not_le.2 hneg)

theorem Kept.alloc (h : Kept fix m) (hgood : GoodSize fix) {base : Addr}
    (hlength : ∀ length ∈ m.newSize size, 0 ≤ length) : Kept fix (m.alloc size base).2 := by
  by_cases hfix : fixSize size = fix
  · obtain ⟨hroomy, hroom, hkeep⟩ := h.alloc_pool hgood hfix hlength base
    have hfind : (m.alloc size base).2.memorySizeToPoolMap.find fix =
        some ((m.poolOf fix).alloc base).2 := by
      rw [find_alloc, hfix, if_pos rfl]
    constructor
    · intro p hp
      rw [hfind] at hp
      exact Option.some.inj hp ▸ hroomy
    · intro a ha
      refine ⟨_, hfind, ?_⟩
      rcases find_memoryToSizeMap_alloc ha with ⟨rfl, -⟩ | hold
      · have hmem : (m.alloc size base).1 = ((m.poolOf fix).alloc base).1 := by
          rw [MemoryPoolManager.alloc, hfix]
        rw [hmem]
        exact hroom
      · obtain ⟨p, hp, hroom'⟩ := h.sizes a hold
        rw [← poolOf_of_find hp] at hroom'
        exact hkeep a hroom'
  · have hfind : (m.alloc size base).2.memorySizeToPoolMap.find fix =
        m.memorySizeToPoolMap.find fix := by
      rw [find_alloc, if_neg (Ne.symm hfix)]
    constructor
    · intro p hp
      rw [hfind] at hp
      exact h.pools p hp
    · intro a ha
      rw [hfind]
      rcases find_memoryToSizeMap_alloc ha with ⟨-, heq⟩ | hold
      · exact absurd heq.symm hfix
      · exact h.sizes a hold

/-- `Free` changes nothing, or gives the address to the pool it has the size of. -/
theorem free_cases (m : MemoryPoolManager) (memory : Addr) :
    m.free memory = (false, m) ∨ ∃ k p, m.memoryToSizeMap.find memory = some k ∧
      m.memorySizeToPoolMap.find k = some p ∧ m.free memory = (true, { m with
        memorySizeToPoolMap := m.memorySizeToPoolMap.set k (p.free memory) }) := by
  unfold MemoryPoolManager.free
  rcases m.memoryToSizeMap.find memory with _ | k
  · exact .inl rfl
  dsimp only
  rcases hpool : m.memorySizeToPoolMap.find k with _ | p
  · exact .inl rfl
  · exact .inr ⟨k, p, rfl, hpool, rfl⟩

theorem Kept.free (h : Kept fix m) (memory : Addr) : Kept fix (m.free memory).2 := by
  rcases m.free_cases memory with hfree | ⟨k, p, hsize, hpool, hfree⟩
  · rw [hfree]
    exact h
  rw [hfree]
  dsimp only
  constructor
  · intro q hq
    rw [StdMap.find_set_eq] at hq
    split_ifs at hq with hk
    · subst hk
      obtain ⟨p', hp', hroom⟩ := h.sizes memory hsize
      obtain rfl : p = p' := Option.some.inj (hpool.symm.trans hp')
      have hp := h.pools p hpool
      rw [← Option.some.inj hq]
      refine ⟨hp.item_len, hp.increase_num, fun a ha => ?_⟩
      rcases List.mem_cons.1 ha with rfl | ha
      · exact hroom
      · exact hp.free a ha
    · exact h.pools q hq
  · intro a ha
    obtain ⟨q, hq, hroom⟩ := h.sizes a ha
    rw [StdMap.find_set_eq]
    split_ifs with hk
    · subst hk
      obtain rfl : p = q := Option.some.inj (hpool.symm.trans hq)
      exact ⟨_, rfl, hroom⟩
    · exact ⟨q, hq, hroom⟩

theorem kept_step (hgood : GoodSize fix) (h : Kept fix m) (c : Call) : Kept fix (m.step c) := by
  cases c with
  | alloc size new =>
    rcases m.tryAlloc_cases size new with hthrow | ⟨base, halloc, hlength⟩
    · rw [step, hthrow]
      exact h.withPool size
    · rw [step, halloc]
      exact h.alloc hgood hlength
  | free memory => exact h.free memory

section Sizes

theorem fixSize_eq (hpos : 0 < size) : fixSize size = wrap32 (roundSize size) := by
  rw [fixSize, wrap32_sub, Int.tmod_eq_emod_of_nonneg hpos.le, roundSize]

theorem roundSize_bounds (hle : size ≤ intMax) :
    size < roundSize size ∧ roundSize size ≤ 2147483648 := by
  rw [intMax] at hle
  rw [roundSize, sizeofLong]
  omega

/-- A size that fits is rounded without a wrap. -/
theorem SizeFits.good (h : SizeFits size) (hpos : 0 < size) (hle : size ≤ intMax) :
    size ≤ fixSize size ∧ GoodSize (fixSize size) := by
  obtain ⟨hlt, hmax⟩ := roundSize_bounds hle
  have hint : roundSize size ≤ intMax := by
    by_contra hwide
    obtain heq : roundSize size = 2147483648 := by rw [intMax] at hwide; omega
    rw [SizeFits, heq] at h
    revert h
    decide
  rw [fixSize_eq hpos, wrap32_of_range (by rw [intMin]; omega) hint]
  exact ⟨hlt.le, h.imp_left fun hten => ⟨by omega, hten⟩⟩

theorem Kept.placed (h : Kept (fixSize size) m) (hgood : GoodSize (fixSize size))
    (hsize : size ≤ fixSize size) (new : Option Addr) : m.Placed size new := by
  intro mem hmem
  rcases m.tryAlloc_cases size new with hthrow | ⟨base, halloc, hlength⟩
  · rw [hthrow] at hmem
    cases hmem
  · obtain ⟨-, ⟨c, hc, hwithin⟩, -⟩ := h.alloc_pool hgood rfl hlength base
    rw [halloc] at hmem ⊢
    obtain rfl : (m.alloc size base).1 = mem := Option.some.inj hmem
    refine ⟨_, (find_alloc m size base _).trans (if_pos rfl), c, hc, hwithin.1, ?_⟩
    have hend := hwithin.2
    dsimp only at hend ⊢
    have hroom : size.toNat ≤ (fixSize size).toNat := Int.toNat_le_toNat hsize
    exact (Nat.add_le_add_left hroom _).trans hend

/-- A size whose ten buffers have an `int` length is allocated where `new` has memory. -/
theorem Kept.tryAlloc_isSome (h : Kept (fixSize size) m) (hpos : 0 < size) (hle : size ≤ intMax)
    (hten : memoryPoolDefaultIncreaseAllocNum * roundSize size ≤ intMax) (base : Addr) :
    (m.tryAlloc size (some base)).1.isSome := by
  obtain ⟨hlt, -⟩ := roundSize_bounds hle
  rw [memoryPoolDefaultIncreaseAllocNum] at hten
  have hlength : ∀ length ∈ m.newSize size, 0 ≤ length := by
    intro length hlength
    have hfix : fixSize size = roundSize size := by
      rw [fixSize_eq hpos, wrap32_of_range (by rw [intMin]; omega) (by omega)]
    rw [newSize, Option.mem_def, Option.ite_none_right_eq_some, Option.some_inj] at hlength
    rw [← hlength.2, h.poolOf.increase_num, h.poolOf.item_len, hfix,
      memoryPoolDefaultIncreaseAllocNum, wrap32_of_range (by rw [intMin]; omega) hten]
    omega
  unfold tryAlloc
  rcases hsize : m.newSize size with _ | length
  · rfl
  · dsimp only
    rw [if_neg (not_lt.2 (hlength length hsize))]
    rfl

end Sizes

section Short

/-- Multiples that never wrap to a negative number do not wrap. -/
theorem wrap32_mul_of_nonneg {r : ℤ} (hpos : 0 < r) (hle : r ≤ 2147483648) :
    ∀ n : ℕ, (∀ i : ℕ, i ≤ n → 0 ≤ wrap32 (i * r)) → wrap32 (n * r) = n * r
  | 0, _ => by simp [wrap32]
  | n + 1, h => by
    have ih := wrap32_mul_of_nonneg hpos hle n fun i hi => h i (by omega)
    have hn : 0 ≤ (n : ℤ) * r := by positivity
    have hnext := h (n + 1) le_rfl
    have hsucc : ((n + 1 : ℕ) : ℤ) * r = n * r + r := by push_cast; ring
    rw [hsucc, wrap32_eq] at hnext ⊢
    rw [wrap32_eq] at ih
    omega

/-- The chunk of a size that does not fit is cut into buffers some of which lie before it. -/
theorem exists_before (hpos : 0 < size) (hle : size ≤ intMax) (h : ¬ SizeFits size) :
    ∃ i < 10, wrap32 (((i : ℕ) : ℤ) * fixSize size) < 0 := by
  obtain ⟨hlt, hmax⟩ := roundSize_bounds hle
  rw [SizeFits, not_or, memoryPoolDefaultIncreaseAllocNum, not_le, not_lt] at h
  by_contra hall
  push Not at hall
  have hround : ∀ i : ℕ, i ≤ 10 → 0 ≤ wrap32 (i * roundSize size) := by
    intro i hi
    rcases hi.eq_or_lt with rfl | hi
    · exact h.2
    · have hfix := hall i hi
      rw [fixSize_eq hpos, wrap32, wrap32, Int.mul_bmod_bmod] at hfix
      exact hfix
  have hten := wrap32_mul_of_nonneg (by omega) hmax 10 hround
  have hbound := (wrap32_bounds (((10 : ℕ) : ℤ) * roundSize size)).2
  rw [hten] at hbound
  push_cast at hbound
  omega

variable (size) (base : Addr)

/-- The pool of the size once so many buffers of its first chunk were given out. -/
def poolAfter : ℕ → MemoryPool
  | 0 => { itemLen := fixSize size }
  | k + 1 =>
    { itemLen := fixSize size
      freeBuffers := (cut { itemLen := fixSize size } base).reverse.drop (k + 1)
      realBufferPtrs := [base] }

theorem length_cut : (cut { itemLen := fixSize size } base).reverse.length = 10 := by
  simp [cut, memoryPoolDefaultIncreaseAllocNum]

/-- The buffers come from the last one down. -/
theorem getD_cut {i : ℕ} (hi : i < 10) :
    (cut { itemLen := fixSize size } base).reverse.getD (9 - i) 0 =
      (base + wrap32 (i * fixSize size)).toNat := by
  have hindex : 10 - 1 - (9 - i) = i := by omega
  have hlt : 9 - i < (cut { itemLen := fixSize size } base).reverse.length := by
    rw [length_cut]
    omega
  rw [List.getD_eq_getElem?_getD, List.getElem?_eq_getElem hlt, Option.getD_some,
    List.getElem_reverse]
  simp [cut, memoryPoolDefaultIncreaseAllocNum, hindex]

/-- `Alloc` takes the next one. -/
theorem alloc_poolAfter {k : ℕ} (hk : k < 10) (base' : Addr) (hbase : k = 0 → base' = base) :
    (poolAfter size base k).alloc base' =
      ((cut { itemLen := fixSize size } base).reverse.getD k 0, poolAfter size base (k + 1)) := by
  have hlen := length_cut size base
  rcases k with _ | k
  · obtain rfl := hbase rfl
    simp [poolAfter, MemoryPool.alloc, MemoryPool.increase, MemoryPool.cut, List.headD_eq_head?_getD,
      List.head?_eq_getElem?, List.getD_eq_getElem?_getD]
  · have hne : (cut { itemLen := fixSize size } base).reverse.drop (k + 1) ≠ [] := by
      rw [ne_eq, List.drop_eq_nil_iff]
      omega
    simp [poolAfter, MemoryPool.alloc, hne, List.headD_eq_head?_getD, List.head?_drop,
      List.getD_eq_getElem?_getD]

theorem tryAlloc_poolAfter {k : ℕ} (hk : k < 10)
    (hlength : 0 ≤ wrap32 (memoryPoolDefaultIncreaseAllocNum * fixSize size))
    (hpool : m.poolOf (fixSize size) = poolAfter size base k) :
    (m.tryAlloc size (some base)).1 =
        some ((cut { itemLen := fixSize size } base).reverse.getD k 0) ∧
      (m.tryAlloc size (some base)).2.memorySizeToPoolMap.find (fixSize size) =
        some (poolAfter size base (k + 1)) := by
  have htry : ∃ base', (k = 0 → base' = base) ∧ m.tryAlloc size (some base) =
      (some (m.alloc size base').1, (m.alloc size base').2) := by
    rcases k with _ | k
    · have hsize : m.newSize size =
          some (wrap32 (memoryPoolDefaultIncreaseAllocNum * fixSize size)) := by
        rw [newSize, hpool]
        rfl
      refine ⟨base, fun _ => rfl, ?_⟩
      rw [tryAlloc, hsize]
      exact if_neg (not_lt.2 hlength)
    · have hlen := length_cut size base
      have hne : (poolAfter size base (k + 1)).freeBuffers ≠ [] := by
        rw [poolAfter, ne_eq, List.drop_eq_nil_iff]
        omega
      have hsize : m.newSize size = none := by
        rw [newSize, hpool]
        exact if_neg hne
      refine ⟨0, fun hzero => absurd hzero k.succ_ne_zero, ?_⟩
      rw [tryAlloc, hsize]
  obtain ⟨base', hbase, htry⟩ := htry
  have halloc := alloc_poolAfter size base hk base' hbase
  rw [htry]
  constructor
  · rw [MemoryPoolManager.alloc, hpool, halloc]
  · rw [find_alloc, if_pos rfl, hpool, halloc]

/-- Only the first of these allocations calls `new`. -/
theorem can_poolAfter {k : ℕ} (hk : k < 10) (hbase : base ≠ 0) (hstart : k = 0 → m = {})
    (hpool : m.poolOf (fixSize size) = poolAfter size base k) :
    m.Can (.alloc size (some base)) := by
  intro base' hbase' length hlength
  obtain rfl : base = base' := Option.some.inj hbase'
  refine ⟨hbase, ?_⟩
  rcases k with _ | k
  · rw [hstart rfl]
    simp
  · have hlen := length_cut size base
    have hne : (poolAfter size base (k + 1)).freeBuffers ≠ [] := by
      rw [poolAfter, ne_eq, List.drop_eq_nil_iff]
      omega
    rw [newSize, hpool] at hlength
    simp [hne] at hlength

/-- Up to ten allocations are made, from one chunk. -/
theorem poolOf_exec (hbase : base ≠ 0)
    (hlength : 0 ≤ wrap32 (memoryPoolDefaultIncreaseAllocNum * fixSize size)) :
    ∀ k ≤ 10, Along step Can {} (List.replicate k (.alloc size (some base))) ∧
      (exec step {} (List.replicate k (.alloc size (some base)))).poolOf (fixSize size) =
        poolAfter size base k
  | 0, _ => ⟨trivial, rfl⟩
  | k + 1, hk => by
    obtain ⟨halong, hpool⟩ := poolOf_exec hbase hlength k (by omega)
    have hcan := can_poolAfter size base hk hbase (by rintro rfl; rfl) hpool
    have htry := tryAlloc_poolAfter size base hk hlength hpool
    rw [List.replicate_succ', along_append, exec_append]
    exact ⟨⟨halong, hcan, trivial⟩, poolOf_of_find htry.2⟩

end Short

/-- `Alloc(size)` returns pointers with room for `size` bytes, whatever was allocated and freed before,
exactly when the size fits. -/
theorem placed_iff_sizeFits (hpos : 0 < size) (hle : size ≤ intMax) :
    (∀ (calls : List Call) (new : Option Addr),
        Along step Can {} (calls ++ [.alloc size new]) →
          (exec step {} calls).Placed size new) ↔ SizeFits size := by
  constructor
  · intro hall
    by_contra hfits
    obtain ⟨i, hi, hbefore⟩ := exists_before hpos hle hfits
    have hlength : 0 ≤ wrap32 (memoryPoolDefaultIncreaseAllocNum * fixSize size) := by
      rw [SizeFits, not_or, not_lt] at hfits
      rw [fixSize_eq hpos, wrap32, wrap32, Int.mul_bmod_bmod]
      exact hfits.2
    set base : Addr := 4294967296 with hbase
    have hk : 9 - i < 10 := by omega
    obtain ⟨halong, hpool⟩ := poolOf_exec size base (by decide) hlength (9 - i) hk.le
    have hcan := can_poolAfter size base hk (by decide) (by intro hzero; rw [hzero]; rfl) hpool
    obtain ⟨hmem, hfind⟩ := tryAlloc_poolAfter size base hk hlength hpool
    obtain ⟨p, hp, c, hc, hwithin, -⟩ := hall _ _ ((along_append _ _ _).2 ⟨halong, hcan, trivial⟩)
      _ hmem
    obtain rfl : poolAfter size base (9 - i + 1) = p := Option.some.inj (hfind.symm.trans hp)
    rw [List.mem_singleton.1 hc] at hwithin
    dsimp only at hwithin
    rw [getD_cut size base hi] at hwithin
    have := wrap32_bounds (i * fixSize size)
    omega
  · intro hfits calls new _
    obtain ⟨hsize, hgood⟩ := hfits.good hpos hle
    have hkept : Kept (fixSize size) (exec step {} calls) :=
      invariant (I := Kept (fixSize size)) (P := fun _ _ => True)
        (fun _ c h _ => kept_step hgood h c) (kept_start _)
        (along_of_forall (fun _ _ => trivial) _ calls)
    exact hkept.placed hgood hsize new

/-- Sizes that fit, of which the second is the largest whose length does not wrap and the third one
`new` throws for, and a size that does not. -/
theorem placed_iff_sizeFits_four :
    (∀ size ∈ ([20, 214748359, 300000000] : List ℤ), ∀ (calls : List Call) (new : Option Addr),
        Along step Can {} (calls ++ [.alloc size new]) → (exec step {} calls).Placed size new) ∧
      ¬ ∀ (calls : List Call) (new : Option Addr),
        Along step Can {} (calls ++ [.alloc 429496730 new]) →
          (exec step {} calls).Placed 429496730 new := by
  have hfits : ∀ size ∈ ([20, 214748359, 300000000] : List ℤ),
      0 < size ∧ size ≤ intMax ∧ SizeFits size := by
    decide
  refine ⟨fun size hsize => ?_, fun hall => ?_⟩
  · obtain ⟨hpos, hle, hfit⟩ := hfits size hsize
    exact (placed_iff_sizeFits hpos hle).2 hfit
  · exact absurd ((placed_iff_sizeFits (by decide) (by decide)).1 hall) (by decide)

/-- The first allocation of this size gets a chunk of 64 bytes, and a pointer to before it. -/
theorem not_placed_short :
    Can {} (.alloc 429496730 (some 4294967296)) ∧ ¬ Placed {} 429496730 (some 4294967296) := by
  refine ⟨can_poolAfter (k := 0) _ _ (by decide) (by decide) (fun _ => rfl) rfl, fun h => ?_⟩
  obtain ⟨hmem, hfind⟩ := tryAlloc_poolAfter (m := {}) 429496730 4294967296 (k := 0) (by decide)
    (by decide) rfl
  obtain ⟨p, hp, c, hc, hwithin, -⟩ := h _ hmem
  obtain rfl : poolAfter 429496730 4294967296 1 = p := Option.some.inj (hfind.symm.trans hp)
  rw [List.mem_singleton.1 hc] at hwithin
  revert hwithin
  decide

end MemoryPoolManager

end Elegance
