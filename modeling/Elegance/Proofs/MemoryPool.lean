import Elegance.MemoryPool

/-!
# The blocks of `MemoryPoolManager`

Every pool splits the slots of its chunks between its stack and the blocks in use, and chunks do not
overlap, whichever pool they belong to. So blocks in use do not overlap, and the size kept for an
address in use is that of its pool, to which `Free` gives it back (`memory_pool_sound`).
-/

namespace Elegance

open CInt Machine

namespace MemoryPool

/-- A pool of buffers of `fix` bytes, of which some are in use. -/
structure Sized (fix : ℤ) (p : MemoryPool) (used : List Addr) : Prop where
  item_len : p.itemLen = fix
  increase_num : p.increaseNum = memoryPoolDefaultIncreaseAllocNum
  pos : 0 < fix
  le : memoryPoolDefaultIncreaseAllocNum * fix ≤ intMax
  dvd : (sizeofLong : ℤ) ∣ fix
  slots : SlotPool fix.toNat 10 p.realBufferPtrs p.freeBuffers used

variable {fix : ℤ} {p : MemoryPool} {used : List Addr} {base : Addr}

theorem Sized.toNat_pos (h : Sized fix p used) : 0 < fix.toNat := by
  have := h.pos
  omega

/-- Every buffer is a slot of a chunk. -/
theorem Sized.chunk (h : Sized fix p used) {a : Addr} (ha : a ∈ p.freeBuffers ++ used) :
    ∃ c ∈ p.realBufferPtrs, Span.Within ⟨a, fix.toNat⟩ ⟨c, 10 * fix.toNat⟩ ∧
      sizeofLong ∣ a - c := by
  obtain ⟨c, hc, hslot⟩ := h.slots.chunk_of_mem ha
  refine ⟨c, hc, slot_within hslot, ?_⟩
  obtain ⟨i, -, rfl⟩ := mem_slots.1 hslot
  rw [Nat.add_sub_cancel_left]
  refine Dvd.dvd.mul_left ?_ i
  obtain ⟨k, hk⟩ := h.dvd
  have := h.pos
  rw [sizeofLong] at hk ⊢
  exact ⟨k.toNat, by omega⟩

/-- Where a chunk's length is an `int`, so are the offsets in it. -/
theorem cut_eq_slots (hnum : p.increaseNum = memoryPoolDefaultIncreaseAllocNum) (hpos : 0 < p.itemLen)
    (hle : memoryPoolDefaultIncreaseAllocNum * p.itemLen ≤ intMax) (base : Addr) :
    p.cut base = slots p.itemLen.toNat 10 base := by
  rw [memoryPoolDefaultIncreaseAllocNum] at hnum hle
  rw [cut, hnum, slots]
  refine List.map_congr_left fun i hi => ?_
  have hi : (i : ℤ) ≤ 10 := by
    have := List.mem_range.1 hi
    omega
  have hoffset : 0 ≤ (i : ℤ) * p.itemLen := by positivity
  have hoffset' : (i : ℤ) * p.itemLen ≤ 10 * p.itemLen := Int.mul_le_mul_of_nonneg_right hi hpos.le
  rw [wrap32_of_range (by rw [intMin]; omega) (by omega)]
  zify
  rw [Int.toNat_of_nonneg (by omega), Int.toNat_of_nonneg hpos.le]

theorem Sized.increase (h : Sized fix p used)
    (hbase : ∀ c ∈ p.realBufferPtrs, Span.Apart ⟨c, 10 * fix.toNat⟩ ⟨base, 10 * fix.toNat⟩) :
    Sized fix (p.increase base) used := by
  refine ⟨h.item_len, h.increase_num, h.pos, h.le, h.dvd, ?_⟩
  have hgrow := h.slots.grow hbase
  have hcut := cut_eq_slots h.increase_num (h.item_len ▸ h.pos) (h.item_len ▸ h.le) base
  rw [h.item_len] at hcut
  rw [MemoryPool.increase, hcut]
  exact hgrow

theorem freeBuffers_increase (h : Sized fix p used) : (p.increase base).freeBuffers ≠ [] := by
  intro hnil
  have hlen := congrArg List.length hnil
  rw [MemoryPool.increase, cut, h.increase_num] at hlen
  simp [memoryPoolDefaultIncreaseAllocNum] at hlen

/-- What `Alloc` takes is in use then, and its chunk is an old one or that of `new`. -/
theorem alloc_spec (base : Addr) (h : Sized fix p used) (hbase : p.freeBuffers = [] →
      ∀ c ∈ p.realBufferPtrs, Span.Apart ⟨c, 10 * fix.toNat⟩ ⟨base, 10 * fix.toNat⟩) :
    Sized fix (p.alloc base).2 ((p.alloc base).1 :: used) ∧
      ∀ c ∈ (p.alloc base).2.realBufferPtrs,
        c ∈ p.realBufferPtrs ∨ (p.freeBuffers = [] ∧ c = base) := by
  have htake : ∀ {q : MemoryPool}, Sized fix q used → q.freeBuffers ≠ [] →
      Sized fix { q with freeBuffers := q.freeBuffers.tail } (q.freeBuffers.headD 0 :: used) := by
    intro q hq hne
    obtain ⟨a, free, hfree⟩ := List.exists_cons_of_ne_nil hne
    have hslots := hq.slots
    rw [hfree] at hslots
    refine ⟨hq.item_len, hq.increase_num, hq.pos, hq.le, hq.dvd, ?_⟩
    simp only [hfree, List.tail_cons, List.headD_cons]
    exact hslots.take
  unfold alloc
  by_cases hempty : p.freeBuffers = []
  · simp only [if_pos hempty]
    refine ⟨htake (h.increase (hbase hempty)) (freeBuffers_increase h), fun c hc => ?_⟩
    rcases List.mem_append.1 hc with hc | hc
    · exact .inl hc
    · exact .inr ⟨hempty, List.mem_singleton.1 hc⟩
  · simp only [if_neg hempty]
    exact ⟨htake h hempty, fun c hc => .inl hc⟩

theorem free_spec {a : Addr} (h : Sized fix p (a :: used)) : Sized fix (p.free a) used :=
  ⟨h.item_len, h.increase_num, h.pos, h.le, h.dvd, h.slots.give⟩

end MemoryPool

namespace MemoryUse

open MemoryPool MemoryPoolManager

/-- The rounded size is a multiple of `align` with room for the size. -/
theorem fixSize_spec {size : ℤ} (hpos : 0 < size)
    (hle : memoryPoolDefaultIncreaseAllocNum * (size + sizeofLong - size % sizeofLong) ≤ intMax) :
    size ≤ fixSize size ∧ memoryPoolDefaultIncreaseAllocNum * fixSize size ≤ intMax ∧
      (sizeofLong : ℤ) ∣ fixSize size := by
  rw [memoryPoolDefaultIncreaseAllocNum, intMax, sizeofLong] at *
  have htmod : size.tmod 8 = size % 8 := Int.tmod_eq_emod_of_nonneg hpos.le
  have hfix : fixSize size = size + 8 - size % 8 := by
    rw [fixSize, sizeofLong]
    push_cast at hle ⊢
    rw [htmod, wrap32_sub, wrap32_of_range (by rw [intMin]; omega) (by rw [intMax]; omega)]
  push_cast at hle ⊢
  rw [hfix]
  omega

structure Inv (s : MemoryUse) : Prop where
  pools : ∀ {fix p}, s.manager.memorySizeToPoolMap.find fix = some p → p.Sized fix (s.liveOf fix)
  chunks : ∀ {fix p}, s.manager.memorySizeToPoolMap.find fix = some p →
    ∀ c ∈ p.realBufferPtrs, c ≠ 0 ∧ ⟨c, 10 * fix.toNat⟩ ∈ s.news
  apart : ∀ {fix fix' p p'}, fix ≠ fix' → s.manager.memorySizeToPoolMap.find fix = some p →
    s.manager.memorySizeToPoolMap.find fix' = some p' → ∀ c ∈ p.realBufferPtrs,
      ∀ c' ∈ p'.realBufferPtrs, Span.Apart ⟨c, 10 * fix.toNat⟩ ⟨c', 10 * fix'.toNat⟩
  live : ∀ b ∈ s.live, b.size ≤ fixSize b.size ∧
    s.manager.memoryToSizeMap.find b.addr = some (fixSize b.size) ∧
    ∃ p, s.manager.memorySizeToPoolMap.find (fixSize b.size) = some p

theorem inv_start : Inv {} := by
  constructor <;> simp

variable {s : MemoryUse} {fix : ℤ}

theorem mem_liveOf {a : Addr} :
    a ∈ s.liveOf fix ↔ ∃ b ∈ s.live, fixSize b.size = fix ∧ b.addr = a := by
  simp [liveOf, and_assoc]

/-- The chunk of a block in use. -/
theorem Inv.chunk_of_live (h : Inv s) {b : MemoryBlock} (hb : b ∈ s.live) :
    ∃ p, s.manager.memorySizeToPoolMap.find (fixSize b.size) = some p ∧
      ∃ c ∈ p.realBufferPtrs, b.span.Within ⟨c, 10 * (fixSize b.size).toNat⟩ ∧
        sizeofLong ∣ b.addr - c := by
  obtain ⟨-, -, p, hp⟩ := h.live b hb
  refine ⟨p, hp, (h.pools hp).chunk ?_⟩
  exact List.mem_append_right _ (mem_liveOf.2 ⟨b, hb, rfl, rfl⟩)

theorem Inv.sound (h : Inv s) : Sound s where
  disjoint := by
    refine List.pairwise_of_fibers (fun b => fixSize b.size) (fun fix => ?_) fun b hb c hc hne => ?_
    · by_cases hlive : s.live.filter (fun b => fixSize b.size = fix) = []
      · rw [hlive]
        exact .nil
      · obtain ⟨b, hb⟩ := List.exists_mem_of_ne_nil _ hlive
        obtain ⟨hmem, hfix⟩ := List.mem_filter.1 hb
        obtain ⟨-, -, p, hp⟩ := h.live b hmem
        have hfix : fixSize b.size = fix := by simpa using hfix
        rw [hfix] at hp
        have hpairwise := (h.pools hp).slots.pairwise
        rw [List.pairwise_append] at hpairwise
        have hused := hpairwise.2.1
        rw [liveOf, List.pairwise_map] at hused
        refine hused.imp_of_mem fun {b c} hb hc hapart => ?_
        have hb : fixSize b.size = fix := by simpa using (List.mem_filter.1 hb).2
        have hc : fixSize c.size = fix := by simpa using (List.mem_filter.1 hc).2
        rw [MemoryBlock.span, MemoryBlock.span, hb, hc]
        exact hapart
    · obtain ⟨p, hp, c₁, hc₁, hwithin₁, -⟩ := h.chunk_of_live hb
      obtain ⟨p', hp', c₂, hc₂, hwithin₂, -⟩ := h.chunk_of_live hc
      exact (h.apart hne hp hp' c₁ hc₁ c₂ hc₂).of_within hwithin₁ hwithin₂
  enough b hb := by
    obtain ⟨hle, -, p, hp⟩ := h.live b hb
    have := (h.pools hp).pos
    rw [MemoryBlock.span]
    dsimp only
    omega
  placed b hb := by
    obtain ⟨p, hp, c, hc, hwithin, hdvd⟩ := h.chunk_of_live hb
    exact ⟨_, (h.chunks hp c hc).2, hwithin, hdvd⟩
  balanced fix p hp := by
    have hsized := h.pools hp
    have hcount := hsized.slots.count
    rw [hsized.increase_num, memoryPoolDefaultIncreaseAllocNum]
    exact_mod_cast hcount

section Alloc

variable {size : ℤ} {base : Addr}

/-- No chunk of the pool overlaps one of another pool. -/
def Lonely (s : MemoryUse) (fix : ℤ) (p : MemoryPool) : Prop :=
  ∀ fix' p', fix ≠ fix' → s.manager.memorySizeToPoolMap.find fix' = some p' →
    ∀ c ∈ p.realBufferPtrs, ∀ c' ∈ p'.realBufferPtrs,
      Span.Apart ⟨c, 10 * fix.toNat⟩ ⟨c', 10 * fix'.toNat⟩

/-- A new pool has no chunk, and no block in use is of its size. -/
theorem Inv.poolOf (h : Inv s) (hpos : 0 < fix)
    (hle : memoryPoolDefaultIncreaseAllocNum * fix ≤ intMax) (hdvd : (sizeofLong : ℤ) ∣ fix) :
    (s.manager.poolOf fix).Sized fix (s.liveOf fix) ∧
      (∀ c ∈ (s.manager.poolOf fix).realBufferPtrs, c ≠ 0 ∧ ⟨c, 10 * fix.toNat⟩ ∈ s.news) ∧
      s.Lonely fix (s.manager.poolOf fix) := by
  rw [MemoryPoolManager.poolOf]
  rcases hfind : s.manager.memorySizeToPoolMap.find fix with _ | p
  · have hlive : s.liveOf fix = [] := by
      rw [List.eq_nil_iff_forall_not_mem]
      intro a ha
      obtain ⟨b, hb, rfl, -⟩ := mem_liveOf.1 ha
      obtain ⟨-, -, p, hp⟩ := h.live b hb
      rw [hfind] at hp
      cases hp
    rw [hlive, Option.getD_none]
    exact ⟨⟨rfl, rfl, hpos, hle, hdvd, .empty _ _⟩, by simp, fun _ _ _ _ c hc => by simp at hc⟩
  · exact ⟨h.pools hfind, h.chunks hfind, fun fix' p' hne hfind' => h.apart hne hfind hfind'⟩

theorem mem_news_step {c : Span} (hc : c ∈ s.news) : c ∈ (s.step (.alloc size base)).news := by
  simp only [step]
  split
  · exact List.mem_cons_of_mem _ hc
  · exact hc

/-- What `Alloc` does to the pool of its rounded size. -/
theorem Inv.alloc_pool (h : Inv s) (hcan : s.Can (.alloc size base)) :
    ((s.manager.poolOf (fixSize size)).alloc base).2.Sized (fixSize size)
        (((s.manager.poolOf (fixSize size)).alloc base).1 :: s.liveOf (fixSize size)) ∧
      (∀ c ∈ ((s.manager.poolOf (fixSize size)).alloc base).2.realBufferPtrs,
        c ≠ 0 ∧ ⟨c, 10 * (fixSize size).toNat⟩ ∈ (s.step (.alloc size base)).news) ∧
      s.Lonely (fixSize size) ((s.manager.poolOf (fixSize size)).alloc base).2 := by
  obtain ⟨hpos, hle, hnew⟩ := hcan
  obtain ⟨hsize, hfix, hdvd⟩ := fixSize_spec hpos hle
  obtain ⟨hsized, hchunks, hlonely⟩ := h.poolOf (by omega) hfix hdvd
  have hlength : (wrap32 (memoryPoolDefaultIncreaseAllocNum * fixSize size)).toNat =
      10 * (fixSize size).toNat := by
    rw [wrap32_of_range (by rw [memoryPoolDefaultIncreaseAllocNum, intMin]; omega) hfix,
      memoryPoolDefaultIncreaseAllocNum]
    omega
  have hfresh : (s.manager.poolOf (fixSize size)).freeBuffers = [] →
      (s.step (.alloc size base)).news = ⟨base, 10 * (fixSize size).toNat⟩ :: s.news ∧
        base ≠ 0 ∧ ∀ c ∈ s.news, c.Apart ⟨base, 10 * (fixSize size).toNat⟩ := by
    intro hempty
    have hnewSize : s.manager.newSize size =
        some (wrap32 (memoryPoolDefaultIncreaseAllocNum * fixSize size)) := by
      rw [newSize]
      simp only [if_pos hempty, hsized.increase_num, hsized.item_len]
    have hbase := hnew _ hnewSize
    rw [hlength] at hbase
    refine ⟨?_, hbase⟩
    simp only [step, hnewSize, hlength]
  obtain ⟨halloc, hreal⟩ := alloc_spec base hsized fun hempty c hc =>
    (hfresh hempty).2.2 _ (hchunks c hc).2
  refine ⟨halloc, fun c hc => ?_, fun fix' p' hne hfind' c hc c' hc' => ?_⟩
  · rcases hreal c hc with hold | ⟨hempty, rfl⟩
    · exact ⟨(hchunks c hold).1, mem_news_step (hchunks c hold).2⟩
    · refine ⟨(hfresh hempty).2.1, ?_⟩
      rw [(hfresh hempty).1]
      exact List.mem_cons_self
  · rcases hreal c hc with hold | ⟨hempty, rfl⟩
    · exact hlonely fix' p' hne hfind' c hold c' hc'
    · exact ((hfresh hempty).2.2 _ (h.chunks hfind' c' hc').2).symm

/-- What is given out is not null, and in no other use. -/
theorem Inv.alloc_fresh (h : Inv s) (hcan : s.Can (.alloc size base)) :
    ((s.manager.poolOf (fixSize size)).alloc base).1 ≠ 0 ∧
      ∀ b ∈ s.live, b.addr ≠ ((s.manager.poolOf (fixSize size)).alloc base).1 := by
  obtain ⟨hsized, hchunks, hlonely⟩ := h.alloc_pool hcan
  set mem := ((s.manager.poolOf (fixSize size)).alloc base).1
  obtain ⟨c, hc, hwithin, -⟩ := hsized.chunk (List.mem_append_right _ List.mem_cons_self)
  refine ⟨?_, fun b hb => ?_⟩
  · have hnull := (hchunks c hc).1
    have hbase := hwithin.1
    exact Nat.ne_of_gt ((Nat.pos_of_ne_zero hnull).trans_le hbase)
  · by_cases hfix : fixSize size = fixSize b.size
    · have hpairwise := hsized.slots.pairwise
      rw [List.pairwise_append, List.pairwise_cons] at hpairwise
      have hapart := hpairwise.2.1.1 b.addr (mem_liveOf.2 ⟨b, hb, hfix.symm, rfl⟩)
      exact (hapart.base_ne hsized.toNat_pos hsized.toNat_pos).symm
    · obtain ⟨p, hp, c', hc', hwithin', -⟩ := h.chunk_of_live hb
      have hapart := (hlonely _ p hfix hp c hc c' hc').of_within hwithin hwithin'
      exact (hapart.base_ne hsized.toNat_pos (h.pools hp).toNat_pos).symm

/-- The tables get the pool, and the block that was given out. -/
theorem find_alloc (hnull : ((s.manager.poolOf (fixSize size)).alloc base).1 ≠ 0) :
    (∀ k, (s.step (.alloc size base)).manager.memorySizeToPoolMap.find k =
      if k = fixSize size then some ((s.manager.poolOf (fixSize size)).alloc base).2
      else s.manager.memorySizeToPoolMap.find k) ∧
    ∀ a, (s.step (.alloc size base)).manager.memoryToSizeMap.find a =
      if a = ((s.manager.poolOf (fixSize size)).alloc base).1 then some (fixSize size)
      else s.manager.memoryToSizeMap.find a := by
  simp only [step, MemoryPoolManager.alloc, if_neg hnull]
  exact ⟨fun k => StdMap.find_set_eq _ _ _ _, fun a => StdMap.find_set_eq _ _ _ _⟩

theorem live_alloc : (s.step (.alloc size base)).live =
    ⟨((s.manager.poolOf (fixSize size)).alloc base).1, size⟩ :: s.live := rfl

theorem liveOf_alloc (k : ℤ) : (s.step (.alloc size base)).liveOf k =
    if k = fixSize size then ((s.manager.poolOf (fixSize size)).alloc base).1 :: s.liveOf k
    else s.liveOf k := by
  rw [liveOf, live_alloc, List.filter_cons]
  by_cases hk : k = fixSize size
  · simp [hk, liveOf]
  · simp [hk, Ne.symm hk, liveOf]

theorem Inv.alloc (h : Inv s) (hcan : s.Can (.alloc size base)) :
    Inv (s.step (.alloc size base)) := by
  obtain ⟨hsized, hchunks, hlonely⟩ := h.alloc_pool hcan
  obtain ⟨hnull, hother⟩ := h.alloc_fresh hcan
  obtain ⟨hsize, -⟩ := fixSize_spec hcan.1 hcan.2.1
  obtain ⟨hfind, hsizes⟩ := find_alloc hnull
  constructor
  · intro k p hp
    rw [hfind] at hp
    rw [liveOf_alloc]
    split_ifs at hp ⊢ with hk
    · rw [← Option.some.inj hp, hk]
      exact hsized
    · exact h.pools hp
  · intro k p hp
    rw [hfind] at hp
    split_ifs at hp with hk
    · rw [← Option.some.inj hp, hk]
      exact hchunks
    · exact fun c hc => ⟨(h.chunks hp c hc).1, mem_news_step (h.chunks hp c hc).2⟩
  · intro k k' p p' hne hp hp' c hc c' hc'
    rw [hfind] at hp hp'
    split_ifs at hp hp' with hk hk' hk'
    · exact absurd (hk.trans hk'.symm) hne
    · rw [← Option.some.inj hp] at hc
      rw [hk] at hne ⊢
      exact hlonely k' p' hne hp' c hc c' hc'
    · rw [← Option.some.inj hp'] at hc'
      rw [hk'] at hne ⊢
      exact (hlonely k p hne.symm hp c' hc' c hc).symm
    · exact h.apart hne hp hp' c hc c' hc'
  · intro b hb
    rw [live_alloc] at hb
    rw [hsizes, hfind]
    rcases List.mem_cons.1 hb with rfl | hb
    · exact ⟨hsize, if_pos rfl, by simp⟩
    · obtain ⟨hle, hfound, p, hp⟩ := h.live b hb
      refine ⟨hle, ?_, ?_⟩
      · rw [if_neg (hother b hb), hfound]
      · split_ifs with hk
        · exact ⟨_, rfl⟩
        · exact ⟨p, hp⟩

end Alloc

section Free

variable {b : MemoryBlock}

/-- A block in use goes back to the pool of its rounded size. -/
theorem Inv.free_eq (h : Inv s) (hb : b ∈ s.live) :
    ∃ p, s.manager.memorySizeToPoolMap.find (fixSize b.size) = some p ∧
      s.manager.free b.addr = (true, { s.manager with
        memorySizeToPoolMap :=
          s.manager.memorySizeToPoolMap.set (fixSize b.size) (p.free b.addr) }) := by
  obtain ⟨-, hfound, p, hp⟩ := h.live b hb
  refine ⟨p, hp, ?_⟩
  simp only [MemoryPoolManager.free, hfound, hp]

theorem Inv.givesBack (h : Inv s) (hb : b ∈ s.live) : s.GivesBack (.free b) := by
  obtain ⟨p, hp, hfree⟩ := h.free_eq hb
  rw [GivesBack, hfree]
  exact ⟨rfl, p, hp, fun fix => StdMap.find_set_eq _ _ _ _⟩

/-- The block is taken from those in use of its size. -/
theorem liveOf_perm (hb : b ∈ s.live) :
    (s.liveOf (fixSize b.size)).Perm (b.addr :: (s.step (.free b)).liveOf (fixSize b.size)) ∧
      ∀ k ≠ fixSize b.size, (s.liveOf k).Perm ((s.step (.free b)).liveOf k) := by
  have hlive : s.live.Perm (b :: (s.step (.free b)).live) := List.perm_cons_erase hb
  constructor
  · have hperm := (hlive.filter fun c => fixSize c.size = fixSize b.size).map MemoryBlock.addr
    rw [List.filter_cons_of_pos (by simp)] at hperm
    exact hperm
  · intro k hk
    have hperm := (hlive.filter fun c => fixSize c.size = k).map MemoryBlock.addr
    rw [List.filter_cons_of_neg (by simpa using hk.symm)] at hperm
    exact hperm

theorem Inv.free (h : Inv s) (hb : b ∈ s.live) : Inv (s.step (.free b)) := by
  obtain ⟨p₀, hp₀, hfree⟩ := h.free_eq hb
  obtain ⟨hsame, hother⟩ := liveOf_perm hb
  have hfind : ∀ k, (s.step (.free b)).manager.memorySizeToPoolMap.find k =
      if k = fixSize b.size then some (p₀.free b.addr)
      else s.manager.memorySizeToPoolMap.find k := by
    intro k
    simp only [step, hfree]
    exact StdMap.find_set_eq _ _ _ _
  have hreal : ∀ {k p}, (s.step (.free b)).manager.memorySizeToPoolMap.find k = some p →
      ∃ p', s.manager.memorySizeToPoolMap.find k = some p' ∧
        p.realBufferPtrs = p'.realBufferPtrs := by
    intro k p hp
    rw [hfind] at hp
    split_ifs at hp with hk
    · rw [← Option.some.inj hp, hk]
      exact ⟨p₀, hp₀, rfl⟩
    · exact ⟨p, hp, rfl⟩
  constructor
  · intro k p hp
    rw [hfind] at hp
    split_ifs at hp with hk
    · rw [← Option.some.inj hp, hk]
      have hsized := h.pools hp₀
      exact free_spec { hsized with slots := hsized.slots.perm hsame }
    · have hsized := h.pools hp
      exact { hsized with slots := hsized.slots.perm (hother k hk) }
  · intro k p hp
    obtain ⟨p', hp', heq⟩ := hreal hp
    rw [heq]
    exact h.chunks hp'
  · intro k k' p p' hne hp hp'
    obtain ⟨q, hq, heq⟩ := hreal hp
    obtain ⟨q', hq', heq'⟩ := hreal hp'
    rw [heq, heq']
    exact h.apart hne hq hq'
  · intro c hc
    obtain ⟨hle, hfound, p, hp⟩ := h.live c (List.mem_of_mem_erase hc)
    refine ⟨hle, ?_, ?_⟩
    · simp only [step, hfree]
      exact hfound
    · rw [hfind]
      split_ifs
      · exact ⟨_, rfl⟩
      · exact ⟨p, hp⟩

end Free

theorem inv_step (e : MemoryEvent) (h : Inv s) (hcan : s.Can e) : Inv (s.step e) := by
  cases e with
  | alloc size base => exact h.alloc hcan
  | free b => exact h.free hcan

/-- After any allocations and frees the blocks in use lie apart in their chunks and every pool adds
up, and each block that was freed went back to the pool of its rounded size. -/
theorem memory_pool_sound (es : List MemoryEvent) (hcan : Along step Can {} es) :
    Sound (exec step {} es) ∧ Along step GivesBack {} es := by
  constructor
  · exact (invariant (fun _ e h hc => inv_step e h hc) inv_start hcan).sound
  · have halong := along_invariant (fun _ e h hc => inv_step e h hc) inv_start hcan
    refine along_mono (fun s e h => ?_) halong
    cases e with
    | alloc size base => trivial
    | free b => exact h.2.givesBack h.1

/-- A chunk is used up and a buffer of it used again before the next is asked for. -/
def threeChunks : List MemoryEvent :=
  List.replicate 10 (.alloc 1 1000) ++ [.alloc 20 5000, .free ⟨1064, 1⟩, .alloc 3 0,
    .alloc 7 2000, .free ⟨5216, 20⟩, .free ⟨1064, 3⟩, .alloc 8 6000]

theorem memory_pool_sound_threeChunks : (exec step {} threeChunks).news.length = 4 ∧
    Sound (exec step {} threeChunks) ∧ Along step GivesBack {} threeChunks :=
  ⟨by decide +kernel, memory_pool_sound threeChunks (by decide +kernel)⟩

end MemoryUse

end Elegance
