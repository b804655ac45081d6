import Elegance.HeapBuffer

/-!
# Who deletes the blocks of a `FlexibleBuffer`

Growing makes a new block, copies the old one into its front and deletes it (`changeBufferSize_grow`).
Shrinking to nothing deletes the block and leaves the pointer to it (`changeBufferSize_empty`), which
only the destructor may do. All is well exactly as long as no other call does (`sound_iff_careful`).
-/

namespace Elegance

open Blocks Machine

namespace HeapBuffer

variable {b : HeapBuffer} {size : ℤ}

theorem changeBufferSize_same (h : b.bufferSize = size) : b.changeBufferSize size = b := if_pos h

theorem changeBufferSize_grow (hne : b.bufferSize ≠ size) (hpos : 0 < size) :
    let heap := b.heap.new (List.replicate size.toNat 0)
    b.changeBufferSize size =
      { heap := (heap.write b.heap.next
          (heap.read b.buffer (min b.bufferSize size).toNat)).delete b.buffer
        buffer := b.heap.next
        bufferSize := size } := by
  have hmin : (if size < b.bufferSize then size else b.bufferSize) = min b.bufferSize size := by
    split_ifs <;> omega
  unfold changeBufferSize
  rw [if_neg hne]
  simp only [if_pos hpos, hmin]
  cases b.buffer <;> simp

theorem changeBufferSize_empty (hne : b.bufferSize ≠ size) (hpos : ¬ 0 < size) :
    b.changeBufferSize size =
      { heap := b.heap.delete b.buffer, buffer := b.buffer, bufferSize := size } := by
  unfold changeBufferSize
  rw [if_neg hne]
  simp only [if_neg hpos]
  cases b.buffer <;> simp

theorem bufferSize_changeBufferSize (b : HeapBuffer) (size : ℤ) :
    (b.changeBufferSize size).bufferSize = size := by
  by_cases hne : b.bufferSize = size
  · rwa [changeBufferSize_same hne]
  by_cases hpos : 0 < size
  · rw [changeBufferSize_grow hne hpos]
  · rw [changeBufferSize_empty hne hpos]

theorem buffer_grow (hne : b.bufferSize ≠ size) (hpos : 0 < size) :
    (b.changeBufferSize size).buffer = some b.heap.next := by
  rw [changeBufferSize_grow hne hpos]

/-- The buffer is null with no size or a live block of its size, and every other block was deleted
once. -/
structure Inv (b : HeapBuffer) : Prop where
  null : b.buffer = none → b.bufferSize = 0
  owned : b.Owned
  positive : b.buffer ≠ none → 0 < b.bufferSize
  others : b.heap.DeletedBut {p | b.buffer = some p}

theorem inv_start : Inv {} where
  null _ := rfl
  owned p hp := by cases hp
  positive h := absurd rfl h
  others q block hq := by cases hq

theorem Inv.length_content (h : Inv b) : b.content.length = b.bufferSize.toNat := by
  unfold content
  rcases hb : b.buffer with _ | p
  · simp [h.null hb]
  · obtain ⟨bytes, hp, hlen⟩ := h.owned p hb
    rw [hp.read, List.length_take]
    omega

theorem Inv.read_new (h : Inv b) (bs : List UInt8) (n : ℕ) :
    (b.heap.new bs).read b.buffer n = b.heap.read b.buffer n := by
  rcases hb : b.buffer with _ | p
  · rfl
  · obtain ⟨bytes, hp, -⟩ := h.owned p hb
    exact Heap.read_new_of_lt hp.lt bs n

/-- What is copied is the front of the content. -/
theorem Inv.read_min (h : Inv b) :
    b.heap.read b.buffer (min b.bufferSize size).toNat =
      b.content.take (min b.bufferSize.toNat size.toNat) := by
  unfold content
  rcases hb : b.buffer with _ | p
  · simp
  · obtain ⟨bytes, hp, hlen⟩ := h.owned p hb
    rw [hp.read, hp.read, List.take_take]
    congr 1
    omega

/-- The block a growing buffer has afterwards. -/
theorem Inv.holds_grow (h : Inv b) (hne : b.bufferSize ≠ size) (hpos : 0 < size) :
    (b.changeBufferSize size).heap.Holds b.heap.next
      (b.content.take (min b.bufferSize.toNat size.toNat) ++
        List.replicate (size.toNat - min b.bufferSize.toNat size.toNat) 0) := by
  have hlen : (b.content.take (min b.bufferSize.toNat size.toNat)).length =
      min b.bufferSize.toNat size.toNat := by
    rw [List.length_take, h.length_content]
    omega
  rw [changeBufferSize_grow hne hpos]
  dsimp only
  rw [h.read_new, h.read_min]
  have hnew := (b.heap.holds_new (List.replicate size.toNat 0)).write
    (b.content.take (min b.bufferSize.toNat size.toNat))
  rw [hlen, List.drop_replicate] at hnew
  rcases hb : b.buffer with _ | p
  · exact hnew
  · obtain ⟨bytes, hp, -⟩ := h.owned p hb
    exact hnew.delete_of_ne hp.lt.ne

theorem Inv.others_grow (h : Inv b) (hne : b.bufferSize ≠ size) (hpos : 0 < size) :
    (b.changeBufferSize size).heap.DeletedBut {b.heap.next} := by
  have hnew := (h.others.new (List.replicate size.toNat 0)).write b.heap.next
    ((b.heap.new (List.replicate size.toNat 0)).read b.buffer (min b.bufferSize size).toNat)
  rw [changeBufferSize_grow hne hpos]
  dsimp only
  rcases hb : b.buffer with _ | p <;> rw [hb] at hnew
  · exact hnew.mono fun q hq => by simpa using hq
  · obtain ⟨bytes, hp, -⟩ := h.owned p hb
    have hp' := (hp.new (List.replicate size.toNat 0)).write_of_ne hp.lt.ne'
      ((b.heap.new (List.replicate size.toNat 0)).read (some p) (min b.bufferSize size).toNat)
    refine (hnew.delete hp').mono fun q hq => ?_
    simp only [Set.mem_sdiff, Set.mem_insert_iff, Set.mem_ofPred_eq, Option.some.injEq,
      Set.mem_singleton_iff] at hq ⊢
    exact hq.1.resolve_right fun heq => hq.2 heq.symm

theorem Inv.changeBufferSize (h : Inv b) (hpos : 0 < size ∨ b.bufferSize = size) :
    Inv (b.changeBufferSize size) := by
  by_cases hne : b.bufferSize = size
  · rwa [changeBufferSize_same hne]
  have hpos : 0 < size := hpos.resolve_right hne
  have hbuffer := buffer_grow hne hpos
  have hsize := b.bufferSize_changeBufferSize size
  constructor
  case null =>
    intro hnull
    rw [hbuffer] at hnull
    cases hnull
  case owned =>
    intro p hp
    obtain rfl : b.heap.next = p := Option.some.inj (hbuffer.symm.trans hp)
    refine ⟨_, h.holds_grow hne hpos, ?_⟩
    rw [hsize, List.length_append, List.length_take, List.length_replicate, h.length_content]
    omega
  case positive =>
    intro _
    rwa [hsize]
  case others =>
    refine (h.others_grow hne hpos).mono fun q hq => ?_
    rw [Set.mem_singleton_iff] at hq
    rw [Set.mem_ofPred_eq, hbuffer, hq]

/-- A write of no more than the buffer has. -/
theorem Inv.write (h : Inv b) {bs : List Byte} (hlen : (bs.length : ℤ) ≤ b.bufferSize) :
    Inv { b with heap := b.heap.write b.buffer bs } where
  null := h.null
  positive := h.positive
  others := h.others.write b.buffer bs
  owned p hp := by
    have hp : b.buffer = some p := hp
    obtain ⟨bytes, hholds, hsize⟩ := h.owned p hp
    refine ⟨bs ++ bytes.drop bs.length, ?_, ?_⟩
    · dsimp only
      rw [hp]
      exact hholds.write bs
    · dsimp only
      rw [List.length_append, List.length_drop]
      omega

theorem Inv.setBuffer (h : Inv b) (buff : ℕ → Byte) (length : ℤ) :
    Inv (b.setBuffer buff length) := by
  unfold HeapBuffer.setBuffer
  split_ifs with hle
  · exact h
  · refine (h.changeBufferSize (.inl (by omega))).write ?_
    rw [Memory.length_load, bufferSize_changeBufferSize]
    omega

theorem Inv.zeroAllBytes (h : Inv b) : Inv b.zeroAllBytes := by
  unfold HeapBuffer.zeroAllBytes
  split_ifs with hnull
  · exact h
  · refine h.write ?_
    rw [List.length_replicate]
    omega

theorem Inv.step (h : Inv b) {c : Call} (hc : b.Careful c) : Inv (b.step c) := by
  cases c with
  | changeBufferSize size =>
    refine h.changeBufferSize ?_
    rcases Nat.eq_zero_or_pos size with rfl | hpos
    · exact .inr (by simpa using hc rfl)
    · exact .inl (by exact_mod_cast hpos)
  | setBuffer buff length => exact h.setBuffer buff length
  | zeroAllBytes => exact h.zeroAllBytes

/-- A call that is not careful deletes the block and keeps the pointer to it. -/
theorem Inv.not_owned_step (h : Inv b) {c : Call} (hc : ¬ b.Careful c) : ¬ (b.step c).Owned := by
  cases c with
  | changeBufferSize size =>
    obtain ⟨rfl, hne⟩ := Classical.not_imp.1 hc
    have hne' : b.bufferSize ≠ ((0 : ℕ) : ℤ) := by simpa using hne
    intro howned
    rcases hb : b.buffer with _ | p
    · exact hne (h.null hb)
    · have hempty : b.step (.changeBufferSize 0) = _ := changeBufferSize_empty hne' (by simp)
      rw [hempty, hb] at howned
      obtain ⟨bytes, hholds, -⟩ := howned p rfl
      exact b.heap.not_holds_delete p bytes hholds
  | setBuffer buff length => exact absurd trivial hc
  | zeroAllBytes => exact absurd trivial hc

theorem Inv.content_changeBufferSize (h : Inv b) (size : ℕ) :
    (b.changeBufferSize size).content =
      b.content.take (min b.bufferSize.toNat size) ++
        List.replicate (size - min b.bufferSize.toNat size) 0 := by
  have hlen := h.length_content
  by_cases hne : b.bufferSize = size
  · rw [changeBufferSize_same hne, hne, Int.toNat_natCast, min_self, Nat.sub_self,
      List.replicate_zero, List.append_nil, List.take_of_length_le (by omega)]
  by_cases hpos : 0 < (size : ℤ)
  · have hholds := h.holds_grow hne hpos
    rw [Int.toNat_natCast] at hholds
    rw [content, buffer_grow hne hpos, bufferSize_changeBufferSize, hholds.read, List.take_of_length_le]
    rw [List.length_append, List.length_take, List.length_replicate]
    omega
  · obtain rfl : size = 0 := by omega
    rw [content, changeBufferSize_empty hne hpos]
    simp

theorem Inv.keeps (h : Inv b) (c : Call) : b.Keeps c := by
  cases c with
  | changeBufferSize size => exact h.content_changeBufferSize size
  | setBuffer buff length => trivial
  | zeroAllBytes => trivial

/-- The destructor deletes the last block. -/
theorem Inv.destroy (h : Inv b) : b.destroy.heap.DeletedBut ∅ := by
  unfold HeapBuffer.destroy
  rcases hb : b.buffer with _ | p
  · have hsize := h.null hb
    have hothers := h.others
    rw [changeBufferSize_same hsize]
    exact hothers.mono fun q hq => by simp [hb] at hq
  · have hpos := h.positive (by simp [hb])
    obtain ⟨bytes, hholds, -⟩ := h.owned p hb
    rw [changeBufferSize_empty hpos.ne' (lt_irrefl 0), hb]
    refine (h.others.delete hholds).mono fun q hq => ?_
    simp only [hb, Set.mem_sdiff, Set.mem_ofPred_eq, Option.some.injEq, Set.mem_singleton_iff] at hq
    exact absurd hq.1.symm hq.2

section Forget

variable (b)

theorem buffer_of_holds {p : ℕ} {bytes : List Byte} (hb : b.buffer = some p)
    (hp : b.heap.Holds p bytes) : b.toFlexibleBuffer.buffer = .bytes bytes := by
  rw [Heap.Holds] at hp
  simp [toFlexibleBuffer, hb, hp]

theorem buffer_of_not_holds {p : ℕ} (hb : b.buffer = some p) (hp : ∀ bytes, ¬ b.heap.Holds p bytes) :
    b.toFlexibleBuffer.buffer = .dangling := by
  unfold toFlexibleBuffer
  simp only [hb]
  split
  · rename_i bytes hbytes
    exact absurd hbytes (hp bytes)
  · rfl

theorem read_eq_content (n : ℕ) :
    b.heap.read b.buffer n = b.toFlexibleBuffer.buffer.content.take n := by
  rcases hb : b.buffer with _ | p
  · simp [toFlexibleBuffer, hb, Block.content]
  by_cases hp : ∃ bytes, b.heap.Holds p bytes
  · obtain ⟨bytes, hp⟩ := hp
    rw [hp.read, b.buffer_of_holds hb hp, Block.content]
  · rw [not_exists] at hp
    rw [b.buffer_of_not_holds hb hp]
    unfold Heap.read
    split
    · rename_i bytes hbytes
      exact absurd hbytes (hp bytes)
    · simp [Block.content]

theorem toFlexibleBuffer_grow (h : ∀ p ∈ b.buffer, p < b.heap.next) (hne : b.bufferSize ≠ size)
    (hpos : 0 < size) :
    (b.changeBufferSize size).toFlexibleBuffer = b.toFlexibleBuffer.changeBufferSize size := by
  have hne' : b.toFlexibleBuffer.bufferSize ≠ size := hne
  rw [FlexibleBuffer.changeBufferSize, if_neg hne', changeBufferSize_grow hne hpos]
  set zeros : List Byte := List.replicate size.toNat 0
  set src := b.toFlexibleBuffer.buffer.content.take (min b.bufferSize size).toNat with hsrc
  have hread : (b.heap.new zeros).read b.buffer (min b.bufferSize size).toNat = src := by
    rw [hsrc, ← b.read_eq_content]
    rcases hb : b.buffer with _ | p
    · rfl
    · exact Heap.read_new_of_lt (h p hb) zeros _
  have hnew : (((b.heap.new zeros).write b.heap.next src).delete b.buffer).Holds b.heap.next
      (src ++ zeros.drop src.length) := by
    have hwrite := (b.heap.holds_new zeros).write src
    rcases hb : b.buffer with _ | p
    · exact hwrite
    · exact hwrite.delete_of_ne (h p hb).ne
  have hmin : (if size < b.toFlexibleBuffer.bufferSize then size
      else b.toFlexibleBuffer.bufferSize) = min b.bufferSize size := by
    show (if size < b.bufferSize then size else b.bufferSize) = _
    split_ifs <;> omega
  simp only [if_pos hpos, hmin, hread]
  refine congrArg (FlexibleBuffer.mk · size) ?_
  refine (buffer_of_holds ⟨_, some b.heap.next, size⟩ rfl hnew).trans ?_
  simp [Block.write, hsrc]

/-- A pointer that is not null points to a block, be it a deleted one. -/
theorem buffer_ne_null {p : ℕ} (hb : b.buffer = some p) : b.toFlexibleBuffer.buffer ≠ .null := by
  by_cases hp : ∃ bytes, b.heap.Holds p bytes
  · obtain ⟨bytes, hp⟩ := hp
    simp [b.buffer_of_holds hb hp]
  · simp [b.buffer_of_not_holds hb (not_exists.1 hp)]

theorem toFlexibleBuffer_empty (hne : b.bufferSize ≠ size) (hpos : ¬ 0 < size) :
    (b.changeBufferSize size).toFlexibleBuffer = b.toFlexibleBuffer.changeBufferSize size := by
  have hne' : b.toFlexibleBuffer.bufferSize ≠ size := hne
  rw [FlexibleBuffer.changeBufferSize, if_neg hne', changeBufferSize_empty hne hpos]
  simp only [if_neg hpos]
  refine congrArg (FlexibleBuffer.mk · size) ?_
  rcases hb : b.buffer with _ | p
  · simp [toFlexibleBuffer, hb]
  · rw [if_neg (b.buffer_ne_null hb)]
    exact buffer_of_not_holds ⟨_, some p, size⟩ rfl (b.heap.not_holds_delete p)

/-- Without its blocks, the buffer is the one of the packer's model. -/
theorem toFlexibleBuffer_changeBufferSize (h : ∀ p ∈ b.buffer, p < b.heap.next) (size : ℤ) :
    (b.changeBufferSize size).toFlexibleBuffer = b.toFlexibleBuffer.changeBufferSize size := by
  by_cases hne : b.bufferSize = size
  · rw [changeBufferSize_same hne, FlexibleBuffer.changeBufferSize]
    exact (if_pos hne).symm
  by_cases hpos : 0 < size
  · exact b.toFlexibleBuffer_grow h hne hpos
  · exact b.toFlexibleBuffer_empty hne hpos

end Forget

/-- All is well exactly as long as no call shrinks a buffer that has bytes to none. -/
theorem sound_iff_careful (calls : List Call) : Sound calls ↔ Along step Careful {} calls := by
  have howned : (∀ pre, pre <+: calls → (exec step {} pre).Owned) ↔ Along step Careful {} calls :=
    along_iff_forall_exec (G := Owned) (Q := fun _ _ => True) (fun _ h => Inv.owned h)
      (fun _ _ h _ hc => Inv.step h hc) (fun _ _ h _ hc => Inv.not_owned_step h hc) inv_start
      (along_of_forall (fun _ _ => trivial) _ calls)
  rw [Sound, howned]
  refine and_iff_left_of_imp fun hcareful => ⟨?_, ?_⟩
  · exact along_mono (P := fun b c => Careful b c ∧ Inv b) (fun _ c h => h.2.keeps c)
      (along_invariant (fun _ _ h hc => h.step hc) inv_start hcareful)
  · exact (invariant (I := Inv) (P := Careful) (fun _ _ h hc => h.step hc) inv_start
      hcareful).destroy

/-- Shrunk to nothing and grown again, the buffer deletes its first block twice. -/
theorem not_sound_shrunk :
    ¬ Sound [.changeBufferSize 4, .changeBufferSize 0, .changeBufferSize 2] := by
  intro h
  have hblock : (exec step ({} : HeapBuffer)
      [.changeBufferSize 4, .changeBufferSize 0, .changeBufferSize 2]).destroy.heap.blocks[0]? =
        some ⟨[0, 0, 0, 0], 2⟩ := by decide
  exact absurd (h.2.2 0 _ hblock id) (by decide)

end HeapBuffer

end Elegance
