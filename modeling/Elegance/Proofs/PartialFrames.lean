import Elegance.Proofs.Framing

/-!
# The cache of partial frames

What `UnPack` keeps between two calls, against all the bytes a net id has received
(`unPackAll_partialFrame`).
-/

namespace Elegance

open CInt LengthPrefix

variable {H : HostLayout} {c : CacheBuffer} {p s : List Byte} {cap : ℕ}

theorem handedOver_suffix (s : List Byte) : (handedOver H s).2 <:+ s :=
  (fixHead H).decode_suffix _ s

theorem Rep.take_content (h : Rep H c p cap) :
    c.buffer.buffer.content.take c.curReadSize.toNat = p := by
  rw [h.block, h.read, Int.toNat_natCast, Block.content, List.take_left' rfl]

theorem Rep.drop_content (h : Rep H c p cap) : c.buffer.buffer.content.drop c.curReadSize.toNat =
    List.replicate (c.buffer.bufferSize - c.curReadSize).toNat 0 := by
  rw [h.block, h.size, h.read, Int.toNat_natCast, Block.content, List.drop_left' rfl,
    ← Nat.cast_sub h.fits, Int.toNat_natCast]

/-- The header of the package that is being received is one of those announced. -/
theorem Rep.pending (h : Rep H c (handedOver H s).2 cap) (ha : Announced H s)
    (hread : 4 ≤ c.curReadSize) : c.curReadSize < 4 + packageLength H c.buffer ∨
      packageLength H c.buffer = 0 ∧ c.curReadSize = 4 := by
  have hp : 4 ≤ (handedOver H s).2.length := by
    rw [h.read] at hread
    exact_mod_cast hread
  obtain ⟨n, hn⟩ := Option.isSome_iff_exists.1 (ha hp)
  have hlength : packageLength H c.buffer = n := by
    rw [packageLength_bytes h.block hp, ← (fixHead_len_some H hn).1]
    rfl
  rw [h.read, hlength]
  have := h.length_lt_or hp hn
  omega

theorem Rep.partialFrame (h : Rep H c (handedOver H s).2 (4 + longestPackage H s))
    (ha : Announced H s) : PartialFrame H c s where
  bufferSize := by
    rw [h.size]
    push_cast
    omega
  nonneg := by
    rw [h.read]
    exact Int.natCast_nonneg _
  fits := by
    rw [h.read, h.size]
    exact_mod_cast h.fits
  received := by
    rw [h.read]
    exact_mod_cast (handedOver_suffix s).length_le
  read := by
    rw [h.take_content, h.read, Int.toNat_natCast, List.rtake]
    exact List.suffix_iff_eq_drop.1 (handedOver_suffix s)
  zeros := h.drop_content
  pending := h.pending ha

/-- Over any interleaving of calls, as long as every completed header announces a length in
`0..INT_MAX-4`, each entry is the partial frame of what its net id has received. -/
theorem unPackAll_partialFrame (H : HostLayout) (calls : List (NetworkID × Chunk))
    (ha : ∀ id, Announced H (fed id calls)) :
    ∃ m, (unPackAll H .empty calls).final = .ok m ∧
      ∀ id c, m.find id = some c → PartialFrame H c (fed id calls) := by
  obtain ⟨m, hfinal, hcached, -⟩ :=
    unPackAll_empty_of_tame fun id => tame_of_announced H (ha id)
  refine ⟨m, hfinal, fun id c hc => ?_⟩
  rcases hcached id with ⟨hnone, -⟩ | ⟨c', hc', hrep⟩
  · simp [hnone] at hc
  · rw [hc, Option.some.injEq] at hc'
    subst hc'
    exact hrep.partialFrame (ha id)

/-- A package of two bytes cut behind its first, with an empty package for another net id. -/
theorem unPackAll_partialFrame_two :
    ∃ m, (unPackAll littleEndian .empty
        [(1, ⟨[2, 0, 0], by decide, by decide⟩), (2, ⟨[0, 0, 0, 0], by decide, by decide⟩),
          (1, ⟨[0, 7], by decide, by decide⟩)]).final = .ok m ∧
      ∀ id c, m.find id = some c → PartialFrame littleEndian c (fed id
        [(1, ⟨[2, 0, 0], by decide, by decide⟩), (2, ⟨[0, 0, 0, 0], by decide, by decide⟩),
          (1, ⟨[0, 7], by decide, by decide⟩)]) := by
  refine unPackAll_partialFrame littleEndian _ fun id => ?_
  by_cases h1 : id = 1
  · subst h1
    decide +kernel
  by_cases h2 : id = 2
  · subst h2
    decide +kernel
  · have hnil : fed id [(1, ⟨[2, 0, 0], by decide, by decide⟩),
        (2, ⟨[0, 0, 0, 0], by decide, by decide⟩), (1, ⟨[0, 7], by decide, by decide⟩)] = [] := by
      simp [fed, Ne.symm h1, Ne.symm h2]
    rw [hnil]
    decide +kernel

end Elegance
