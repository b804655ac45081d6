import Elegance.Proofs.Framing

/-!
# Cutting a chunk in two

What `UnPack` makes of a chunk it makes of the two parts of it: the same `ManagerRecv` calls, and the
same entry (`unPack_append`), since both depend on the bytes held and the bytes that arrive alone.
-/

namespace Elegance

open CInt LengthPrefix

variable {H : HostLayout}

variable (H) in
/-- A map some calls of `UnPack` lead to. -/
def Reachable (m : NetIdToBufferMap) : Prop :=
  ∃ calls : List (NetworkID × Chunk), (unPackAll H .empty calls).final = .ok m

/-- The bytes of the package that is being received: `buffer[0..cur_read_size)`. -/
def held (m : NetIdToBufferMap) (netId : NetworkID) : List Byte :=
  match m.find netId with
  | some c => c.buffer.buffer.content.take c.curReadSize.toNat
  | none => []

variable {m m' : NetIdToBufferMap} {netId : NetworkID}

/-- A run that got this far was tame. -/
theorem Reachable.cached (h : Reachable H m) (netId : NetworkID) :
    ∃ s, Cached H m netId s ∧ Tame H 4 s := by
  obtain ⟨calls, hcalls⟩ := h
  have htame : ∀ j, Tame H 4 (fed j calls) := by
    intro j
    by_contra hn
    obtain ⟨hstop, -⟩ := unPackAll_empty_of_not_tame hn
    rw [hcalls] at hstop
    cases hstop
  obtain ⟨m', hfinal, hcached, -⟩ := unPackAll_empty_of_tame htame
  rw [hcalls, Except.ok.injEq] at hfinal
  subst hfinal
  exact ⟨_, hcached netId, htame netId⟩

theorem Holds.held_eq {p : List Byte} {cap : ℕ} (h : Holds H m netId p cap) :
    held m netId = p := by
  rcases h with ⟨hnone, rfl, -⟩ | ⟨c, hc, hrep⟩
  · simp [held, hnone]
  · simp [held, hc, hrep.block, hrep.read, Block.content]

/-- An entry is determined by the bytes it holds and the size of its buffer. -/
theorem Rep.unique {c c' : CacheBuffer} {p : List Byte} {cap : ℕ} (h : Rep H c p cap)
    (h' : Rep H c' p cap) : c = c' := by
  obtain ⟨⟨buffer, size⟩, read⟩ := c
  obtain ⟨⟨buffer', size'⟩, read'⟩ := c'
  have hblock := h.block.trans h'.block.symm
  have hsize := h.size.trans h'.size.symm
  have hread := h.read.trans h'.read.symm
  simp_all

/-- The entry exists once a call has returned. -/
theorem isSome_of_unPackFuel : ∀ {fuel : ℕ} {m : NetIdToBufferMap} {d : List Byte},
    (unPackFuel H netId fuel m d).final = .ok m' → (m'.find netId).isSome
  | 0, m, d, h => by simp [unPackFuel] at h
  | fuel + 1, m, d, h => by
    simp only [unPackFuel] at h
    split_ifs at h with hin hmore
    · exact isSome_of_unPackFuel h
    · simp only [Except.ok.injEq] at h
      simp [← h]

theorem Cached.find_eq {s : List Byte} (h : Cached H m netId s) (h' : Cached H m' netId s)
    (hm : (m.find netId).isSome) (hm' : (m'.find netId).isSome) :
    m.find netId = m'.find netId := by
  rcases h with ⟨hnone, -⟩ | ⟨c, hc, hrep⟩
  · simp [hnone] at hm
  rcases h' with ⟨hnone, -⟩ | ⟨c', hc', hrep'⟩
  · simp [hnone] at hm'
  rw [hc, hc', hrep.unique hrep']

/-- Whether headers are announced well depends on what is held alone. -/
theorem announced_append (s t : List Byte) :
    Announced H (s ++ t) ↔ Announced H ((handedOver H s).2 ++ t) := by
  have hrest : (handedOver H (s ++ t)).2 = (handedOver H ((handedOver H s).2 ++ t)).2 := by
    rw [handedOver_append]
  simp only [Announced, hrest]

/-- From any reachable map, a chunk and its two parts make the same `ManagerRecv` calls and leave the
same entries. -/
theorem unPack_append (H : HostLayout) (hm : Reachable H m) (netId : NetworkID) {a b : List Byte}
    (ha : a ≠ []) (hb : b ≠ []) (hab : Announced H (held m netId ++ (a ++ b))) :
    ∃ m₁ m₂ m₃, (unPack H m netId a).final = .ok m₁ ∧ (unPack H m₁ netId b).final = .ok m₂ ∧
      (unPack H m netId (a ++ b)).final = .ok m₃ ∧ (∀ j, m₃.find j = m₂.find j) ∧
      ∀ j, managerRecvs j (unPack H m netId (a ++ b)).events =
        managerRecvs j (unPack H m netId a).events ++
          managerRecvs j (unPack H m₁ netId b).events := by
  obtain ⟨s, hs, -⟩ := hm.cached netId
  rw [Holds.held_eq hs, ← announced_append] at hab
  have htame : Tame H 4 (s ++ (a ++ b)) := tame_of_announced H hab
  have htame' : Tame H 4 (s ++ a ++ b) := by rwa [List.append_assoc]
  have hfirst : Tame H 4 (s ++ a) := tame_prefix htame'
  obtain ⟨m₁, hfinal₁, hs₁, hothers₁, hrecvs₁, -⟩ := unPack_cached hs ha hfirst
  obtain ⟨m₂, hfinal₂, hs₂, hothers₂, hrecvs₂, -⟩ := unPack_cached hs₁ hb htame'
  obtain ⟨m₃, hfinal₃, hs₃, hothers₃, hrecvs₃, -⟩ := unPack_cached hs (by simp [ha]) htame
  refine ⟨m₁, m₂, m₃, hfinal₁, hfinal₂, hfinal₃, fun j => ?_, fun j => ?_⟩
  · by_cases hj : j = netId
    · subst hj
      rw [List.append_assoc] at hs₂
      exact hs₃.find_eq hs₂ (isSome_of_unPackFuel hfinal₃) (isSome_of_unPackFuel hfinal₂)
    · rw [hothers₃ j hj, hothers₂ j hj, hothers₁ j hj]
  · rw [hrecvs₁, hrecvs₂, hrecvs₃]
    split_ifs
    · have hrest : (handedOver H (s ++ a)).2 = (handedOver H ((handedOver H s).2 ++ a)).2 := by
        rw [handedOver_append]
      rw [← List.append_assoc, packages_append, hrest]
    · rfl

/-- Two packages, the first one empty, cut inside a header. -/
theorem unPack_append_cut :
    ∃ m₁ m₂ m₃, (unPack littleEndian .empty 1 [0, 0, 0, 0, 1]).final = .ok m₁ ∧
      (unPack littleEndian m₁ 1 [0, 0, 0, 7]).final = .ok m₂ ∧
      (unPack littleEndian .empty 1 [0, 0, 0, 0, 1, 0, 0, 0, 7]).final = .ok m₃ ∧
      (∀ j, m₃.find j = m₂.find j) ∧
      ∀ j, managerRecvs j (unPack littleEndian .empty 1 [0, 0, 0, 0, 1, 0, 0, 0, 7]).events =
        managerRecvs j (unPack littleEndian .empty 1 [0, 0, 0, 0, 1]).events ++
          managerRecvs j (unPack littleEndian m₁ 1 [0, 0, 0, 7]).events :=
  unPack_append littleEndian ⟨[], rfl⟩ 1 (by simp) (by simp) (by decide +kernel)

end Elegance
