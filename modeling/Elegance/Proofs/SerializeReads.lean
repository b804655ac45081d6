import Elegance.SerializeReads

/-!
# Which packages are read inside their bounds

The two bytes of the name's length are read of any package, and as many bytes as they say before the
length of the package is looked at; the object behind the name is inside where the name is
(`lt_of_mem_objectReads`). So the reads stay in a package exactly when it has its name
(`inBounds_iff_hasName`).
-/

namespace Elegance

open CInt StdString

namespace SerializeNetworkManager

variable {H : HostLayout} {declared : List GeneratedClass} {memory : ℕ → Byte} {length : ℤ}

/-- The object is what follows the name. -/
theorem lt_of_mem_objectReads (hpos : 0 < nameLen H memory)
    (hname : sizeofShort + nameLen H memory ≤ length) (hle : length ≤ intMax) {offset : ℕ}
    (h : offset ∈ objectReads H declared memory length) : (offset : ℤ) < length := by
  rw [sizeofShort] at hname
  have hlen : wrap32 (length - sizeofShort - nameLen H memory) =
      length - sizeofShort - nameLen H memory := by
    rw [sizeofShort]
    exact wrap32_of_range (by rw [intMin]; omega) (by omega)
  unfold objectReads at h
  split at h
  · cases h
  · rw [hlen, sizeofShort] at h
    dsimp only at h
    split_ifs at h
    · cases h
    have hend := (List.mem_range'_1.1 h).2
    omega

/-- The parser stays in bounds exactly when the package has the name it announces. -/
theorem inBounds_iff_hasName (H : HostLayout) (declared : List GeneratedClass)
    (memory : ℕ → Byte) (hle : length ≤ intMax) :
    Accesses.InBounds (accesses H declared memory length) length ↔ HasName H memory length := by
  unfold accesses HasName Accesses.InBounds
  dsimp only
  split_ifs with hskip
  · constructor
    · intro h
      have hlast := h.1 1 (by decide)
      rw [sizeofShort]
      exact ⟨by omega, fun hpos hlt => by omega⟩
    · intro h
      refine ⟨fun offset hoffset => ?_, by simp⟩
      have := List.mem_range.1 hoffset
      omega
  · rw [not_or, not_le, not_le] at hskip
    obtain ⟨hpos, hlt⟩ := hskip
    constructor
    · intro h
      have hread := h.1 (sizeofShort + (nameLen H memory).toNat - 1) (by
        refine List.mem_append_left _ (List.mem_append_right _ (List.mem_range'_1.2 ?_))
        rw [sizeofShort]
        omega)
      rw [sizeofShort] at hread ⊢
      exact ⟨by omega, fun _ _ => by omega⟩
    · intro h
      have hname := h.2 hpos hlt
      refine ⟨fun offset hoffset => ?_, fun index hindex => ?_⟩
      · rcases List.mem_append.1 hoffset with hoffset | hoffset
        · rcases List.mem_append.1 hoffset with hoffset | hoffset
          · have := List.mem_range.1 hoffset
            omega
          · have := (List.mem_range'_1.1 hoffset).2
            omega
        · exact lt_of_mem_objectReads hpos hname hle hoffset
      · rcases List.mem_append.1 hindex with hindex | hindex
        · have := List.mem_range.1 hindex
          omega
        · rw [List.mem_singleton.1 hindex]
          omega

theorem inBounds_iff_hasName_noClass :
    Accesses.InBounds (accesses littleEndian [] (fun _ => 1) 259) 259 ↔
      HasName littleEndian (fun _ => 1) 259 :=
  inBounds_iff_hasName _ _ _ (by decide)

/-- The framer delivers a package of two bytes that announces a name of five. -/
theorem not_inBounds_short :
    managerRecvs 1 (unPackAll littleEndian .empty
        [(1, ⟨[2, 0, 0, 0, 5, 0], by decide, by decide⟩)]).events = [([5, 0], 2)] ∧
      ¬ Accesses.InBounds
        (accesses littleEndian [] (fun offset => if offset = 0 then 5 else 0) 2) 2 :=
  ⟨by decide, fun h => absurd (h.1 6 (by decide)) (by decide)⟩

/-- A package that is not read inside its bounds leaves `createFrom` without a result. -/
theorem createFrom_of_not_hasName (behind : Behind) (fuel : ℕ) (hpos : 0 ≤ length)
    (h : ¬ HasName littleEndian memory length) :
    createFrom behind declared fuel (Memory.load memory 0 length.toNat) length = none := by
  have hdata : ((Memory.load memory 0 length.toNat).length : ℤ) = length := by
    rw [Memory.length_load, Int.toNat_of_nonneg hpos]
  rw [createFrom]
  by_cases hshort : (Memory.load memory 0 length.toNat).length < sizeofShort
  · rw [if_pos hshort]
  have hlong : (sizeofShort : ℤ) ≤ length := by omega
  have hfront : (Memory.load memory 0 length.toNat).take sizeofShort =
      Memory.load memory 0 sizeofShort := by
    obtain ⟨k, hk⟩ := Nat.exists_eq_add_of_le (not_lt.1 hshort)
    rw [Memory.length_load] at hk
    rw [hk, Memory.load_add, List.take_left' (Memory.length_load memory 0 sizeofShort)]
  obtain ⟨hname, hmax, hover⟩ : 0 < nameLen littleEndian memory ∧
      nameLen littleEndian memory < serializeClassNameMaxLen ∧
        length < sizeofShort + nameLen littleEndian memory := by
    by_contra hnot
    refine h ⟨hlong, fun h₁ h₂ => ?_⟩
    by_contra h₃
    exact hnot ⟨h₁, h₂, not_le.1 h₃⟩
  have hbounds : ¬ MemCopy.InBounds ⟨nameLen littleEndian memory,
      (Memory.load memory 0 length.toNat).length - sizeofShort, 0, serializeClassNameMaxLen⟩ := by
    rw [MemCopy.InBounds, hdata]
    dsimp only
    omega
  rw [if_neg hshort, hfront]
  dsimp only
  rw [← nameLen, if_neg (by omega), if_pos hbounds]

end SerializeNetworkManager

end Elegance
