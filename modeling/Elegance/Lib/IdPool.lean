import Mathlib.Tactic

/-!
# Pools of ids

Ids are taken from a list of free ones, and a new one is made only when that list is empty. `Pool`
says that the ids made so far, those from `base` up to `next`, are each once either free or in use.
-/

/-- The ids in `[base, next)` are split between `free` and `used`, each of them in one place. -/
structure Pool (base next : ℤ) (free used : List ℤ) : Prop where
  nodup : (free ++ used).Nodup
  range : ∀ i ∈ free ++ used, base ≤ i ∧ i < next
  count : base + (free ++ used).length = next

namespace Pool

variable {base next i : ℤ} {free used used' : List ℤ}

theorem empty (base : ℤ) : Pool base base [] [] where
  nodup := .nil
  range := by simp
  count := by simp

theorem perm (h : Pool base next free used) (hp : used.Perm used') :
    Pool base next free used' where
  nodup := (hp.append_left free).nodup_iff.1 h.nodup
  range j hj := h.range j ((hp.append_left free).mem_iff.2 hj)
  count := by
    rw [← h.count, (hp.append_left free).length_eq]

/-- A free id is taken. -/
theorem take (h : Pool base next (i :: free) used) : Pool base next free (i :: used) := by
  have hp : (free ++ i :: used).Perm (i :: free ++ used) := List.perm_middle
  exact ⟨hp.nodup_iff.2 h.nodup, fun j hj => h.range j (hp.mem_iff.1 hj), by
    rw [hp.length_eq, h.count]⟩

/-- A new id is made. -/
theorem make (h : Pool base next [] used) : Pool base (next + 1) [] (next :: used) where
  nodup := by
    refine List.nodup_cons.2 ⟨fun hn => ?_, h.nodup⟩
    have := h.range next hn
    omega
  range j hj := by
    have hlen := h.count
    rcases List.mem_cons.1 hj with rfl | hj
    · omega
    · have := h.range j hj
      omega
  count := by
    have := h.count
    simp only [List.nil_append, List.length_cons] at this ⊢
    push_cast
    omega

/-- An id is given back. -/
theorem give (h : Pool base next free (i :: used)) : Pool base next (i :: free) used := by
  have hp : (free ++ i :: used).Perm (i :: free ++ used) := List.perm_middle
  exact ⟨hp.nodup_iff.1 h.nodup, fun j hj => h.range j (hp.mem_iff.2 hj), by
    rw [← hp.length_eq, h.count]⟩

theorem not_mem_used (h : Pool base next (i :: free) used) : i ∉ used := fun hi => by
  have := (List.nodup_cons.1 h.nodup).1
  exact this (List.mem_append_right _ hi)

theorem next_not_mem (h : Pool base next free used) : next ∉ used := fun hi => by
  have := h.range next (List.mem_append_right _ hi)
  omega

theorem nodup_used (h : Pool base next free used) : used.Nodup := (List.nodup_append.1 h.nodup).2.1

theorem length_used (h : Pool base next [] used) : base + (used.length : ℤ) = next := h.count

/-- Every id made is free or in use. -/
theorem mem_iff (h : Pool base next free used) : i ∈ free ++ used ↔ base ≤ i ∧ i < next := by
  refine ⟨h.range i, fun hi => ?_⟩
  have hsub : (free ++ used).toFinset ⊆ Finset.Ico base next := fun j hj => by
    rw [Finset.mem_Ico]
    exact h.range j (List.mem_toFinset.1 hj)
  have hcard : (Finset.Ico base next).card ≤ (free ++ used).toFinset.card := by
    rw [Int.card_Ico, List.toFinset_card_of_nodup h.nodup]
    have := h.count
    omega
  rw [← List.mem_toFinset, Finset.eq_of_subset_of_card_le hsub hcard, Finset.mem_Ico]
  exact hi

/-- With no id free, every id made is in use. -/
theorem mem_used (h : Pool base next [] used) (hi : base ≤ i) (hi' : i < next) : i ∈ used :=
  h.mem_iff.2 ⟨hi, hi'⟩

end Pool
