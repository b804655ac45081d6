import Mathlib.Tactic

/-!
# What is in hand

Finitely many owners have at most one thing each in hand. `held` lists these things; where one owner
takes, gives away or exchanges a thing, `held_perm` says what the list gains and loses.
-/

namespace Holders

variable {α : Type*} {n : ℕ}

/-- The things in hand. -/
def held (hand : Fin n → Option α) : List α := (List.finRange n).filterMap hand

variable {hand hand' : Fin n → Option α} {i : Fin n} {a : α}

theorem mem_held : a ∈ held hand ↔ ∃ i, hand i = some a := by
  simp [held]

/-- What `i` has, and what the others have. -/
theorem held_split (hand : Fin n → Option α) (i : Fin n) :
    (held hand).Perm ((hand i).toList ++ ((List.finRange n).erase i).filterMap hand) := by
  have hperm := (List.perm_cons_erase (List.mem_finRange i)).filterMap hand
  rw [List.filterMap_cons] at hperm
  rw [held]
  rcases hi : hand i with _ | a <;> simpa [hi] using hperm

/-- No two owners have the same thing where nothing is listed twice. -/
theorem held_inj (h : (held hand).Nodup) {j : Fin n} (hi : hand i = some a) (hj : hand j = some a) :
    i = j := by
  by_contra hne
  have hnodup := (held_split hand i).nodup_iff.1 h
  rw [hi, Option.toList_some, List.singleton_append, List.nodup_cons] at hnodup
  refine hnodup.1 (List.mem_filterMap.2 ⟨j, ?_, hj⟩)
  exact (List.mem_erase_of_ne (Ne.symm hne)).2 (List.mem_finRange j)

/-- Only the hand of `i` changes. -/
theorem held_perm (h : ∀ j ≠ i, hand' j = hand j) :
    (held hand' ++ (hand i).toList).Perm (held hand ++ (hand' i).toList) := by
  have hrest : ((List.finRange n).erase i).filterMap hand' =
      ((List.finRange n).erase i).filterMap hand := by
    refine List.filterMap_congr fun j hj => h j fun hji => ?_
    exact (List.nodup_finRange n).not_mem_erase (hji ▸ hj)
  have hnew := held_split hand' i
  rw [hrest] at hnew
  refine (hnew.append_right _).trans (List.Perm.trans ?_ ((held_split hand i).append_right _).symm)
  refine List.perm_append_comm.trans ?_
  rw [List.append_assoc]
  exact List.perm_append_comm.append_left _

/-- The owner takes a thing. -/
theorem held_take (h : ∀ j ≠ i, hand' j = hand j) (hi : hand i = none) (ha : hand' i = some a) :
    (held hand').Perm (a :: held hand) := by
  have hperm := held_perm h
  rw [hi, ha] at hperm
  simpa using hperm.trans List.perm_append_comm

/-- The owner gives it away. -/
theorem held_give (h : ∀ j ≠ i, hand' j = hand j) (ha : hand i = some a) (hi : hand' i = none) :
    (held hand).Perm (a :: held hand') :=
  held_take (fun j hj => (h j hj).symm) hi ha

/-- The owner keeps what it has. -/
theorem held_keep (h : ∀ j ≠ i, hand' j = hand j) (hi : hand' i = hand i) :
    held hand' = held hand := by
  have heq : hand' = hand := funext fun j => by
    by_cases hj : j = i
    · rw [hj, hi]
    · exact h j hj
  rw [heq]

end Holders
