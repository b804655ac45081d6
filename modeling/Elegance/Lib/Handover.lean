import Mathlib.Tactic

/-!
# Who was handed what

Things leave a queue one at a time and go to takers. `Handed` says that everything that left went to
one taker, once, and that the takers have nothing else; it is kept when something new leaves.
-/

namespace Handover

variable {τ ι : Type*} [DecidableEq τ]

/-- One taker has it, once, and no other does. -/
def OneTaker (got : ι → List τ) (x : τ) : Prop :=
  ∃ r, (got r).count x = 1 ∧ ∀ r', r' ≠ r → x ∉ got r'

/-- What left was handed to one taker each, and nothing else was. -/
structure Handed (left : List τ) (got : ι → List τ) : Prop where
  one : ∀ x ∈ left, OneTaker got x
  only : ∀ r, ∀ x ∈ got r, x ∈ left

variable {left xs : List τ} {got : ι → List τ} {r : ι} {x : τ}

theorem handed_nil : Handed ([] : List τ) fun _ : ι => [] where
  one x hx := by cases hx
  only r x hx := by cases hx

/-- Things that did not leave before go to one taker. -/
theorem Handed.give [DecidableEq ι] (h : Handed left got) (hnodup : xs.Nodup) (hfresh : ∀ x ∈ xs, x ∉ left) :
    Handed (left ++ xs) (Function.update got r (got r ++ xs)) := by
  have hnot : ∀ x ∈ xs, ∀ r', x ∉ got r' := fun x hx r' hmem => hfresh x hx (h.only r' x hmem)
  constructor
  · intro x hx
    rcases List.mem_append.1 hx with hx | hx
    · obtain ⟨r₁, hcount, hother⟩ := h.one x hx
      have hxs : x ∉ xs := fun hxs => hfresh x hxs hx
      refine ⟨r₁, ?_, fun r' hr' => ?_⟩
      · by_cases hr : r₁ = r
        · subst hr
          rw [Function.update_self, List.count_append, hcount, List.count_eq_zero_of_not_mem hxs]
        · rw [Function.update_of_ne hr, hcount]
      · by_cases hr : r' = r
        · subst hr
          rw [Function.update_self, List.mem_append]
          exact fun hmem => hmem.elim (hother r' hr') hxs
        · rw [Function.update_of_ne hr]
          exact hother r' hr'
    · refine ⟨r, ?_, fun r' hr' => ?_⟩
      · rw [Function.update_self, List.count_append, List.count_eq_zero_of_not_mem (hnot x hx r),
          List.count_eq_one_of_mem hnodup hx]
      · rw [Function.update_of_ne hr']
        exact hnot x hx r'
  · intro r' x hx
    by_cases hr : r' = r
    · subst hr
      rw [Function.update_self] at hx
      exact List.mem_append.2 ((List.mem_append.1 hx).imp_left (h.only r' x))
    · rw [Function.update_of_ne hr] at hx
      exact List.mem_append_left _ (h.only r' x hx)

/-- Nobody has what did not leave. -/
theorem Handed.not_oneTaker (h : Handed left got) (hx : x ∉ left) : ¬ OneTaker got x := by
  rintro ⟨r, hcount, -⟩
  have hmem : x ∈ got r := List.count_pos_iff.1 (by omega)
  exact hx (h.only r x hmem)

end Handover
