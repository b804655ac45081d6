import Mathlib.Tactic

/-!
# Calls that open and close

The calls that open something (`true`) and close it (`false`), in the order they come in: they
`Alternates` when each call is of the other kind than the one before and the first one opens.
-/

namespace Brackets

/-- They open and close in turns, starting with an opening. -/
structure Alternates (calls : List Bool) : Prop where
  turns : calls.IsChain (· ≠ ·)
  opens : calls.head? ≠ some false

/-- It was opened and not closed again. -/
def IsOpen (calls : List Bool) : Prop := calls.getLast? = some true

variable {calls : List Bool}

theorem alternates_nil : Alternates [] := ⟨.nil, by simp⟩

theorem not_isOpen_nil : ¬ IsOpen [] := by simp [IsOpen]

/-- What is open closes next, and what is not opens. -/
theorem alternates_append_singleton (call : Bool) :
    Alternates (calls ++ [call]) ↔ Alternates calls ∧ (call = true ↔ ¬ IsOpen calls) := by
  have hturns : (calls ++ [call]).IsChain (· ≠ ·) ↔
      calls.IsChain (· ≠ ·) ∧ ∀ last ∈ calls.getLast?, last ≠ call := by
    simp [List.isChain_append]
  rcases hlast : calls.getLast? with _ | last
  · obtain rfl := List.getLast?_eq_none_iff.1 hlast
    constructor
    · rintro ⟨-, hopens⟩
      refine ⟨alternates_nil, fun _ => not_isOpen_nil, fun _ => ?_⟩
      simpa using hopens
    · rintro ⟨-, hcall⟩
      rw [hcall.2 not_isOpen_nil]
      exact ⟨.singleton _, by simp⟩
  · have hhead : (calls ++ [call]).head? = calls.head? := by
      cases calls with
      | nil => cases hlast
      | cons => rfl
    have hother : last ≠ call ↔ (call = true ↔ ¬ IsOpen calls) := by
      rw [IsOpen, hlast]
      cases last <;> cases call <;> simp
    rw [hlast] at hturns
    constructor
    · rintro ⟨hchain, hopens⟩
      exact ⟨⟨(hturns.1 hchain).1, hhead ▸ hopens⟩, hother.1 ((hturns.1 hchain).2 _ rfl)⟩
    · rintro ⟨⟨hchain, hopens⟩, hcall⟩
      refine ⟨hturns.2 ⟨hchain, fun _ hmem => ?_⟩, hhead ▸ hopens⟩
      obtain rfl := Option.some.inj hmem
      exact hother.2 hcall

theorem isOpen_append_singleton (call : Bool) : IsOpen (calls ++ [call]) ↔ call = true := by
  simp [IsOpen]

end Brackets
