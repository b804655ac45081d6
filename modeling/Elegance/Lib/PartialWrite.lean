import Mathlib.Tactic

/-!
# Writes to a stream

A write of a piece of data fails, or the stream takes a front part of the piece. The stream is
`Intact` while it holds just the pieces of the writes that did not fail; a piece that is not taken
whole leaves it `Behind` for good.
-/

namespace PartialWrite

variable {β : Type*}

/-- What the stream took, and the pieces of the writes that did not fail. -/
structure Log (β : Type*) where
  taken : List β := []
  pieces : List (List β) := []
  deriving DecidableEq, Repr

namespace Log

/-- A write that fails, or of which so many items are taken. -/
def write (log : Log β) (piece : List β) : Option ℕ → Log β
  | none => log
  | some count => ⟨log.taken ++ piece.take count, log.pieces ++ [piece]⟩

/-- Writes of several pieces that all end alike. -/
def writeAll (log : Log β) (pieces : List (List β)) (outcome : Option ℕ) : Log β :=
  pieces.foldl (fun log piece => log.write piece outcome) log

def Intact (log : Log β) : Prop := log.taken = log.pieces.flatten

instance [DecidableEq β] (log : Log β) : Decidable log.Intact :=
  inferInstanceAs (Decidable (_ = _))

def Behind (log : Log β) : Prop := log.taken.length < log.pieces.flatten.length

theorem pieces_writeAll (log : Log β) (pieces : List (List β)) (outcome : Option ℕ) :
    (log.writeAll pieces outcome).pieces =
      log.pieces ++ if outcome.isSome then pieces else [] := by
  induction pieces generalizing log with
  | nil => simp [writeAll]
  | cons piece pieces ih =>
    rw [writeAll, List.foldl_cons, ← writeAll, ih]
    cases outcome <;> simp [write]

variable {log : Log β} {piece : List β} {outcome : Option ℕ}

theorem Behind.not_intact (h : log.Behind) : ¬ log.Intact := by
  intro hintact
  rw [Behind, hintact] at h
  omega

theorem Intact.write (h : log.Intact) (hwhole : ∀ count ∈ outcome, piece.length ≤ count) :
    (log.write piece outcome).Intact := by
  rcases outcome with _ | count
  · exact h
  · simp only [Intact, Log.write, List.flatten_append, List.flatten_singleton]
    rw [h, List.take_of_length_le (hwhole count rfl)]

theorem Intact.behind (h : log.Intact) {count : ℕ} (hshort : count < piece.length) :
    (log.write piece (some count)).Behind := by
  simp only [Behind, Log.write, List.flatten_append, List.flatten_singleton, List.length_append,
    List.length_take]
  rw [h]
  omega

theorem Behind.write (h : log.Behind) : (log.write piece outcome).Behind := by
  rcases outcome with _ | count
  · exact h
  · simp only [Behind, Log.write, List.flatten_append, List.flatten_singleton, List.length_append,
      List.length_take] at h ⊢
    omega

theorem Behind.writeAll (pieces : List (List β)) (h : log.Behind) :
    (log.writeAll pieces outcome).Behind := by
  induction pieces generalizing log with
  | nil => exact h
  | cons piece pieces ih => exact ih h.write

/-- An intact stream stays intact exactly if every piece that is taken at all is taken whole. -/
theorem intact_writeAll_iff : ∀ {pieces : List (List β)} {log : Log β}, log.Intact →
    ((log.writeAll pieces outcome).Intact ↔
      ∀ piece ∈ pieces, ∀ count ∈ outcome, piece.length ≤ count)
  | [], _, h => iff_of_true h (by simp)
  | piece :: pieces, log, h => by
    rw [List.forall_mem_cons]
    by_cases hwhole : ∀ count ∈ outcome, piece.length ≤ count
    · rw [and_iff_right hwhole]
      exact intact_writeAll_iff (h.write hwhole)
    · push Not at hwhole
      obtain ⟨count, rfl, hshort⟩ := hwhole
      refine iff_of_false ?_ fun hall => absurd (hall.1 count rfl) (not_le.2 hshort)
      exact (Behind.writeAll pieces (h.behind hshort)).not_intact

end Log

end PartialWrite
