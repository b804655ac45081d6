import Mathlib.Tactic

/-!
# Recursive mutexes

A mutex that its owner may lock again, and has to unlock as often. `heldBy` counts how often a
thread has it locked; a thread that does not own it has no effect on it.
-/

/-- A mutex that is locked has been locked once, and `again` times by the same thread. -/
inductive RecursiveMutex (τ : Type*) where
  | free
  | held (owner : τ) (again : ℕ)
  deriving DecidableEq, Repr

namespace RecursiveMutex

variable {τ : Type*} [DecidableEq τ]

/-- A thread may lock it without waiting. -/
def Available (m : RecursiveMutex τ) (t : τ) : Prop :=
  match m with
  | free => True
  | held owner _ => owner = t

instance (m : RecursiveMutex τ) (t : τ) : Decidable (m.Available t) :=
  match m with
  | free => inferInstanceAs (Decidable True)
  | held owner _ => inferInstanceAs (Decidable (owner = t))

def lock (m : RecursiveMutex τ) (t : τ) : RecursiveMutex τ :=
  match m with
  | free => held t 0
  | held owner again => if owner = t then held owner (again + 1) else m

def unlock (m : RecursiveMutex τ) (t : τ) : RecursiveMutex τ :=
  match m with
  | held owner 0 => if owner = t then free else m
  | held owner (again + 1) => if owner = t then held owner again else m
  | free => m

def heldBy (m : RecursiveMutex τ) (t : τ) : ℕ :=
  match m with
  | free => 0
  | held owner again => if owner = t then again + 1 else 0

variable {m : RecursiveMutex τ} {t u : τ}

@[simp]
theorem heldBy_free (t : τ) : (free : RecursiveMutex τ).heldBy t = 0 := rfl

theorem heldBy_lock_self (h : m.Available t) : (m.lock t).heldBy t = m.heldBy t + 1 := by
  cases m with
  | free => simp [lock, heldBy]
  | held owner again =>
    obtain rfl : owner = t := h
    simp [lock, heldBy]

theorem heldBy_lock_of_ne (h : m.Available t) (hne : u ≠ t) : (m.lock t).heldBy u = m.heldBy u := by
  cases m with
  | free => simp [lock, heldBy, hne.symm]
  | held owner again =>
    obtain rfl : owner = t := h
    simp [lock, heldBy, hne.symm]

theorem heldBy_unlock_self (m : RecursiveMutex τ) (t : τ) :
    (m.unlock t).heldBy t = m.heldBy t - 1 := by
  cases m with
  | free => rfl
  | held owner again =>
    by_cases h : owner = t <;> cases again <;> simp [unlock, heldBy, h]

theorem heldBy_unlock_of_ne (m : RecursiveMutex τ) (hne : u ≠ t) :
    (m.unlock t).heldBy u = m.heldBy u := by
  cases m with
  | free => rfl
  | held owner again =>
    by_cases h : owner = t <;> cases again <;> simp [unlock, heldBy, h, hne.symm]

end RecursiveMutex
