import Mathlib.Tactic
import Mathlib.Logic.Relation

/-!
# Lock orders

Threads that wait for locks and hold locks: `WaitsFor` leads from a thread to another that holds
what it waits for. Where the locks can be ranked so that a thread only waits for one above all it
holds, no thread waits for itself through others (`acyclic_of_rank`).
-/

namespace LockOrder

variable {τ κ : Type*} (wants : τ → Option κ) (holds : τ → κ → Prop)

/-- `t` waits for a lock that another thread `u` holds. -/
def WaitsFor (t u : τ) : Prop := u ≠ t ∧ ∃ l, wants t = some l ∧ holds u l

/-- No cycle of threads each waits for a lock of the next. -/
def Acyclic : Prop := ∀ t, ¬ Relation.TransGen (WaitsFor wants holds) t t

variable {wants holds}

section Rank

variable {rank : κ → ℕ}
  (h : ∀ t u l l', u ≠ t → holds t l → wants t = some l' → holds u l' → rank l < rank l')

include h

theorem rank_lt_of_waitsFor {t u v : τ} (htu : WaitsFor wants holds t u)
    (huv : WaitsFor wants holds u v) : (wants t).elim 0 rank < (wants u).elim 0 rank := by
  obtain ⟨-, l, hl, hhold⟩ := htu
  obtain ⟨hne, l', hl', hhold'⟩ := huv
  rw [hl, hl']
  exact h u v l l' hne hhold hl' hhold'

theorem rank_lt_of_transGen {t u v : τ} (hc : Relation.TransGen (WaitsFor wants holds) t u)
    (huv : WaitsFor wants holds u v) : (wants t).elim 0 rank < (wants u).elim 0 rank := by
  induction hc generalizing v with
  | single htu => exact rank_lt_of_waitsFor h htu huv
  | tail _ htu ih => exact (ih htu).trans (rank_lt_of_waitsFor h htu huv)

end Rank

/-- Locks that every blocked thread takes in the order of their ranks are never waited for in a
cycle. -/
theorem acyclic_of_rank (rank : κ → ℕ)
    (h : ∀ t u l l', u ≠ t → holds t l → wants t = some l' → holds u l' → rank l < rank l') :
    Acyclic wants holds := by
  intro t hc
  obtain ⟨u, hw, -⟩ := Relation.TransGen.head'_iff.1 hc
  exact absurd (rank_lt_of_transGen h hc hw) (lt_irrefl _)

end LockOrder
