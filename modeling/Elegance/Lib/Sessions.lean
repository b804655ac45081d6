import Mathlib.Tactic

/-!
# Sessions on one slot

A slot serves one session after another, and each is opened, goes on for any number of messages and
is closed. A word of such signs, each with the number of its session, is `Ended` where every session
in it is closed and `Open` where the last one is not; both are in order (`InOrder`), the later
sessions having the larger numbers.
-/

namespace Sessions

inductive Phase where
  | opened
  | received
  | closed
  deriving DecidableEq, Repr

/-- Session `c` from end to end, with `n` messages. -/
def session (c n : ℕ) : List (ℕ × Phase) :=
  (c, .opened) :: (List.replicate n (c, .received) ++ [(c, .closed)])

/-- The sessions one after another. -/
def sessions (l : List (ℕ × ℕ)) : List (ℕ × Phase) := l.flatMap fun s => session s.1 s.2

/-- A part, from the beginning, of sessions one after another. -/
def InOrder (w : List (ℕ × Phase)) : Prop :=
  ∃ l : List (ℕ × ℕ), l.Pairwise (·.1 < ·.1) ∧ w <+: sessions l

/-- Whole sessions with numbers below `b`. -/
def Ended (b : ℕ) (w : List (ℕ × Phase)) : Prop :=
  ∃ l : List (ℕ × ℕ), l.Pairwise (·.1 < ·.1) ∧ (∀ s ∈ l, s.1 < b) ∧ w = sessions l

/-- Whole sessions, and then session `c` under way. -/
def Open (c : ℕ) (w : List (ℕ × Phase)) : Prop :=
  ∃ u n, Ended c u ∧ w = u ++ (c, .opened) :: List.replicate n (c, .received)

variable {b b' c : ℕ} {u w : List (ℕ × Phase)}

theorem ended_nil (b : ℕ) : Ended b [] := ⟨[], .nil, by simp, rfl⟩

theorem Ended.mono (h : Ended b w) (hb : b ≤ b') : Ended b' w := by
  obtain ⟨l, hl, hlt, rfl⟩ := h
  exact ⟨l, hl, fun s hs => (hlt s hs).trans_le hb, rfl⟩

theorem Ended.open (h : Ended c w) : Open c (w ++ [(c, .opened)]) := ⟨w, 0, h, rfl⟩

theorem Open.receive (h : Open c w) : Open c (w ++ [(c, .received)]) := by
  obtain ⟨u, n, hu, rfl⟩ := h
  refine ⟨u, n + 1, hu, ?_⟩
  rw [List.replicate_succ', List.append_assoc, List.cons_append]

theorem Open.close (h : Open c w) : Ended (c + 1) (w ++ [(c, .closed)]) := by
  obtain ⟨u, n, ⟨l, hl, hlt, rfl⟩, rfl⟩ := h
  refine ⟨l ++ [(c, n)], ?_, ?_, ?_⟩
  · rw [List.pairwise_append]
    refine ⟨hl, List.pairwise_singleton _ _, fun s hs s' hs' => ?_⟩
    rw [List.mem_singleton.1 hs']
    exact hlt s hs
  · intro s hs
    rcases List.mem_append.1 hs with hs | hs
    · exact (hlt s hs).trans (Nat.lt_succ_self c)
    · rw [List.mem_singleton.1 hs]
      exact Nat.lt_succ_self c
  · simp [sessions, session]

theorem Ended.inOrder (h : Ended b w) : InOrder w := by
  obtain ⟨l, hl, -, rfl⟩ := h
  exact ⟨l, hl, List.prefix_rfl⟩

theorem InOrder.part (h : InOrder w) (hu : u <+: w) : InOrder u := by
  obtain ⟨l, hl, hw⟩ := h
  exact ⟨l, hl, hu.trans hw⟩

theorem Open.inOrder (h : Open c w) : InOrder w :=
  h.close.inOrder.part (List.prefix_append _ _)

theorem opened_mem_sessions {p : Phase} : ∀ {l : List (ℕ × ℕ)} {w : List (ℕ × Phase)},
    w <+: sessions l → (c, p) ∈ w → (c, .opened) ∈ w
  | [], w, hw, h => by
    rw [List.prefix_nil.1 hw] at h
    cases h
  | s :: l, w, hw, h => by
    have hmem : ∀ {u : List (ℕ × Phase)}, (c, p) ∈ u → u <+: session s.1 s.2 → c = s.1 := by
      intro u hu hpre
      have := hpre.subset hu
      simp only [session, List.mem_cons, List.mem_append, List.mem_replicate, Prod.mk.injEq,
        List.not_mem_nil, or_false] at this
      tauto
    rcases List.prefix_or_prefix_of_prefix hw (List.prefix_append (session s.1 s.2) (sessions l))
      with hpre | ⟨u, rfl⟩
    · obtain rfl := hmem h hpre
      rcases w with _ | ⟨x, w⟩
      · cases h
      · rw [(List.cons_prefix_cons.1 hpre).1]
        exact List.mem_cons_self ..
    · rw [sessions, List.flatMap_cons] at hw
      rcases List.mem_append.1 h with h | h
      · rw [hmem h List.prefix_rfl]
        exact List.mem_append_left _ (List.mem_cons_self ..)
      · exact List.mem_append_right _
          (opened_mem_sessions ((List.prefix_append_right_inj _).1 hw) h)

/-- No sign of a session comes before its first. -/
theorem InOrder.opened_mem {p : Phase} (h : InOrder w) (hc : (c, p) ∈ w) : (c, .opened) ∈ w := by
  obtain ⟨l, -, hw⟩ := h
  exact opened_mem_sessions hw hc

end Sessions
