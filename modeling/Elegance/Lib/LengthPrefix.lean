import Mathlib.Tactic

/-!
# Length-prefixed streams

A frame is a header of `head` symbols, which announces the length of the body, and the body.
`decode` takes frames off a stream as long as it finds whole ones and returns what is left; what it
finds in a stream does not depend on how the stream was cut (`decode_append`).
-/

namespace LengthPrefix

/-- A frame format: `len` is the body length a header announces, `none` for a header that
announces none, after which no frame is ever found. -/
structure Format (α : Type*) where
  head : ℕ
  head_pos : 0 < head
  len : List α → Option ℕ

variable {α : Type*} (F : Format α)

namespace Format

/-- The first frame's body and the stream after it, once the stream has `wait` symbols and the
whole frame. -/
def next (wait : ℕ) (s : List α) : Option (List α × List α) :=
  if s.length < wait ∨ s.length < F.head then none
  else match F.len (s.take F.head) with
    | none => none
    | some n =>
      if s.length < F.head + n then none
      else some ((s.drop F.head).take n, s.drop (F.head + n))

theorem next_some {wait : ℕ} {s b r : List α} (h : F.next wait s = some (b, r)) :
    wait ≤ s.length ∧ F.len (s.take F.head) = some b.length ∧ s = s.take F.head ++ b ++ r
      ∧ (s.take F.head).length = F.head := by
  unfold next at h
  split_ifs at h with hw
  split at h
  · simp at h
  · rename_i n hn
    split_ifs at h with hl
    simp only [Option.some.injEq, Prod.mk.injEq] at h
    obtain ⟨rfl, rfl⟩ := h
    have hb : ((s.drop F.head).take n).length = n := by
      simp only [List.length_take, List.length_drop]
      omega
    refine ⟨by omega, by rw [hn, hb], ?_, by rw [List.length_take]; omega⟩
    rw [List.append_assoc, ← List.drop_drop, List.take_append_drop, List.take_append_drop]

theorem length_next_lt {wait : ℕ} {s b r : List α} (h : F.next wait s = some (b, r)) :
    r.length < s.length := by
  obtain ⟨-, -, hs, hl⟩ := F.next_some h
  have := congrArg List.length hs
  simp only [List.length_append] at this
  have := F.head_pos
  omega

/-- A frame found stays the first frame when more comes after it. -/
theorem next_append {wait : ℕ} {s b r : List α} (h : F.next wait s = some (b, r)) (t : List α) :
    F.next wait (s ++ t) = some (b, r ++ t) := by
  obtain ⟨hw, hn, hs, hl⟩ := F.next_some h
  have hlen := congrArg List.length hs
  simp only [List.length_append, hl] at hlen
  have htake : (s ++ t).take F.head = s.take F.head := by
    rw [List.take_append_of_le_length (by omega)]
  unfold next
  rw [htake, hn, if_neg (by simp only [List.length_append]; omega)]
  simp only [List.length_append]
  rw [if_neg (by omega)]
  have hs' : s ++ t = s.take F.head ++ (b ++ (r ++ t)) := by
    conv_lhs => rw [hs]
    simp only [List.append_assoc]
  rw [hs', List.drop_left' hl, List.take_left' rfl, ← List.drop_drop, List.drop_left' hl,
    List.drop_left' rfl]

/-- Once the stream is long enough, waiting makes no difference. -/
theorem next_wait {wait wait' : ℕ} {s : List α} (h : wait ≤ s.length) (h' : wait' ≤ s.length) :
    F.next wait s = F.next wait' s := by
  unfold next
  rw [if_congr (show s.length < wait ∨ s.length < F.head ↔ s.length < wait' ∨ s.length < F.head by
    omega) rfl rfl]

/-- The bodies of the frames found from the front of `s`, and what is left. -/
def decode (wait : ℕ) (s : List α) : List (List α) × List α :=
  match _h : F.next wait s with
  | none => ([], s)
  | some (b, r) => (b :: (decode wait r).1, (decode wait r).2)
termination_by s.length
decreasing_by all_goals exact F.length_next_lt _h

theorem decode_of_none {wait : ℕ} {s : List α} (h : F.next wait s = none) :
    F.decode wait s = ([], s) := by
  rw [decode]
  split
  · rfl
  · rename_i h'
    rw [h] at h'
    cases h'

theorem decode_of_some {wait : ℕ} {s b r : List α} (h : F.next wait s = some (b, r)) :
    F.decode wait s = (b :: (F.decode wait r).1, (F.decode wait r).2) := by
  rw [decode]
  split
  · rename_i h'
    rw [h] at h'
    cases h'
  · rename_i b' r' h'
    rw [h] at h'
    cases h'
    rfl

theorem decode_induct (wait : ℕ) {P : List α → Prop}
    (stop : ∀ s, F.next wait s = none → P s)
    (step : ∀ s b r, F.next wait s = some (b, r) → P r → P s) : ∀ s, P s := by
  intro s
  induction hn : s.length using Nat.strong_induction_on generalizing s with
  | _ n ih =>
    rcases h : F.next wait s with _ | ⟨b, r⟩
    · exact stop s h
    · exact step s b r h (ih _ (hn ▸ F.length_next_lt h) r rfl)

/-- What is left is the end of the stream. -/
theorem decode_suffix (wait : ℕ) (s : List α) : (F.decode wait s).2 <:+ s := by
  induction s using F.decode_induct wait with
  | stop s h => rw [F.decode_of_none h]
  | step s b r h ih =>
    obtain ⟨-, -, hs, -⟩ := F.next_some h
    rw [F.decode_of_some h]
    exact ih.trans ⟨_, hs.symm⟩

/-- Decoding goes on from what was left. -/
theorem decode_append (wait : ℕ) (s t : List α) :
    F.decode wait (s ++ t) =
      ((F.decode wait s).1 ++ (F.decode wait ((F.decode wait s).2 ++ t)).1,
        (F.decode wait ((F.decode wait s).2 ++ t)).2) := by
  induction s using F.decode_induct wait with
  | stop s h => rw [F.decode_of_none h, List.nil_append]
  | step s b r h ih =>
    rw [F.decode_of_some h, F.decode_of_some (F.next_append h t), ih]
    rfl

theorem decode_fst_mono (wait : ℕ) (s t : List α) :
    (F.decode wait s).1 <+: (F.decode wait (s ++ t)).1 := by
  rw [F.decode_append]
  exact List.prefix_append _ _

/-- The body lengths the headers completed in `s` announce, in order. -/
def announced (wait : ℕ) (s : List α) : List ℕ :=
  (F.decode wait s).1.map List.length ++
    if F.head ≤ (F.decode wait s).2.length then
      (F.len ((F.decode wait s).2.take F.head)).toList
    else []

/-- The longest body announced. -/
def longest (wait : ℕ) (s : List α) : ℕ := (F.announced wait s).foldr max 0

theorem announced_of_some {wait : ℕ} {s b r : List α} (h : F.next wait s = some (b, r)) :
    F.announced wait s = b.length :: F.announced wait r := by
  simp only [announced, F.decode_of_some h, List.map_cons, List.cons_append]

theorem announced_of_none {wait : ℕ} {s : List α} (h : F.next wait s = none) :
    F.announced wait s = if F.head ≤ s.length then (F.len (s.take F.head)).toList else [] := by
  simp only [announced, F.decode_of_none h, List.map_nil, List.nil_append]

theorem longest_of_some {wait : ℕ} {s b r : List α} (h : F.next wait s = some (b, r)) :
    F.longest wait s = max b.length (F.longest wait r) := by
  simp only [longest, F.announced_of_some h, List.foldr_cons]

theorem longest_of_none {wait : ℕ} {s : List α} (h : F.next wait s = none) :
    F.longest wait s = if F.head ≤ s.length then (F.len (s.take F.head)).getD 0 else 0 := by
  rw [longest, F.announced_of_none h]
  split_ifs
  · rcases F.len (s.take F.head) with _ | n <;> simp
  · rfl

/-- A completed header's length is among those announced, however the stream goes on. -/
theorem le_longest {wait n : ℕ} {s : List α} (hs : F.head ≤ s.length)
    (hn : F.len (s.take F.head) = some n) : n ≤ F.longest wait s := by
  rcases h : F.next wait s with _ | ⟨b, r⟩
  · rw [F.longest_of_none h, if_pos hs, hn, Option.getD_some]
  · obtain ⟨-, hb, -⟩ := F.next_some h
    rw [F.longest_of_some h]
    rw [hn] at hb
    cases hb
    exact le_max_left _ _

theorem longest_append (wait : ℕ) (s t : List α) :
    F.longest wait (s ++ t) =
      max (F.longest wait s) (F.longest wait ((F.decode wait s).2 ++ t)) := by
  induction s using F.decode_induct wait with
  | stop s h =>
    rw [F.decode_of_none h, eq_comm, max_eq_right_iff]
    rw [F.longest_of_none h]
    split_ifs with hs
    · rcases hn : F.len (s.take F.head) with _ | n
      · exact Nat.zero_le _
      · refine F.le_longest (by simp only [List.length_append]; omega) ?_
        rw [List.take_append_of_le_length hs, hn, Option.getD_some]
    · exact Nat.zero_le _
  | step s b r h ih =>
    rw [F.longest_of_some (F.next_append h t), F.longest_of_some h, F.decode_of_some h, ih,
      max_assoc]

end Format

end LengthPrefix
