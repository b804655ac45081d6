import Mathlib.Tactic

/-!
# Memory cut into slots

Chunks of memory that do not overlap are cut into slots of one length. `SlotPool` says that the slots
of some chunks are each once either free or in use; taking one, giving one back and adding a chunk
keep that.
-/

/-- `size` bytes from `base` on. -/
structure Span where
  base : ℕ
  size : ℕ
  deriving DecidableEq, Repr

namespace Span

def Within (s t : Span) : Prop := t.base ≤ s.base ∧ s.base + s.size ≤ t.base + t.size

def Apart (s t : Span) : Prop := s.base + s.size ≤ t.base ∨ t.base + t.size ≤ s.base

instance (s t : Span) : Decidable (s.Apart t) := inferInstanceAs (Decidable (_ ∨ _))

variable {s s' t t' : Span}

theorem Within.refl (s : Span) : s.Within s := ⟨le_refl _, le_refl _⟩

theorem Apart.symm (h : s.Apart t) : t.Apart s := Or.symm h

theorem Apart.of_within (h : s.Apart t) (hs : s'.Within s) (ht : t'.Within t) : s'.Apart t' := by
  obtain ⟨hs₁, hs₂⟩ := hs
  obtain ⟨ht₁, ht₂⟩ := ht
  rcases h with h | h
  · exact .inl (by omega)
  · exact .inr (by omega)

theorem Apart.base_ne (h : s.Apart t) (hs : 0 < s.size) (ht : 0 < t.size) : s.base ≠ t.base := by
  rcases h with h | h <;> omega

end Span

/-- The slots a chunk is cut into. -/
def slots (len n base : ℕ) : List ℕ := (List.range n).map fun i => base + i * len

section Slots

variable {len n base a : ℕ}

theorem mem_slots : a ∈ slots len n base ↔ ∃ i < n, a = base + i * len := by
  simp [slots, eq_comm]

@[simp]
theorem length_slots : (slots len n base).length = n := by
  simp [slots]

theorem slot_within (h : a ∈ slots len n base) : Span.Within ⟨a, len⟩ ⟨base, n * len⟩ := by
  obtain ⟨i, hi, rfl⟩ := mem_slots.1 h
  have hle : (i + 1) * len ≤ n * len := Nat.mul_le_mul_right len hi
  rw [Nat.succ_mul] at hle
  exact ⟨Nat.le_add_right _ _, by dsimp only; omega⟩

theorem slots_apart : (slots len n base).Pairwise fun a b => Span.Apart ⟨a, len⟩ ⟨b, len⟩ := by
  rw [slots, List.pairwise_map]
  refine List.pairwise_lt_range.imp fun {i j} hij => .inl ?_
  have hle : (i + 1) * len ≤ j * len := Nat.mul_le_mul_right len hij
  rw [Nat.succ_mul] at hle
  dsimp only
  omega

end Slots

/-- The slots of the chunks, each of them once free or in use. -/
structure SlotPool (len n : ℕ) (chunks free used : List ℕ) : Prop where
  apart : chunks.Pairwise fun c c' => Span.Apart ⟨c, n * len⟩ ⟨c', n * len⟩
  split : (free ++ used).Perm (chunks.flatMap (slots len n))

namespace SlotPool

variable {len n a c : ℕ} {chunks free used used' : List ℕ}

theorem empty (len n : ℕ) : SlotPool len n [] [] [] := ⟨.nil, .nil⟩

theorem perm (h : SlotPool len n chunks free used) (hp : used.Perm used') :
    SlotPool len n chunks free used' :=
  ⟨h.apart, (hp.symm.append_left free).trans h.split⟩

/-- A free slot is taken. -/
theorem take (h : SlotPool len n chunks (a :: free) used) :
    SlotPool len n chunks free (a :: used) :=
  ⟨h.apart, List.perm_middle.trans h.split⟩

/-- A slot is given back. -/
theorem give (h : SlotPool len n chunks free (a :: used)) :
    SlotPool len n chunks (a :: free) used :=
  ⟨h.apart, List.perm_middle.symm.trans h.split⟩

/-- A chunk is added. -/
theorem grow (h : SlotPool len n chunks free used)
    (hc : ∀ c' ∈ chunks, Span.Apart ⟨c', n * len⟩ ⟨c, n * len⟩) :
    SlotPool len n (chunks ++ [c]) ((slots len n c).reverse ++ free) used := by
  constructor
  · rw [List.pairwise_append]
    exact ⟨h.apart, List.pairwise_singleton _ _, by simpa using hc⟩
  · rw [List.flatMap_append, List.flatMap_singleton, List.append_assoc]
    exact List.perm_append_comm.trans (h.split.append (List.reverse_perm _))

theorem count (h : SlotPool len n chunks free used) :
    free.length + used.length = n * chunks.length := by
  have hlen := h.split.length_eq
  rw [List.length_append, List.length_flatMap] at hlen
  simpa [mul_comm] using hlen

/-- A slot is one of a chunk. -/
theorem chunk_of_mem (h : SlotPool len n chunks free used) (ha : a ∈ free ++ used) :
    ∃ c ∈ chunks, a ∈ slots len n c := by
  simpa using h.split.mem_iff.1 ha

theorem pairwise (h : SlotPool len n chunks free used) :
    (free ++ used).Pairwise fun a b => Span.Apart ⟨a, len⟩ ⟨b, len⟩ := by
  refine (h.split.pairwise_iff fun hab => hab.symm).2 ?_
  rw [List.pairwise_flatMap]
  refine ⟨fun c _ => slots_apart, h.apart.imp fun {c c'} hcc a ha b hb => ?_⟩
  exact hcc.of_within (slot_within ha) (slot_within hb)

end SlotPool

/-- What holds among those with one key, and between those with different keys, holds among all. -/
theorem List.pairwise_of_fibers {α κ : Type*} [DecidableEq κ] {R : α → α → Prop} (key : α → κ) :
    ∀ {l : List α}, (∀ k, (l.filter fun a => key a = k).Pairwise R) →
      (∀ a ∈ l, ∀ b ∈ l, key a ≠ key b → R a b) → l.Pairwise R
  | [], _, _ => .nil
  | a :: l, hsame, hother => by
    refine List.pairwise_cons.2 ⟨fun b hb => ?_, ?_⟩
    · by_cases hkey : key a = key b
      · have hhead := hsame (key a)
        rw [List.filter_cons_of_pos (by simp)] at hhead
        exact (List.pairwise_cons.1 hhead).1 b (List.mem_filter.2 ⟨hb, by simp [hkey]⟩)
      · exact hother a List.mem_cons_self b (List.mem_cons_of_mem a hb) hkey
    · refine List.pairwise_of_fibers key (fun k => ?_) fun b hb c hc =>
        hother b (List.mem_cons_of_mem a hb) c (List.mem_cons_of_mem a hc)
      exact (hsame k).sublist ((List.sublist_cons_self a l).filter _)
