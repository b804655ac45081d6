import Mathlib.Tactic
import Mathlib.Order.Defs.LinearOrder

/-!
# Maps searched by a comparator

`std::map<κ, υ>` finds a key through its comparator alone: two keys neither of which is less than
the other are one key to it. `StdMap` keeps at most one entry in each such class, and
`find_set` and `find_erase` say what a lookup sees after a write; where the comparator is a linear
order the classes are single keys.
-/

/-- A comparator `std::map` accepts: a strict weak order. -/
class StrictWeakOrd (κ : Type*) where
  less : κ → κ → Bool
  irrefl : ∀ a, less a a = false
  trans : ∀ a b c, less a b = true → less b c = true → less a c = true
  incomp_trans : ∀ a b c, less a b = false → less b a = false → less b c = false →
    less c b = false → less a c = false ∧ less c a = false

namespace StrictWeakOrd

variable {κ : Type*} [StrictWeakOrd κ]

/-- Neither key is less than the other. -/
def equiv (a b : κ) : Bool := !less a b && !less b a

theorem equiv_iff {a b : κ} : equiv a b = true ↔ less a b = false ∧ less b a = false := by
  simp [equiv]

@[simp]
theorem equiv_refl (a : κ) : equiv a a = true := by
  simp [equiv, irrefl]

theorem equiv_comm (a b : κ) : equiv a b = equiv b a := by
  simp [equiv, Bool.and_comm]

theorem equiv_trans {a b c : κ} (h₁ : equiv a b = true) (h₂ : equiv b c = true) :
    equiv a c = true := by
  rw [equiv_iff] at *
  exact incomp_trans a b c h₁.1 h₁.2 h₂.1 h₂.2

/-- Equivalent keys compare alike with any third. -/
theorem equiv_congr {a b : κ} (h : equiv a b = true) (c : κ) : equiv a c = equiv b c := by
  rw [Bool.eq_iff_iff]
  exact ⟨equiv_trans (equiv_comm a b ▸ h), equiv_trans h⟩

instance (priority := low) ofLinearOrder {κ : Type*} [LinearOrder κ] : StrictWeakOrd κ where
  less a b := decide (a < b)
  irrefl a := by simp
  trans a b c h₁ h₂ := by
    simp only [decide_eq_true_eq] at *
    exact h₁.trans h₂
  incomp_trans a b c h₁ h₂ h₃ h₄ := by
    simp only [decide_eq_false_iff_not, not_lt] at *
    exact ⟨h₃.trans h₁, h₂.trans h₄⟩

@[simp]
theorem equiv_eq_decide {κ : Type*} [LinearOrder κ] (a b : κ) : equiv a b = decide (a = b) := by
  rw [Bool.eq_iff_iff, equiv_iff, decide_eq_true_eq]
  simp only [less, decide_eq_false_iff_not, not_lt]
  exact ⟨fun h => le_antisymm h.2 h.1, fun h => by simp [h]⟩

end StrictWeakOrd

open StrictWeakOrd

/-- `std::map<κ, υ>`: no two entries have equivalent keys. -/
structure StdMap (κ υ : Type*) [StrictWeakOrd κ] where
  entries : List (κ × υ)
  distinct : entries.Pairwise fun e f => equiv e.1 f.1 = false

namespace StdMap

variable {κ υ : Type*} [StrictWeakOrd κ]

/-- The default-constructed map. -/
def empty : StdMap κ υ := ⟨[], .nil⟩

/-- `find(k)`: the value found, `none` for `end()`. -/
def find (m : StdMap κ υ) (k : κ) : Option υ :=
  (m.entries.find? fun e => equiv k e.1).map Prod.snd

/-- Overwrite the value of an entry whose key is equivalent to `k`; the stored key stays. -/
def overwrite (k : κ) (v : υ) : List (κ × υ) → List (κ × υ) :=
  List.map fun e => if equiv k e.1 then (e.1, v) else e

/-- `m[k] = v`. -/
def set (m : StdMap κ υ) (k : κ) (v : υ) : StdMap κ υ :=
  if h : (m.find k).isSome then
    ⟨overwrite k v m.entries, by
      rw [overwrite, List.pairwise_map]
      refine m.distinct.imp fun {e f} hef => ?_
      split_ifs <;> exact hef⟩
  else
    ⟨(k, v) :: m.entries, List.pairwise_cons.2 ⟨fun e he => by
      simp only [find, Option.isSome_map, List.find?_isSome, not_exists, not_and,
        Bool.not_eq_true] at h
      exact h e he, m.distinct⟩⟩

/-- `erase(k)`. -/
def erase (m : StdMap κ υ) (k : κ) : StdMap κ υ :=
  ⟨m.entries.filter fun e => !equiv k e.1, m.distinct.filter _⟩

/-- `m[k]` read as a value: a missing entry is created with the default. -/
def index (m : StdMap κ υ) (k : κ) (d : υ) : StdMap κ υ × υ :=
  match m.find k with
  | some v => (m, v)
  | none => (m.set k d, d)

/-- `size()`. -/
def size (m : StdMap κ υ) : ℕ := m.entries.length

/-- The stored keys. -/
def keys (m : StdMap κ υ) : List κ := m.entries.map Prod.fst

@[simp]
theorem find_empty (k : κ) : (empty : StdMap κ υ).find k = none := rfl

theorem find_congr (m : StdMap κ υ) {k k' : κ} (h : equiv k k' = true) : m.find k = m.find k' := by
  simp only [find, equiv_congr h]

theorem find?_overwrite (k k' : κ) (v : υ) : ∀ l : List (κ × υ),
    ((overwrite k v l).find? fun e => equiv k' e.1).map Prod.snd =
      if equiv k k' then (l.find? fun e => equiv k' e.1).map fun _ => v
      else (l.find? fun e => equiv k' e.1).map Prod.snd
  | [] => by simp [overwrite]
  | e :: l => by
    have ih := find?_overwrite k k' v l
    simp only [overwrite, List.map_cons, List.find?_cons] at ih ⊢
    by_cases hk : equiv k e.1 = true
    · simp only [hk, if_true]
      rcases hk' : equiv k' e.1 with _ | _
      · simpa using ih
      · have : equiv k k' = true := equiv_trans hk (by rw [equiv_comm]; exact hk')
        simp [this]
    · simp only [hk]
      rcases hk' : equiv k' e.1 with _ | _
      · simpa [hk'] using ih
      · have : equiv k k' = false := by
          rw [equiv_comm, equiv_congr hk' k, equiv_comm]
          simpa using hk
        simp [this, hk']

theorem find_set (m : StdMap κ υ) (k k' : κ) (v : υ) :
    (m.set k v).find k' = if equiv k k' then some v else m.find k' := by
  unfold set
  split_ifs with h hk hk
  · obtain ⟨w, hw⟩ := Option.isSome_iff_exists.1 h
    rw [find_congr m hk] at hw
    simp only [find, Option.map_eq_some_iff] at hw
    obtain ⟨e, he, -⟩ := hw
    simp only [find]
    rw [find?_overwrite, if_pos hk, he]
    rfl
  · simp only [find]
    rw [find?_overwrite, if_neg hk]
  · simp [find, equiv_comm k' k, hk]
  · simp [find, equiv_comm k' k, hk]

@[simp]
theorem find_set_self (m : StdMap κ υ) (k : κ) (v : υ) : (m.set k v).find k = some v := by
  simp [find_set]

theorem find_erase (m : StdMap κ υ) (k k' : κ) :
    (m.erase k).find k' = if equiv k k' then none else m.find k' := by
  simp only [erase, find, List.find?_filter]
  split_ifs with hk
  · simp [equiv_congr hk]
  · congr 1
    refine List.find?_congr fun e _ => ?_
    rcases he : equiv k' e.1 with _ | _
    · simp
    · have : equiv k e.1 = false := by
        rw [equiv_comm, ← equiv_congr he k, equiv_comm]
        simpa using hk
      simp [this]

@[simp]
theorem find_erase_self (m : StdMap κ υ) (k : κ) : (m.erase k).find k = none := by
  simp [find_erase]

theorem find_of_mem {m : StdMap κ υ} {k : κ} {v : υ} (h : (k, v) ∈ m.entries) :
    m.find k = some v := by
  have hsome : (m.entries.find? fun e => equiv k e.1).isSome = true :=
    List.find?_isSome.2 ⟨(k, v), h, equiv_refl k⟩
  obtain ⟨e, he⟩ := Option.isSome_iff_exists.1 hsome
  have hke : equiv k e.1 = true := by simpa using List.find?_some he
  have : Std.Symm fun e f : κ × υ => equiv e.1 f.1 = false :=
    ⟨fun e f hef => (equiv_comm f.1 e.1).trans hef⟩
  rcases eq_or_ne (k, v) e with rfl | hne
  · rw [find, he, Option.map_some]
  · have := m.distinct.forall h (List.mem_of_find?_eq_some he) hne
    rw [hke] at this
    cases this

theorem mem_of_find {m : StdMap κ υ} {k : κ} {v : υ} (h : m.find k = some v) :
    ∃ k', (k', v) ∈ m.entries ∧ equiv k k' = true := by
  obtain ⟨e, he, rfl⟩ := Option.map_eq_some_iff.1 h
  exact ⟨e.1, List.mem_of_find?_eq_some he, by simpa using List.find?_some he⟩

/-- An entry after `m[k] = v`: another key's, or of `v` under `k` or the key stored for it. -/
theorem mem_entries_set {m : StdMap κ υ} {k : κ} {v : υ} {x : κ × υ}
    (h : x ∈ (m.set k v).entries) :
    (x ∈ m.entries ∧ equiv k x.1 = false) ∨
      x.2 = v ∧ (x.1 = k ∨ ∃ y ∈ m.entries, y.1 = x.1 ∧ equiv k y.1 = true) := by
  unfold set at h
  split_ifs at h with hk
  · obtain ⟨y, hy, rfl⟩ := List.mem_map.1 h
    by_cases hky : equiv k y.1 = true
    · rw [if_pos hky]
      exact .inr ⟨rfl, .inr ⟨y, hy, rfl, hky⟩⟩
    · rw [if_neg hky]
      exact .inl ⟨hy, by simpa using hky⟩
  · rcases List.mem_cons.1 h with rfl | hx
    · exact .inr ⟨rfl, .inl rfl⟩
    · have hnone : m.find k = none := by simpa using hk
      refine .inl ⟨hx, ?_⟩
      rw [← Bool.not_eq_true]
      intro hkx
      rw [find_congr m hkx, find_of_mem (v := x.2) hx] at hnone
      cases hnone

theorem mem_entries_erase {m : StdMap κ υ} {k : κ} {x : κ × υ} :
    x ∈ (m.erase k).entries ↔ x ∈ m.entries ∧ equiv k x.1 = false := by
  simp [erase]

theorem index_fst_find (m : StdMap κ υ) (k k' : κ) (d : υ) :
    (m.index k d).1.find k' =
      if equiv k k' then some ((m.find k).getD d) else m.find k' := by
  unfold index
  rcases h : m.find k with _ | v
  · simp [find_set]
  · by_cases hk : equiv k k' = true
    · simp [hk, ← find_congr m hk, h]
    · simp [hk]

theorem index_snd (m : StdMap κ υ) (k : κ) (d : υ) : (m.index k d).2 = (m.find k).getD d := by
  unfold index
  rcases h : m.find k with _ | v <;> simp

theorem find_isSome_iff (m : StdMap κ υ) (k : κ) :
    (m.find k).isSome ↔ ∃ k' ∈ m.keys, equiv k k' = true := by
  simp [find, keys]

end StdMap

namespace StdMap

variable {κ υ : Type*} [LinearOrder κ]

section FindEq

variable (m : StdMap κ υ) (k k' : κ) [Decidable (k' = k)]

theorem find_set_eq (v : υ) : (m.set k v).find k' = if k' = k then some v else m.find k' := by
  rw [find_set, equiv_eq_decide]
  simp [eq_comm]

theorem find_erase_eq : (m.erase k).find k' = if k' = k then none else m.find k' := by
  rw [find_erase, equiv_eq_decide]
  simp [eq_comm]

theorem find_index_eq (d : υ) :
    (m.index k d).1.find k' = if k' = k then some ((m.find k).getD d) else m.find k' := by
  rw [index_fst_find, equiv_eq_decide]
  simp [eq_comm]

end FindEq

theorem mem_keys_iff (m : StdMap κ υ) (k : κ) : k ∈ m.keys ↔ (m.find k).isSome := by
  rw [find_isSome_iff]
  simp

theorem nodup_keys (m : StdMap κ υ) : m.keys.Nodup := by
  rw [keys, List.Nodup, List.pairwise_map]
  exact m.distinct.imp fun h => by simpa using h

theorem keys_set {m : StdMap κ υ} {k : κ} (h : m.find k = none) (v : υ) :
    (m.set k v).keys.Perm (k :: m.keys) := by
  have hk : k ∉ m.keys := by
    rw [mem_keys_iff, h]
    simp
  refine (List.perm_ext_iff_of_nodup (nodup_keys _) (List.nodup_cons.2 ⟨hk, nodup_keys m⟩)).2
    fun j => ?_
  rw [mem_keys_iff, find_set, List.mem_cons, mem_keys_iff, equiv_eq_decide]
  by_cases hj : j = k
  · simp [hj]
  · simp [hj, Ne.symm hj]

theorem keys_erase {m : StdMap κ υ} {k : κ} (h : (m.find k).isSome) :
    m.keys.Perm (k :: (m.erase k).keys) := by
  have hk : k ∉ (m.erase k).keys := by
    rw [mem_keys_iff]
    simp
  refine (List.perm_ext_iff_of_nodup (nodup_keys m) (List.nodup_cons.2 ⟨hk, nodup_keys _⟩)).2
    fun j => ?_
  rw [mem_keys_iff, List.mem_cons, mem_keys_iff, find_erase, equiv_eq_decide]
  by_cases hj : j = k
  · simp [hj, h]
  · simp [hj, Ne.symm hj]

theorem length_keys (m : StdMap κ υ) : m.keys.length = m.size := by
  simp [keys, size]

end StdMap
