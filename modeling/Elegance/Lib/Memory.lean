import Mathlib.Tactic

/-!
# A memory of bytes

`load` reads some bytes from an address on, `store` writes some there. What was stored is read back
(`load_store`), and a load that ends before a store does not see it (`load_store_of_le`).
-/

namespace Memory

def load (m : ℕ → UInt8) : ℕ → ℕ → List UInt8
  | _, 0 => []
  | p, n + 1 => m p :: load m (p + 1) n

def store (m : ℕ → UInt8) : ℕ → List UInt8 → ℕ → UInt8
  | _, [] => m
  | p, b :: bs => store (Function.update m p b) (p + 1) bs

variable (m : ℕ → UInt8)

@[simp]
theorem length_load : ∀ p n, (load m p n).length = n
  | _, 0 => rfl
  | p, n + 1 => by rw [load, List.length_cons, length_load (p + 1) n]

theorem load_add : ∀ p k n, load m p (k + n) = load m p k ++ load m (p + k) n
  | p, 0, n => by simp [load]
  | p, k + 1, n => by
    rw [Nat.add_right_comm, load, load, load_add (p + 1) k n, List.cons_append,
      Nat.add_right_comm p 1 k, Nat.add_assoc p k 1]

/-- What is loaded at once is loaded piece by piece. -/
theorem load_of_append {p n : ℕ} {front rest : List UInt8} (h : load m p n = front ++ rest) :
    load m p front.length = front ∧ load m (p + front.length) rest.length = rest := by
  have hn : n = front.length + rest.length := by
    rw [← length_load m p n, h, List.length_append]
  rw [hn, load_add] at h
  exact List.append_inj h (length_load m p _)

theorem store_of_lt : ∀ (m : ℕ → UInt8) (bs : List UInt8) {p q : ℕ}, q < p →
    store m p bs q = m q
  | _, [], _, _, _ => rfl
  | m, b :: bs, p, q, h => by
    rw [store, store_of_lt _ bs (Nat.lt_succ_of_lt h), Function.update_of_ne h.ne]

theorem store_append : ∀ (m : ℕ → UInt8) (p : ℕ) (bs bs' : List UInt8),
    store m p (bs ++ bs') = store (store m p bs) (p + bs.length) bs'
  | _, _, [], _ => by simp [store]
  | m, p, b :: bs, bs' => by
    rw [List.cons_append, store, store, store_append _ (p + 1) bs, List.length_cons,
      Nat.add_assoc, Nat.add_comm 1]

theorem load_store_of_le (bs : List UInt8) {p : ℕ} : ∀ {q n : ℕ}, q + n ≤ p →
    load (store m p bs) q n = load m q n
  | _, 0, _ => rfl
  | q, n + 1, h => by
    rw [load, load, store_of_lt m bs (by omega), load_store_of_le bs (by omega)]

theorem load_store : ∀ (m : ℕ → UInt8) (p : ℕ) (bs : List UInt8),
    load (store m p bs) p bs.length = bs
  | _, _, [] => rfl
  | m, p, b :: bs => by
    rw [store, List.length_cons, load, load_store _ (p + 1) bs,
      store_of_lt _ bs (Nat.lt_succ_self p), Function.update_self]

end Memory
