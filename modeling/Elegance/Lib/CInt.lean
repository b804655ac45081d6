import Mathlib.Tactic

/-!
# The host's integers

An `int` is kept as its value in `ℤ` and wrapped back to 32 bits after an operation that may leave
the range; a `short` likewise. A `HostLayout` is how the host stores them in memory, whatever its
byte order.
-/

namespace CInt

def intMax : ℤ := 2147483647

def intMin : ℤ := -2147483648

def shrtMax : ℤ := 32767

def shrtMin : ℤ := -32768

/-- The 32-bit two's complement value of `z`. -/
def wrap32 (z : ℤ) : ℤ := Int.bmod z 4294967296

/-- The 16-bit two's complement value of `z`. -/
def wrap16 (z : ℤ) : ℤ := Int.bmod z 65536

theorem wrap32_eq (z : ℤ) : wrap32 z = (z + 2147483648) % 4294967296 - 2147483648 := by
  unfold wrap32
  rw [Int.bmod_def]
  split_ifs <;> push_cast at * <;> omega

theorem wrap32_bounds (z : ℤ) : intMin ≤ wrap32 z ∧ wrap32 z ≤ intMax := by
  rw [wrap32_eq, intMin, intMax]
  omega

theorem wrap32_of_range {z : ℤ} (h : intMin ≤ z) (h' : z ≤ intMax) : wrap32 z = z := by
  rw [wrap32_eq]
  rw [intMin] at h
  rw [intMax] at h'
  omega

/-- Only the last wrap counts. -/
theorem wrap32_sub (a b : ℤ) : wrap32 (wrap32 a - b) = wrap32 (a - b) := by
  simp only [wrap32_eq]
  omega

theorem wrap16_of_range {z : ℤ} (h : shrtMin ≤ z) (h' : z ≤ shrtMax) : wrap16 z = z := by
  unfold wrap16
  rw [shrtMin] at h
  rw [shrtMax] at h'
  rw [Int.bmod_def]
  split_ifs <;> push_cast at * <;> omega

/-- How the host stores a 4-byte `int` and a 2-byte `short`. -/
structure HostLayout where
  writeInt : ℤ → List UInt8
  readInt : List UInt8 → ℤ
  writeShort : ℤ → List UInt8
  readShort : List UInt8 → ℤ
  length_writeInt : ∀ z, (writeInt z).length = 4
  length_writeShort : ∀ z, (writeShort z).length = 2
  readInt_bounds : ∀ bs, intMin ≤ readInt bs ∧ readInt bs ≤ intMax
  readShort_bounds : ∀ bs, shrtMin ≤ readShort bs ∧ readShort bs ≤ shrtMax
  readInt_writeInt : ∀ z, intMin ≤ z → z ≤ intMax → readInt (writeInt z) = z
  readShort_writeShort : ∀ z, shrtMin ≤ z → z ≤ shrtMax → readShort (writeShort z) = z

attribute [simp] HostLayout.length_writeInt HostLayout.length_writeShort

/-- The number `n` low-order byte first, in `k` bytes. -/
def leBytes : ℕ → ℕ → List UInt8
  | 0, _ => []
  | k + 1, n => UInt8.ofNat (n % 256) :: leBytes k (n / 256)

/-- The number stored low-order byte first. -/
def leNat : List UInt8 → ℕ
  | [] => 0
  | b :: bs => b.toNat + 256 * leNat bs

theorem length_leBytes : ∀ k n, (leBytes k n).length = k
  | 0, _ => rfl
  | k + 1, n => by simp [leBytes, length_leBytes k]

theorem leNat_leBytes : ∀ k n, leNat (leBytes k n) = n % 256 ^ k
  | 0, n => by simp [leBytes, leNat, Nat.mod_one]
  | k + 1, n => by
    have hb : (UInt8.ofNat (n % 256)).toNat = n % 256 := by simp
    rw [leBytes, leNat, hb, leNat_leBytes k, pow_succ, mul_comm (256 ^ k), Nat.mod_mul]

/-- A little-endian host. -/
def littleEndian : HostLayout where
  writeInt z := leBytes 4 (z % 4294967296).toNat
  readInt bs := wrap32 (leNat bs)
  writeShort z := leBytes 2 (z % 65536).toNat
  readShort bs := wrap16 (leNat bs)
  length_writeInt z := length_leBytes 4 _
  length_writeShort z := length_leBytes 2 _
  readInt_bounds bs := wrap32_bounds _
  readShort_bounds bs := by
    simp only [wrap16, shrtMin, shrtMax, Int.bmod_def]
    split_ifs <;> push_cast at * <;> omega
  readInt_writeInt z h h' := by
    rw [leNat_leBytes, wrap32_eq]
    rw [intMin] at h
    rw [intMax] at h'
    omega
  readShort_writeShort z h h' := by
    rw [leNat_leBytes]
    simp only [wrap16, Int.bmod_def]
    rw [shrtMin] at h
    rw [shrtMax] at h'
    split_ifs <;> push_cast at * <;> omega

end CInt
