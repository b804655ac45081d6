import Mathlib.Tactic
import Elegance.Lib.CInt

/-!
# Decimal text

The integer a text is the decimal form of, and what `atoi` and `atoll` make of the memory it is in:
blanks, a sign and digits, as far as they go, in the range of a 64-bit `long`.
-/

namespace CDecimal

open CInt

def isDigit (b : UInt8) : Bool := 48 ≤ b.toNat && b.toNat ≤ 57

def isSpace (b : UInt8) : Bool := b = 32 || 9 ≤ b.toNat && b.toNat ≤ 13

def minus : UInt8 := 45

def plus : UInt8 := 43

/-- The number some digits stand for. -/
def digitsValue (s : List UInt8) : ℕ := s.foldl (fun n b => 10 * n + (b.toNat - 48)) 0

/-- One digit or more and nothing else. -/
def IsDigits (s : List UInt8) : Prop := s ≠ [] ∧ ∀ b ∈ s, isDigit b

instance (s : List UInt8) : Decidable (IsDigits s) := inferInstanceAs (Decidable (_ ∧ _))

/-- The integer the whole text denotes, if it is digits with perhaps a minus before them. -/
def textValue (s : List UInt8) : Option ℤ :=
  if s.head? = some minus then
    if IsDigits s.tail then some (-(digitsValue s.tail : ℤ)) else none
  else if IsDigits s then some (digitsValue s) else none

/-- The number at the front of some memory. -/
def frontValue (s : List UInt8) : ℤ :=
  let s := s.dropWhile isSpace
  if s.head? = some minus then -(digitsValue (s.tail.takeWhile isDigit) : ℤ)
  else if s.head? = some plus then digitsValue (s.tail.takeWhile isDigit)
  else digitsValue (s.takeWhile isDigit)

def llongMax : ℤ := 9223372036854775807

def llongMin : ℤ := -9223372036854775808

/-- `strtol(s, nullptr, 10)`, and `strtoll`. -/
def atoll (s : List UInt8) : ℤ := max llongMin (min llongMax (frontValue s))

def atoi (s : List UInt8) : ℤ := wrap32 (atoll s)

variable {s : List UInt8} {v : ℤ}

theorem foldl_digits (ds : List UInt8) : ∀ n : ℕ,
    ds.foldl (fun n b => 10 * n + (b.toNat - 48)) n = n * 10 ^ ds.length + digitsValue ds := by
  induction ds with
  | nil => simp [digitsValue]
  | cons b ds ih =>
    intro n
    rw [digitsValue, List.foldl_cons, List.foldl_cons, ih, ih, List.length_cons, pow_succ]
    ring

theorem digitsValue_cons (b : UInt8) (ds : List UInt8) :
    digitsValue (b :: ds) = (b.toNat - 48) * 10 ^ ds.length + digitsValue ds := by
  rw [digitsValue, List.foldl_cons, foldl_digits, Nat.mul_zero, Nat.zero_add]

theorem isDigit_bounds {b : UInt8} (h : isDigit b) : 48 ≤ b.toNat ∧ b.toNat ≤ 57 := by
  rwa [isDigit, Bool.and_eq_true, decide_eq_true_eq, decide_eq_true_eq] at h

theorem isSpace_of_isDigit {b : UInt8} (h : isDigit b) : isSpace b = false := by
  obtain ⟨hlo, -⟩ := isDigit_bounds h
  have hne : b ≠ 32 := by
    rintro rfl
    exact absurd hlo (by decide)
  have hgt : ¬ b.toNat ≤ 13 := by omega
  simp [isSpace, hne, hgt]

theorem takeWhile_digits (hs : ∀ b ∈ s, isDigit b) (t : List UInt8) :
    (s ++ 0 :: t).takeWhile isDigit = s := by
  rw [List.takeWhile_append_of_pos hs]
  simp [isDigit]

theorem textValue_cases (h : textValue s = some v) :
    (∃ ds, s = minus :: ds ∧ IsDigits ds ∧ v = -(digitsValue ds : ℤ)) ∨
      IsDigits s ∧ v = digitsValue s := by
  unfold textValue at h
  split_ifs at h with hminus hdigits hdigits
  · obtain ⟨ds, rfl⟩ := List.head?_eq_some_iff.1 hminus
    exact .inl ⟨ds, rfl, hdigits, (Option.some.inj h).symm⟩
  · exact .inr ⟨hdigits, (Option.some.inj h).symm⟩

/-- What denotes a value is read as that value up to the NUL behind it. -/
theorem frontValue_of_textValue (h : textValue s = some v) (t : List UInt8) :
    frontValue (s ++ 0 :: t) = v := by
  unfold frontValue
  rcases textValue_cases h with ⟨ds, rfl, hdigits, rfl⟩ | ⟨hdigits, rfl⟩
  · have hdrop : (minus :: ds ++ 0 :: t).dropWhile isSpace = minus :: (ds ++ 0 :: t) :=
      List.dropWhile_cons_of_neg (by decide)
    rw [hdrop]
    dsimp only
    rw [if_pos (by rfl), List.tail_cons, takeWhile_digits hdigits.2]
  · obtain ⟨b, ds, rfl⟩ := List.exists_cons_of_ne_nil hdigits.1
    have hb := hdigits.2 b List.mem_cons_self
    have hdrop : (b :: ds ++ 0 :: t).dropWhile isSpace = b :: ds ++ 0 :: t :=
      List.dropWhile_cons_of_neg (by simp [isSpace_of_isDigit hb])
    have hsign : b ≠ minus ∧ b ≠ plus := by
      constructor <;> rintro rfl <;> exact absurd hb (by decide)
    rw [hdrop]
    dsimp only
    rw [if_neg (by simpa using hsign.1), if_neg (by simpa using hsign.2),
      takeWhile_digits hdigits.2]

theorem atoll_of_textValue (h : textValue s = some v) (hmin : llongMin ≤ v) (hmax : v ≤ llongMax)
    (t : List UInt8) : atoll (s ++ 0 :: t) = v := by
  rw [atoll, frontValue_of_textValue h, min_eq_right hmax, max_eq_right hmin]

theorem atoi_of_textValue (h : textValue s = some v) (hmin : intMin ≤ v) (hmax : v ≤ intMax)
    (t : List UInt8) : atoi (s ++ 0 :: t) = v := by
  have hlong : llongMin ≤ v ∧ v ≤ llongMax := by
    rw [intMin] at hmin
    rw [intMax] at hmax
    rw [llongMin, llongMax]
    omega
  rw [atoi, atoll_of_textValue h hlong.1 hlong.2, wrap32_of_range hmin hmax]

end CDecimal
