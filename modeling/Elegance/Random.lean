import Elegance.Lib.CheckedInt

/-!
# `Random`

`Random::RandomNum` of `common/random.cpp`, with what `rand()` returns as an argument. The draw that
is shifted is the first of the two.
-/

namespace Elegance

open CInt

/-- `RAND_MAX`. -/
def randMax : ℤ := 2147483647

/-- What the calls of `rand()` return; the second one is not always made. -/
structure Draws where
  first : ℤ
  second : ℤ
  first_nonneg : 0 ≤ first
  first_le : first ≤ randMax
  second_nonneg : 0 ≤ second
  second_le : second ≤ randMax

/-- The static member, and how often `srand` was called. -/
structure Random where
  hasSetSeed : Bool := false
  seeds : ℕ := 0
  deriving DecidableEq, Repr

namespace Random

def setSeed (r : Random) : Random :=
  if r.hasSetSeed then r else { hasSetSeed := true, seeds := r.seeds + 1 }

/-- `rand_num`, which takes two draws. -/
def randNum (rand : Draws) : Except Fault ℤ := do
  let shifted ← checkedShl rand.first 16
  let sum ← checked (shifted + rand.second)
  if sum < 0 then checked (sum * -1) else pure sum

/-- `RandomNum` from where the arguments are in order and the seed is set. -/
def numBetween (minNum maxNum : ℤ) (rand : Draws) : Except Fault ℤ := do
  let intervalNum ← checked (maxNum - minNum)
  if intervalNum < randMax then
    let rest ← checkedMod rand.first intervalNum
    checked (minNum + rest)
  else
    let randNum ← randNum rand
    let rest ← checkedMod randNum intervalNum
    checked (minNum + rest)

/-- `RandomNum(min_num, max_num)`. -/
def randomNum (r : Random) (minNum maxNum : ℤ) (rand : Draws) : Random × Except Fault ℤ :=
  (r.setSeed,
    if minNum > maxNum then numBetween maxNum minNum rand else numBetween minNum maxNum rand)

/-- `RandomNum(max_num)`. -/
def randomNumTo (r : Random) (maxNum : ℤ) (rand : Draws) : Random × Except Fault ℤ :=
  r.randomNum 0 maxNum rand

/-- The result is there, and between the two arguments. -/
def Between (minNum maxNum : ℤ) : Except Fault ℤ → Prop
  | .ok z => min minNum maxNum ≤ z ∧ z ≤ max minNum maxNum
  | .error _ => False

/-- The first draw fits in 16 bits; where its shift is not negative the sum with the second one is
an `int`, and where it is the sum is not `INT_MIN`. -/
def Small (rand : Draws) : Prop :=
  rand.first < 32768 ∧ rand.first * 65536 + rand.second ≤ intMax ∨
    32768 ≤ rand.first ∧ rand.first < 65536 ∧ ¬ (rand.first = 32768 ∧ rand.second = 0)

instance (rand : Draws) : Decidable (Small rand) := inferInstanceAs (Decidable (_ ∧ _ ∨ _ ∧ _ ∧ _))

/-- The arguments differ by less than `INT_MAX`, or by that and the draws are small enough. -/
def Fits (minNum maxNum : ℤ) (rand : Draws) : Prop :=
  0 < |maxNum - minNum| ∧ (|maxNum - minNum| < intMax ∨ |maxNum - minNum| = intMax ∧ Small rand)

end Random

end Elegance
