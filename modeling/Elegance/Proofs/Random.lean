import Elegance.Random

/-!
# What `RandomNum` returns

The interval is the difference of two `int`s: at 0 the remainder divides by it, and above `INT_MAX`
it overflows (`numBetween_same`, `numBetween_far`). Below `INT_MAX` one draw is enough
(`numBetween_near`). At `INT_MAX` the first draw is shifted by 16 bits, which has room only for a
small one, and the sum with the second may be negative (`numBetween_widest`).
-/

namespace Elegance

namespace Random

open CInt

variable {lo hi : ℤ} (rand : Draws)

theorem numBetween_same (lo : ℤ) : numBetween lo lo rand = .error .divByZero := by
  have hzero : checked (lo - lo) = .ok 0 := by rw [sub_self]; rfl
  unfold numBetween
  rw [hzero]
  rfl

theorem numBetween_far (h : intMax < hi - lo) : numBetween lo hi rand = .error .overflow := by
  have hfar : ¬ IsInt (hi - lo) := fun hfits => absurd hfits.2 (not_le.2 h)
  unfold numBetween
  rw [checked_of_not_isInt hfar]
  rfl

/-- One draw is left over by the interval. -/
theorem numBetween_near (hlo : IsInt lo) (hhi : IsInt hi) (hpos : lo < hi)
    (h : hi - lo < intMax) : numBetween lo hi rand = .ok (lo + rand.first % (hi - lo)) := by
  have hd : 0 < hi - lo := by omega
  have hrest := Int.emod_nonneg rand.first hd.ne'
  have hrest' := Int.emod_lt_of_pos rand.first hd
  have hsub : IsInt (hi - lo) := ⟨by unfold intMin; omega, h.le⟩
  have hsum : IsInt (lo + rand.first % (hi - lo)) := by
    unfold IsInt at hlo hhi ⊢
    omega
  have hlt : hi - lo < randMax := h
  unfold numBetween
  simp only [checked_of_isInt hsub, bind, Except.bind, if_pos hlt,
    checkedMod_of_nonneg rand.first_nonneg rand.first_le hd, checked_of_isInt hsum]

/-- What the two draws come to, small or not. -/
theorem randNum_eq : randNum rand =
    if Small rand then .ok |wrap32 (rand.first * 65536) + rand.second| else .error .overflow := by
  unfold randNum
  have hfirst := rand.first_nonneg
  have hsecond := rand.second_nonneg
  have hsecond' : rand.second ≤ intMax := rand.second_le
  rcases lt_or_ge rand.first 32768 with hlow | hlow
  · have hshift : IsInt (rand.first * 2 ^ 16) := by unfold IsInt intMin intMax; omega
    have hwrap : wrap32 (rand.first * 65536) = rand.first * 65536 :=
      wrap32_of_range (by unfold intMin; omega) (by unfold intMax; omega)
    rw [checkedShl_of_isInt hfirst hshift, hwrap]
    dsimp only [bind, Except.bind]
    split_ifs with hsmall
    · have hroom : rand.first * 65536 + rand.second ≤ intMax := by
        unfold Small at hsmall
        omega
      have hsum : IsInt (rand.first * 2 ^ 16 + rand.second) := by unfold IsInt intMin; omega
      rw [checked_of_isInt hsum]
      dsimp only
      rw [if_neg (by omega), abs_of_nonneg (by omega)]
      rfl
    · have hsum : ¬ IsInt (rand.first * 2 ^ 16 + rand.second) := fun hsum => by
        unfold Small at hsmall
        have hle := hsum.2
        omega
      rw [checked_of_not_isInt hsum]
  · rcases lt_or_ge rand.first 65536 with hhigh | hhigh
    · have hsign : intMax < rand.first * 2 ^ 16 := by unfold intMax; omega
      have hwrap : wrap32 (rand.first * 65536) = rand.first * 65536 - 4294967296 := by
        rw [wrap32_eq]
        omega
      have hsum : IsInt (rand.first * 2 ^ 16 - 4294967296 + rand.second) := by
        unfold IsInt intMin intMax at *
        omega
      rw [checkedShl_sign hfirst hsign (by omega), hwrap]
      dsimp only [bind, Except.bind]
      rw [checked_of_isInt hsum]
      dsimp only
      split_ifs with hneg hsmall hsmall
      · have hnegated : IsInt ((rand.first * 2 ^ 16 - 4294967296 + rand.second) * -1) := by
          unfold Small at hsmall
          unfold IsInt intMin intMax at *
          omega
        rw [checked_of_isInt hnegated, abs_of_neg (by omega)]
        congr 1
        omega
      · have hnegated : ¬ IsInt ((rand.first * 2 ^ 16 - 4294967296 + rand.second) * -1) := by
          unfold Small at hsmall
          unfold IsInt intMin intMax at *
          omega
        rw [checked_of_not_isInt hnegated]
      · rw [abs_of_nonneg (by omega)]
        rfl
      · unfold Small at hsmall
        omega
    · have hnot : ¬ Small rand := by
        unfold Small
        omega
      rw [checkedShl_overflow (by omega), if_neg hnot]
      rfl

theorem draws_le (h : Small rand) :
    |wrap32 (rand.first * 65536) + rand.second| ≤ intMax := by
  have hfirst := rand.first_nonneg
  have hsecond := rand.second_nonneg
  have hsecond' : rand.second ≤ intMax := rand.second_le
  unfold Small intMax at *
  rw [wrap32_eq, abs_le]
  omega

/-- Both draws are needed, and there is no room for all of them. -/
theorem numBetween_widest (hlo : IsInt lo) (hhi : IsInt hi) (h : hi - lo = intMax) :
    numBetween lo hi rand = if Small rand then
      .ok (lo + |wrap32 (rand.first * 65536) + rand.second| % intMax) else .error .overflow := by
  have hsub : IsInt (hi - lo) := by rw [h]; decide
  have hge : ¬ hi - lo < randMax := by rw [h]; decide
  unfold numBetween
  simp only [checked_of_isInt hsub, bind, Except.bind, if_neg hge, randNum_eq]
  split_ifs with hsmall
  · have hd : (0 : ℤ) < intMax := by decide
    have hle := draws_le rand hsmall
    have hrest := Int.emod_nonneg |wrap32 (rand.first * 65536) + rand.second| hd.ne'
    have hrest' := Int.emod_lt_of_pos |wrap32 (rand.first * 65536) + rand.second| hd
    have hfits : IsInt (lo + |wrap32 (rand.first * 65536) + rand.second| % intMax) := by
      unfold IsInt at hlo hhi ⊢
      omega
    rw [h]
    dsimp only
    rw [checkedMod_of_nonneg (abs_nonneg _) hle hd]
    exact checked_of_isInt hfits
  · rfl

theorem between_numBetween_iff (hlo : IsInt lo) (hhi : IsInt hi) (hle : lo ≤ hi) :
    Between lo hi (numBetween lo hi rand) ↔ Fits lo hi rand := by
  have habs : |hi - lo| = hi - lo := abs_of_nonneg (by omega)
  unfold Fits
  rw [habs]
  rcases hle.eq_or_lt with rfl | hpos
  · simp [numBetween_same, Between]
  rcases lt_trichotomy (hi - lo) intMax with hnear | hwidest | hfar
  · have hd : 0 < hi - lo := by omega
    have hrest := Int.emod_nonneg rand.first hd.ne'
    have hrest' := Int.emod_lt_of_pos rand.first hd
    rw [numBetween_near rand hlo hhi hpos hnear, Between, min_eq_left hle, max_eq_right hle]
    exact ⟨fun _ => ⟨hd, .inl hnear⟩, fun _ => by omega⟩
  · rw [numBetween_widest rand hlo hhi hwidest, hwidest]
    split_ifs with hsmall
    · have hd : (0 : ℤ) < intMax := by decide
      have hrest := Int.emod_nonneg |wrap32 (rand.first * 65536) + rand.second| hd.ne'
      have hrest' := Int.emod_lt_of_pos |wrap32 (rand.first * 65536) + rand.second| hd
      rw [Between, min_eq_left hle, max_eq_right hle]
      exact ⟨fun _ => ⟨hd, .inr ⟨rfl, hsmall⟩⟩, fun _ => by omega⟩
    · simp [Between, hsmall]
  · rw [numBetween_far rand hfar, Between]
    simp [hfar.not_gt, hfar.ne']

/-- Whichever argument is the smaller one. -/
theorem between_ordered_iff {minNum maxNum : ℤ} (hmin : IsInt minNum) (hmax : IsInt maxNum) :
    Between minNum maxNum (if minNum > maxNum then numBetween maxNum minNum rand
      else numBetween minNum maxNum rand) ↔ Fits minNum maxNum rand := by
  split_ifs with h
  · have hswap : ∀ x, Between minNum maxNum x ↔ Between maxNum minNum x := by
      intro x
      unfold Between
      rw [min_comm, max_comm]
    have hfits : Fits minNum maxNum rand ↔ Fits maxNum minNum rand := by
      unfold Fits
      rw [abs_sub_comm]
    rw [hswap, hfits]
    exact between_numBetween_iff rand hmax hmin (le_of_lt h)
  · exact between_numBetween_iff rand hmin hmax (not_lt.1 h)

/-- `RandomNum` does what it is for exactly when the arguments differ, by less than `INT_MAX` or by
that with draws small enough. -/
theorem randomNum_between_iff (r : Random) {minNum maxNum : ℤ} (hmin : IsInt minNum)
    (hmax : IsInt maxNum) :
    Between minNum maxNum (r.randomNum minNum maxNum rand).2 ↔ Fits minNum maxNum rand := by
  unfold randomNum
  exact between_ordered_iff rand hmin hmax

def someDraws : Draws where
  first := 846930886
  second := 1681692777
  first_nonneg := by decide
  first_le := by decide
  second_nonneg := by decide
  second_le := by decide

/-- At the widest distance, with a first draw whose shift is negative. -/
def signDraws : Draws where
  first := 32768
  second := 2147483647
  first_nonneg := by decide
  first_le := by decide
  second_nonneg := by decide
  second_le := by decide

theorem randomNum_between_iff_widest :
    (randomNum {} 0 2147483647 signDraws).2 = .ok 1 ∧
      (Between 0 2147483647 (randomNum {} 0 2147483647 signDraws).2 ↔
        Fits 0 2147483647 signDraws) :=
  ⟨by decide +kernel, randomNum_between_iff signDraws {} (by decide) (by decide)⟩

/-- There is a number between 3 and 3, but the draw is divided by their difference. -/
theorem not_between_threeThree : ¬ Between 3 3 (randomNum {} 3 3 someDraws).2 := id

/-- With one argument, the other is 0. -/
theorem randomNumTo_between_iff (r : Random) {maxNum : ℤ} (hmax : IsInt maxNum) :
    Between 0 maxNum (r.randomNumTo maxNum rand).2 ↔ Fits 0 maxNum rand := by
  unfold randomNumTo randomNum
  exact between_ordered_iff rand (by decide) hmax

end Random

end Elegance
