import Mathlib.Tactic
import Mathlib.Data.List.Lex
import Mathlib.Data.List.TakeWhile

/-!
# Strings of bytes

`std::string` as its bytes, compared byte by byte as unsigned, and the string a `const char *` in
memory is read as: what stands before the first NUL.
-/

namespace StdString

instance linearOrderByte : LinearOrder UInt8 where
  le_refl := UInt8.le_refl
  le_trans _ _ _ := UInt8.le_trans
  le_antisymm _ _ := UInt8.le_antisymm
  le_total := UInt8.le_total
  lt_iff_le_not_ge a b := by
    rw [UInt8.le_iff_toNat_le, UInt8.le_iff_toNat_le, UInt8.lt_iff_toNat_lt]
    omega
  toDecidableLE := inferInstance
  toDecidableLT := inferInstance
  toDecidableEq := inferInstance

/-- The digits `operator <<` writes of a number. -/
def decimal (n : ℕ) : List UInt8 := (Nat.toDigits 10 n).map fun c => UInt8.ofNat c.toNat

/-- The string at the front of some memory. -/
def cString (s : List UInt8) : List UInt8 := s.takeWhile (· ≠ 0)

variable {s t : List UInt8}

theorem cString_of_not_mem (h : 0 ∉ s) : cString s = s := by
  rw [cString, List.takeWhile_eq_self_iff]
  intro b hb
  simpa using fun h0 : b = 0 => h (h0 ▸ hb)

theorem not_mem_cString (s : List UInt8) : 0 ∉ cString s := by
  intro h
  simpa using List.mem_takeWhile_imp h

theorem length_cString_le (s : List UInt8) : (cString s).length ≤ s.length :=
  (List.takeWhile_prefix _).length_le

/-- A NUL ends the string before the memory ends. -/
theorem length_cString_lt (h : 0 ∈ s) : (cString s).length < s.length := by
  refine (length_cString_le s).lt_of_ne fun hlen => ?_
  have hwhole : cString s = s := (List.takeWhile_prefix _).eq_of_length hlen
  exact not_mem_cString s (hwhole.symm ▸ h)

theorem cString_cons {b : UInt8} (hb : b ≠ 0) (s : List UInt8) :
    cString (b :: s) = b :: cString s := by
  simp [cString, hb]

theorem cString_append_of_mem (t : List UInt8) : ∀ {s : List UInt8}, 0 ∈ s →
    cString (s ++ t) = cString s
  | b :: s, h => by
    by_cases hb : b = 0
    · simp [cString, hb]
    · rw [List.cons_append, cString_cons hb, cString_cons hb,
        cString_append_of_mem t ((List.mem_cons.1 h).resolve_left (Ne.symm hb))]

theorem cString_append_of_not_mem (t : List UInt8) (h : 0 ∉ s) :
    cString (s ++ t) = s ++ cString t := by
  rw [cString, cString, List.takeWhile_append_of_pos]
  intro b hb
  simpa using fun h0 : b = 0 => h (h0 ▸ hb)

theorem digit_toNat {n : ℕ} {c : Char} (h : c ∈ Nat.toDigits 10 n) :
    48 ≤ c.toNat ∧ c.toNat ≤ 57 := by
  have hdigit := Nat.isDigit_of_mem_toDigits (by decide) (by decide) h
  simpa [Char.isDigit, UInt32.le_iff_toNat_le] using hdigit

theorem toNat_digit {n : ℕ} {c : Char} (h : c ∈ Nat.toDigits 10 n) :
    (UInt8.ofNat c.toNat).toNat = c.toNat := by
  exact UInt8.toNat_ofNat_of_lt' ((digit_toNat h).2.trans_lt (by decide))

theorem underscore_not_mem_decimal (n : ℕ) : 95 ∉ decimal n := by
  intro h
  obtain ⟨c, hc, heq⟩ := List.mem_map.1 h
  have hrange := digit_toNat hc
  rw [← toNat_digit hc, heq] at hrange
  exact absurd hrange.2 (by decide)

theorem decimal_injective : Function.Injective decimal := by
  have hback : ∀ n, (decimal n).map (fun b => Char.ofNat b.toNat) = Nat.toDigits 10 n := by
    intro n
    rw [decimal, List.map_map, List.map_congr_left (g := id), List.map_id]
    intro c hc
    rw [Function.comp_apply, toNat_digit hc, Char.ofNat_toNat, id]
  intro m n h
  rw [← Nat.ofDigitChars_ten_toDigits (n := m), ← hback, h, hback, Nat.ofDigitChars_ten_toDigits]

/-- A string is cut in one way at the first of a byte. -/
theorem append_cons_inj {b : UInt8} {s s' t t' : List UInt8} (hs : b ∉ s) (hs' : b ∉ s')
    (h : s ++ b :: t = s' ++ b :: t') : s = s' ∧ t = t' := by
  have htake : ∀ {s t : List UInt8}, b ∉ s → (s ++ b :: t).takeWhile (· ≠ b) = s := by
    intro s t hs
    rw [List.takeWhile_append_of_pos]
    · simp
    · intro a ha
      simpa using fun hab : a = b => hs (hab ▸ ha)
  have heq : s = s' := by rw [← htake (t := t) hs, h, htake hs']
  subst heq
  exact ⟨rfl, (List.cons_inj_right b).1 (List.append_cancel_left h)⟩

/-- Reading on behind `s` makes no difference just where `s` holds a NUL or one follows it. -/
theorem cString_append_eq_iff (s t : List UInt8) :
    cString (s ++ t) = cString s ↔ 0 ∈ s ∨ cString t = [] := by
  by_cases h : 0 ∈ s
  · simp [cString_append_of_mem t h, h]
  · rw [cString_append_of_not_mem t h, cString_of_not_mem h]
    simp [h]

end StdString
