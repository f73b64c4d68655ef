/-
Nsparse/Lib/Binary32.lean

The order of single precision floats, and of their bits.

A pattern of 32 bits is a sign and a magnitude, and the magnitude an exponent and a
fraction (`absValue`).  The numbers are compared by their values, and a NaN with
nothing (`gt`).  Among patterns with a clear sign the values grow with the bits
(`absValue_strictMono`); so the larger of two numbers that are not negative has the
larger pattern.  Read as a signed integer every pattern with a set sign is below 0,
and so loses against 0 in both orders, NaN or not.  What tells the two orders apart is
a NaN with a clear sign (`PositiveNan`): as an integer it is above every number
(`toInt_max`).
-/
import Mathlib.Tactic

namespace Binary32

/-- The bits below the sign. -/
def magnitude (bits : ℕ) : ℕ := bits % 2 ^ 31

/-- The exponent is all ones and the fraction is not 0. -/
def IsNan (bits : ℕ) : Prop := 255 * 2 ^ 23 < magnitude bits

instance (bits : ℕ) : Decidable (IsNan bits) := inferInstanceAs (Decidable (_ < _))

/-- A magnitude as a number, in units of the least one; an infinity comes after all others. -/
def absValue (m : ℕ) : ℕ :=
  if m / 2 ^ 23 = 0 then m % 2 ^ 23
  else (2 ^ 23 + m % 2 ^ 23) * 2 ^ (m / 2 ^ 23 - 1)

def value (bits : ℕ) : ℤ :=
  if bits < 2 ^ 31 then absValue (magnitude bits) else -absValue (magnitude bits)

/-- `a > b`. -/
def gt (a b : ℕ) : Bool := decide (¬ IsNan a ∧ ¬ IsNan b ∧ value b < value a)

/-- The same bits as a signed integer. -/
def toInt (bits : ℕ) : ℤ := if bits < 2 ^ 31 then bits else (bits : ℤ) - 2 ^ 32

/-- A NaN whose sign is clear. -/
def PositiveNan (bits : ℕ) : Prop := bits < 2 ^ 31 ∧ IsNan bits

instance (bits : ℕ) : Decidable (PositiveNan bits) := inferInstanceAs (Decidable (_ ∧ _))

/-- A number whose sign is clear. -/
def Plain (bits : ℕ) : Prop := bits < 2 ^ 31 ∧ ¬ IsNan bits

example : gt 0x3f800000 0x3f000000 = true := by decide
example : gt 0x80000000 0 = false := by decide

theorem magnitude_of_lt {bits : ℕ} (h : bits < 2 ^ 31) : magnitude bits = bits := Nat.mod_eq_of_lt h

/-- **The values grow with the magnitudes.** -/
theorem absValue_strictMono : StrictMono absValue := by
  apply strictMono_nat_of_lt_succ
  intro m
  unfold absValue
  by_cases hlast : m % 2 ^ 23 + 1 = 2 ^ 23
  · -- the next exponent
    have hdiv : (m + 1) / 2 ^ 23 = m / 2 ^ 23 + 1 := by omega
    have hmod : (m + 1) % 2 ^ 23 = 0 := by omega
    rw [hdiv, hmod, if_neg (Nat.succ_ne_zero _), Nat.add_sub_cancel, Nat.add_zero]
    split
    · rename_i hzero
      rw [hzero]
      omega
    · rename_i hne
      obtain ⟨e, he⟩ := Nat.exists_eq_succ_of_ne_zero hne
      rw [he, Nat.succ_sub_one, Nat.pow_succ]
      have hpos : 0 < 2 ^ e := Nat.two_pow_pos e
      calc (2 ^ 23 + m % 2 ^ 23) * 2 ^ e < (2 ^ 23 * 2) * 2 ^ e :=
            Nat.mul_lt_mul_of_pos_right (by omega) hpos
        _ = 2 ^ 23 * (2 ^ e * 2) := by ring
  · -- the next fraction
    have hdiv : (m + 1) / 2 ^ 23 = m / 2 ^ 23 := by omega
    have hmod : (m + 1) % 2 ^ 23 = m % 2 ^ 23 + 1 := by omega
    rw [hdiv, hmod]
    split
    · exact Nat.lt_succ_self _
    · exact Nat.mul_lt_mul_of_pos_right (by omega) (Nat.two_pow_pos _)

theorem Plain.zero : Plain 0 := ⟨by decide, by decide⟩

/-- Numbers with a clear sign are ordered as their bits. -/
theorem gt_of_plain {a b : ℕ} (ha : Plain a) (hb : Plain b) : gt a b = decide (b < a) := by
  have hvalue : value b < value a ↔ b < a := by
    rw [value, value, if_pos ha.1, if_pos hb.1, magnitude_of_lt ha.1, magnitude_of_lt hb.1,
      Nat.cast_lt, absValue_strictMono.lt_iff_lt]
  rw [gt, decide_eq_decide, hvalue]
  exact ⟨fun h => h.2.2, fun h => ⟨ha.2, hb.2, h⟩⟩

theorem zero_gt {a : ℕ} (ha : Plain a) : gt 0 a = false := by
  rw [gt_of_plain Plain.zero ha]
  exact decide_eq_false (Nat.not_lt_zero a)

/-- What has its sign set is not above what has not. -/
theorem gt_of_negative {a b : ℕ} (ha : 2 ^ 31 ≤ a) (hb : Plain b) : gt a b = false := by
  apply decide_eq_false
  rintro ⟨-, -, hlt⟩
  rw [value, value, if_pos hb.1, if_neg (not_lt.mpr ha)] at hlt
  have hle : (0 : ℤ) ≤ absValue (magnitude b) := Int.natCast_nonneg _
  have hle' : (0 : ℤ) ≤ absValue (magnitude a) := Int.natCast_nonneg _
  omega

/-- The larger one is a number with a clear sign again. -/
theorem Plain.max {a b : ℕ} (ha : Plain a) (hb : ¬ PositiveNan b) :
    Plain (if gt b a then b else a) := by
  split
  · rename_i hgt
    have hlt : b < 2 ^ 31 := by
      by_contra hge
      rw [gt_of_negative (not_lt.mp hge) ha] at hgt
      cases hgt
    exact ⟨hlt, fun hnan => hb ⟨hlt, hnan⟩⟩
  · exact ha

/-- **The larger float has the larger integer**, when the accumulator is a number with a clear sign and
the other one is no NaN with a clear sign. -/
theorem toInt_max {a b : ℕ} (ha : Plain a) (hb : ¬ PositiveNan b) (hlt : b < 2 ^ 32) :
    toInt (if gt b a then b else a) = max (toInt a) (toInt b) := by
  by_cases hsign : b < 2 ^ 31
  · have hplain : Plain b := ⟨hsign, fun hnan => hb ⟨hsign, hnan⟩⟩
    have ha' : toInt a = a := if_pos ha.1
    have hb' : toInt b = b := if_pos hsign
    rw [gt_of_plain hplain ha, ha', hb']
    by_cases hab : a < b
    · rw [decide_eq_true hab, if_pos rfl, hb', max_eq_right (by exact_mod_cast hab.le)]
    · rw [decide_eq_false hab, if_neg Bool.false_ne_true, ha',
        max_eq_left (by exact_mod_cast not_lt.mp hab)]
  · have ha' : toInt a = a := if_pos ha.1
    have hb' : toInt b = (b : ℤ) - 2 ^ 32 := if_neg hsign
    rw [gt_of_negative (not_lt.mp hsign) ha, if_neg Bool.false_ne_true, ha', hb', max_eq_left]
    omega

/-- What has no larger integer is not above. -/
theorem gt_of_toInt_le {a b : ℕ} (ha : Plain a) (hb : ¬ PositiveNan b) (hle : toInt b ≤ toInt a) :
    gt b a = false := by
  by_cases hsign : b < 2 ^ 31
  · have hplain : Plain b := ⟨hsign, fun hnan => hb ⟨hsign, hnan⟩⟩
    rw [toInt, toInt, if_pos hsign, if_pos ha.1, Nat.cast_le] at hle
    rw [gt_of_plain hplain ha]
    exact decide_eq_false (not_lt.mpr hle)
  · exact gt_of_negative (not_lt.mp hsign) ha

end Binary32
