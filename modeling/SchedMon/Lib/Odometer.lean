import Mathlib.Algebra.Group.Nat.Defs
import Mathlib.Data.Int.Notation
import Mathlib.Tactic.Common

/-!
# Odometers

A register of `w` bits that counts up and starts over is read into a wider signed word, the rest of
which is zero. The difference of two readings is the amount counted in between as long as the
register has not started over; where it has, every time costs `2 ^ w`.

## Main results

* `toInt_reading_sub_eq_iff` — **when the difference of two readings is what was counted**
-/

namespace SchedMon

namespace Odometer

variable {v w a b n : ℕ}

/-- What `v` bits show of `n`, when the lower `w` of them count and the others are zero. -/
def reading (v w n : ℕ) : BitVec v := BitVec.ofNat v (n % 2 ^ w)

theorem two_mul_le (h : w < v) : 2 * 2 ^ w ≤ 2 ^ v := by
  rw [← Nat.pow_succ']
  exact Nat.pow_le_pow_right (by decide) h

theorem toNat_reading (h : w < v) : (reading v w n).toNat = n % 2 ^ w := by
  have hmod : n % 2 ^ w < 2 ^ w := Nat.mod_lt _ (Nat.two_pow_pos w)
  have hle := two_mul_le h
  rw [reading, BitVec.toNat_ofNat]
  exact Nat.mod_eq_of_lt (by omega)

/-- A reading is not negative. -/
theorem toInt_reading (h : w < v) : (reading v w n).toInt = (n % 2 ^ w : ℕ) := by
  have hmod : n % 2 ^ w < 2 ^ w := Nat.mod_lt _ (Nat.two_pow_pos w)
  have hle := two_mul_le h
  rw [BitVec.toInt_eq_toNat_of_lt, toNat_reading h]
  rw [toNat_reading h]
  omega

/-- The difference of two readings is that of the register's contents. -/
theorem toInt_reading_sub (h : w < v) :
    (reading v w b - reading v w a).toInt = ((b % 2 ^ w : ℕ) : ℤ) - (a % 2 ^ w : ℕ) := by
  have ha : a % 2 ^ w < 2 ^ w := Nat.mod_lt _ (Nat.two_pow_pos w)
  have hb : b % 2 ^ w < 2 ^ w := Nat.mod_lt _ (Nat.two_pow_pos w)
  have hle := two_mul_le h
  rw [BitVec.toInt_sub, toInt_reading h, toInt_reading h]
  generalize a % 2 ^ w = x at *
  generalize b % 2 ^ w = y at *
  apply Int.bmod_eq_of_le_mul_two
  · omega
  · omega

/-- **When the difference of two readings is what was counted**: when the register has not started
over. -/
theorem toInt_reading_sub_eq_iff (h : w < v) :
    (reading v w b - reading v w a).toInt = (b : ℤ) - a ↔ a / 2 ^ w = b / 2 ^ w := by
  have ha := Nat.div_add_mod a (2 ^ w)
  have hb := Nat.div_add_mod b (2 ^ w)
  have hpos : 0 < 2 ^ w := Nat.two_pow_pos w
  rw [toInt_reading_sub h]
  constructor
  · intro heq
    have hmul : 2 ^ w * (a / 2 ^ w) = 2 ^ w * (b / 2 ^ w) := by omega
    exact Nat.eq_of_mul_eq_mul_left hpos hmul
  · intro heq
    rw [heq] at ha
    omega

end Odometer

end SchedMon
