import Mathlib.Tactic.Common
import Mathlib.Tactic.Ring

/-!
# Cyclic counters and the unbounded stream behind them

A ring of `n` cells is driven by two machine words that are only ever looked at modulo `n`. The
arithmetic on them (masked subtraction, one-wrap increments) is awkward to reason about
directly, so this file relates it to the arithmetic of two *unbounded* positions: a read position
`t` and a write position `h` with `t ≤ h` and `h - t < n`. The words are `t % n` and `h % n`, and
every masked expression below becomes plain natural-number arithmetic on `t` and `h`.

Nothing here knows what is stored in the ring.

## Main results

* `toNat_and_sub_one` — masking with `s - 1` is reduction modulo `s`, for a power of two `s`
* `toNat_sub_and_sub_one` — a masked difference of two ring positions is the true distance
* `mod_add_of_block` — inside one aligned block a ring address is an affine function
* `mod_ne_of_window` — positions less than one revolution apart occupy different cells
-/

namespace SchedMon

namespace Cyclic

/-! ### Masks -/

variable {w : ℕ}

/-- Masking with `s - 1` reduces modulo `s` when `s` is a power of two. -/
theorem toNat_and_sub_one {x s : BitVec w} {k : ℕ} (hs : s.toNat = 2 ^ k) :
    (x &&& (s - 1)).toNat = x.toNat % s.toNat := by
  have hone : 1 ≤ s.toNat := by rw [hs]; exact Nat.one_le_two_pow
  have hw : 0 < w := by
    by_contra hw
    have : w = 0 := by omega
    subst this
    have := s.isLt
    omega
  have hsub : (s - 1).toNat = s.toNat - 1 := by
    have hlt := s.isLt
    have h1 : (1 : BitVec w).toNat = 1 := by
      simp [Nat.mod_eq_of_lt (Nat.one_lt_two_pow (show w ≠ 0 by omega))]
    rw [BitVec.toNat_sub, h1]
    rw [show 2 ^ w - 1 + s.toNat = (s.toNat - 1) + 2 ^ w by omega, Nat.add_mod_right,
      Nat.mod_eq_of_lt (by omega)]
  rw [BitVec.toNat_and, hsub, hs, Nat.and_two_pow_sub_one_eq_mod]

/-- The page-and-offset mask: `(p - 1)` pages shifted up, with all offset bits set, is the mask of
the whole ring. -/
theorem shiftLeft_or_mask (j b : ℕ) : (2 ^ j - 1) <<< b ||| (2 ^ b - 1) = 2 ^ (j + b) - 1 := by
  have hb : 2 ^ b - 1 < 2 ^ b := by have := Nat.two_pow_pos b; omega
  rw [← Nat.shiftLeft_add_eq_or_of_lt hb, Nat.shiftLeft_eq, Nat.sub_mul, pow_add, one_mul]
  have h1 := Nat.two_pow_pos b
  have h2 : 2 ^ b ≤ 2 ^ j * 2 ^ b := Nat.le_mul_of_pos_left _ (Nat.two_pow_pos j)
  omega

/-! ### Distances -/

/-- The cyclic distance from `t` to `h` when they are less than one revolution apart. -/
theorem sub_mod_window {n t h : ℕ} (hle : t ≤ h) (hlt : h - t < n) :
    (h % n + n - t % n) % n = h - t := by
  obtain ⟨d, rfl⟩ := Nat.exists_eq_add_of_le hle
  have hd : d < n := by omega
  have ht : t % n < n := Nat.mod_lt _ (by omega)
  rw [Nat.add_sub_cancel_left, Nat.add_mod, Nat.mod_eq_of_lt hd]
  rcases Nat.lt_or_ge (t % n + d) n with hs | hs
  · rw [Nat.mod_eq_of_lt hs, show t % n + d + n - t % n = d + n by omega, Nat.add_mod_right,
      Nat.mod_eq_of_lt hd]
  · rw [Nat.mod_eq_sub_mod hs, Nat.mod_eq_of_lt (show t % n + d - n < n by omega),
      show t % n + d - n + n - t % n = d by omega, Nat.mod_eq_of_lt hd]

/-- A masked machine subtraction of two ring positions is their true distance. -/
theorem toNat_sub_and_sub_one {x y s : BitVec w} {k t h : ℕ} (hs : s.toNat = 2 ^ k)
    (hx : x.toNat = h % s.toNat) (hy : y.toNat % s.toNat = t % s.toNat) (hle : t ≤ h)
    (hlt : h - t < s.toNat) : ((x - y) &&& (s - 1)).toNat = h - t := by
  rw [toNat_and_sub_one hs, BitVec.toNat_sub]
  have hk : k ≤ w := by
    have hlt := s.isLt
    rw [hs] at hlt
    exact Nat.le_of_lt ((Nat.pow_lt_pow_iff_right (by omega)).mp hlt)
  have hdvd : s.toNat ∣ 2 ^ w := by rw [hs]; exact pow_dvd_pow 2 hk
  have hpos : 0 < s.toNat := by rw [hs]; exact Nat.two_pow_pos k
  have hyw := y.isLt
  rw [Nat.mod_mod_of_dvd _ hdvd]
  have hkey : (2 ^ w - y.toNat + x.toNat) % s.toNat
      = (x.toNat + s.toNat - y.toNat % s.toNat) % s.toNat := by
    obtain ⟨q, hq⟩ := hdvd
    have hym : y.toNat % s.toNat < s.toNat := Nat.mod_lt _ hpos
    have hyd : y.toNat = s.toNat * (y.toNat / s.toNat) + y.toNat % s.toNat :=
      (Nat.div_add_mod _ _).symm
    have hqd : y.toNat / s.toNat < q := by
      rw [Nat.div_lt_iff_lt_mul hpos, mul_comm]
      omega
    obtain ⟨r, hr⟩ := Nat.exists_eq_add_of_lt hqd
    have hsplit : 2 ^ w = s.toNat * (y.toNat / s.toNat) + s.toNat * r + s.toNat := by
      rw [hq, hr]; ring
    rw [show 2 ^ w - y.toNat + x.toNat
        = x.toNat + s.toNat - y.toNat % s.toNat + s.toNat * r by omega,
      Nat.add_mul_mod_self_left]
  rw [hkey, hx, hy]
  exact sub_mod_window hle hlt

/-! ### Cells -/

/-- Inside one aligned block the ring address is an affine function of the position. -/
theorem mod_add_of_block {n b x i : ℕ} (hb : b ∣ n) (hi : x % b + i < b) :
    (x + i) % n = x % n + i := by
  rcases Nat.eq_zero_or_pos n with rfl | hn
  · simp
  obtain ⟨q, rfl⟩ := hb
  have hbpos : 0 < b := by omega
  have hlt : x % (b * q) < b * q := Nat.mod_lt _ hn
  have hblock : x % (b * q) + i < b * q := by
    have hmod : x % (b * q) % b = x % b := Nat.mod_mod_of_dvd x (dvd_mul_right b q)
    have hdm := Nat.div_add_mod (x % (b * q)) b
    have hdiv : x % (b * q) / b < q := by
      rw [Nat.div_lt_iff_lt_mul hbpos, mul_comm q b]; exact hlt
    have : b * (x % (b * q) / b) + b ≤ b * q := by
      rw [← Nat.mul_succ]; exact Nat.mul_le_mul_left b hdiv
    omega
  rw [Nat.add_mod, Nat.mod_eq_of_lt (show i < b * q by omega), Nat.mod_eq_of_lt hblock]

/-- Positions less than one revolution apart occupy different cells. -/
theorem mod_ne_of_window {n x y : ℕ} (hlt : x < y) (hn : y - x < n) : x % n ≠ y % n := by
  intro h
  have := sub_mod_window hlt.le hn
  rw [h] at this
  rw [show y % n + n - y % n = n by omega, Nat.mod_self] at this
  omega

end Cyclic

end SchedMon
