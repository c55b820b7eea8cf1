import Mathlib.Algebra.Group.Nat.Defs
import Mathlib.Algebra.Order.Ring.Nat
import Mathlib.Data.Int.Order.Basic
import Mathlib.Algebra.Ring.Int.Defs

/-! # Whole numbers as doubles

The conversion of an integer to a double: a number of more than 53 bits goes to the nearest
one that has no more, of two that are as near to the one whose last bit is zero. The
conversion keeps the order, and may make different numbers equal. -/
namespace Rts2.Lib

/-- What the last bit of a double of this size counts. -/
def lastPlace (n : Nat) : Nat := 2 ^ (n.log2 - 52)

/-- The nearest multiple of `u`, the even one of two. -/
def nearest (u n : Nat) : Nat :=
  if 2 * (n % u) < u ∨ 2 * (n % u) = u ∧ n / u % 2 = 0 then n / u * u else (n / u + 1) * u

/-- `(double) t` -/
def toDouble (t : Int) : Int := t.sign * (nearest (lastPlace t.natAbs) t.natAbs : Nat)

variable {u p n m : Nat} {s t : Int}

theorem lastPlace_pos (n : Nat) : 0 < lastPlace n := Nat.two_pow_pos _

theorem div_mul_le_nearest : n / u * u ≤ nearest u n := by
  unfold nearest
  split
  · exact Nat.le_refl _
  · exact Nat.mul_le_mul_right u (Nat.le_succ _)

theorem nearest_le_succ : nearest u n ≤ (n / u + 1) * u := by
  unfold nearest
  split
  · exact Nat.mul_le_mul_right u (Nat.le_succ _)
  · exact Nat.le_refl _

theorem nearest_of_dvd (hu : 0 < u) (h : u ∣ n) : nearest u n = n := by
  have hmod : n % u = 0 := Nat.mod_eq_zero_of_dvd h
  rw [nearest, if_pos (.inl (by omega)), Nat.div_mul_cancel h]

/-- Nothing is rounded past a multiple. -/
theorem nearest_le (hu : 0 < u) (hp : u ∣ p) (h : n ≤ p) : nearest u n ≤ p := by
  rcases Nat.eq_or_lt_of_le h with rfl | hlt
  · exact (nearest_of_dvd hu hp).le
  · obtain ⟨q, rfl⟩ := hp
    have hq : n / u < q := Nat.div_lt_of_lt_mul hlt
    calc nearest u n ≤ (n / u + 1) * u := nearest_le_succ
      _ ≤ q * u := Nat.mul_le_mul_right u hq
      _ = u * q := Nat.mul_comm q u

theorem le_nearest (hp : u ∣ p) (h : p ≤ n) : p ≤ nearest u n := by
  obtain ⟨q, rfl⟩ := hp
  rcases Nat.eq_zero_or_pos u with rfl | hu
  · simp
  have hq : q ≤ n / u := (Nat.le_div_iff_mul_le hu).mpr (by rwa [Nat.mul_comm])
  calc u * q = q * u := Nat.mul_comm u q
    _ ≤ n / u * u := Nat.mul_le_mul_right u hq
    _ ≤ nearest u n := div_mul_le_nearest

theorem nearest_mono (h : n ≤ m) : nearest u n ≤ nearest u m := by
  rcases Nat.eq_or_lt_of_le (Nat.div_le_div_right (c := u) h) with heq | hlt
  · -- between the same two multiples the remainders decide
    have hmod : n % u ≤ m % u := by
      have hn := Nat.div_add_mod n u
      have hm := Nat.div_add_mod m u
      rw [heq] at hn
      omega
    unfold nearest
    rw [heq]
    split
    · split
      · exact Nat.le_refl _
      · exact Nat.mul_le_mul_right u (Nat.le_succ _)
    · next hup =>
      rw [if_neg (by omega)]
  · calc nearest u n ≤ (n / u + 1) * u := nearest_le_succ
      _ ≤ m / u * u := Nat.mul_le_mul_right u hlt
      _ ≤ nearest u m := div_mul_le_nearest

theorem lastPlace_dvd {k : Nat} (hn : n.log2 ≤ k) : lastPlace n ∣ 2 ^ k :=
  Nat.pow_dvd_pow 2 (Nat.le_trans (Nat.sub_le ..) hn)

/-- The conversion of a number without sign keeps the order: between numbers of different
length there is a power of two. -/
theorem nearest_lastPlace_mono (h : n ≤ m) :
    nearest (lastPlace n) n ≤ nearest (lastPlace m) m := by
  rcases Nat.eq_zero_or_pos n with rfl | hn
  · simp [nearest_of_dvd (lastPlace_pos 0) (Nat.dvd_zero _)]
  have hm : m ≠ 0 := by omega
  have hlog : n.log2 ≤ m.log2 := (Nat.le_log2 hm).mpr ((Nat.log2_self_le (by omega)).trans h)
  rcases Nat.eq_or_lt_of_le hlog with heq | hlt
  · have hplace : lastPlace n = lastPlace m := by rw [lastPlace, lastPlace, heq]
    rw [hplace]
    exact nearest_mono h
  · have hbelow : n ≤ 2 ^ m.log2 := by
      have hlong : n < 2 ^ m.log2 := (Nat.log2_lt (by omega)).mp hlt
      exact hlong.le
    exact (nearest_le (lastPlace_pos n) (lastPlace_dvd hlt.le) hbelow).trans
      (le_nearest (lastPlace_dvd (Nat.le_refl _)) (Nat.log2_self_le hm))

theorem toDouble_of_nonneg (h : 0 ≤ t) : toDouble t = (nearest (lastPlace t.natAbs) t.natAbs : Nat) := by
  rcases h.lt_or_eq with hpos | rfl
  · rw [toDouble, Int.sign_eq_one_of_pos hpos, Int.one_mul]
  · simp [toDouble, nearest_of_dvd (lastPlace_pos 0) (Nat.dvd_zero _)]

theorem toDouble_of_neg (h : t < 0) : toDouble t = -(nearest (lastPlace t.natAbs) t.natAbs : Nat) := by
  rw [toDouble, Int.sign_eq_neg_one_of_neg h, Int.neg_one_mul]

theorem toDouble_mono (h : s ≤ t) : toDouble s ≤ toDouble t := by
  rcases lt_or_ge s 0 with hs | hs
  · rw [toDouble_of_neg hs]
    rcases lt_or_ge t 0 with ht | ht
    · rw [toDouble_of_neg ht]
      have habs : t.natAbs ≤ s.natAbs := by omega
      exact neg_le_neg (Int.ofNat_le.mpr (nearest_lastPlace_mono habs))
    · rw [toDouble_of_nonneg ht]
      omega
  · have ht : 0 ≤ t := hs.trans h
    rw [toDouble_of_nonneg hs, toDouble_of_nonneg ht]
    have habs : s.natAbs ≤ t.natAbs := by omega
    exact Int.ofNat_le.mpr (nearest_lastPlace_mono habs)

/-- A number of 53 bits is a double. -/
theorem toDouble_eq (h : t.natAbs < 2 ^ 53) : toDouble t = t := by
  have hplace : lastPlace t.natAbs = 1 := by
    rcases Nat.eq_zero_or_pos t.natAbs with hzero | hpos
    · rw [hzero]
      rfl
    · have hlog : t.natAbs.log2 < 53 := (Nat.log2_lt (by omega)).mpr h
      rw [lastPlace, show t.natAbs.log2 - 52 = 0 by omega, Nat.pow_zero]
  rw [toDouble, hplace, nearest_of_dvd Nat.one_pos (Nat.one_dvd _)]
  exact Int.sign_mul_natAbs t

end Rts2.Lib
