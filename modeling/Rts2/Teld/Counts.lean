import Mathlib.Tactic.Ring
import Rts2.Teld.Gem

/-! # Counts and angles

A `double` that becomes a count loses its fraction, towards zero; the language says what
becomes of it only if it fits. `ln_range_degrees` of libnova takes whole turns away. -/
namespace Rts2.Teld

/-! ## Counts -/

theorem toCounts_of_nonneg {x : ℚ} (h : 0 ≤ x) : toCounts x = ⌊x⌋ := by
  rw [toCounts, Int.tdiv_eq_ediv_of_nonneg (Rat.num_nonneg.mpr h), Rat.floor_def']

theorem toCounts_neg (x : ℚ) : toCounts (-x) = -toCounts x := by
  simp [toCounts, Int.neg_tdiv]

theorem toCounts_of_nonpos {x : ℚ} (h : x ≤ 0) : toCounts x = ⌈x⌉ := by
  have hneg := toCounts_of_nonneg (neg_nonneg.mpr h)
  rw [toCounts_neg, Int.floor_neg] at hneg
  exact neg_inj.mp hneg

/-- Less than a count is lost. -/
theorem abs_toCounts_sub_lt (x : ℚ) : |(toCounts x : ℚ) - x| < 1 := by
  rw [abs_lt]
  rcases le_total 0 x with h | h
  · rw [toCounts_of_nonneg h]
    have hl := Int.floor_le x
    have hu := Int.lt_floor_add_one x
    constructor <;> linarith
  · rw [toCounts_of_nonpos h]
    have hl := Int.le_ceil x
    have hu := Int.ceil_lt_add_one x
    constructor <;> linarith

theorem toCounts_intCast (n : Int) : toCounts (n : ℚ) = n := by simp [toCounts]

/-- A whole number that is an `int32_t`. -/
def Int32 (n : Int) : Prop := -2 ^ 31 ≤ n ∧ n < 2 ^ 31

instance Int32.decidable (n : Int) : Decidable (Int32 n) := inferInstanceAs (Decidable (_ ∧ _))

/-- A number stored as `int32_t`; none if it does not fit. -/
def int32 (n : Int) : Option Int := if Int32 n then some n else none

theorem int32_eq_some {n m : Int} : int32 n = some m ↔ Int32 n ∧ n = m := by
  unfold int32
  split
  · next h => simp [h]
  · next h => simp [h]

theorem int32_of {n : Int} (h : Int32 n) : int32 n = some n := if_pos h

/-- The whole part of a number fits. -/
theorem int32_toCounts_iff {x : ℚ} : Int32 (toCounts x) ↔ -2 ^ 31 - 1 < x ∧ x < 2 ^ 31 := by
  unfold Int32
  rcases le_total 0 x with h | h
  · have h0 : 0 ≤ toCounts x := toCounts_nonneg h
    have hl : -2 ^ 31 - 1 < x := lt_of_lt_of_le (by norm_num) h
    refine ⟨fun hn => ⟨hl, ?_⟩, fun hn => ⟨by omega, ?_⟩⟩
    · have hu := hn.2
      rw [toCounts_of_nonneg h, Int.floor_lt] at hu
      exact_mod_cast hu
    · rw [toCounts_of_nonneg h, Int.floor_lt]
      exact_mod_cast hn.2
  · have h0 : toCounts x ≤ 0 := by
      have := toCounts_nonneg (neg_nonneg.mpr h)
      rw [toCounts_neg] at this
      omega
    have hu : x < 2 ^ 31 := lt_of_le_of_lt h (by norm_num)
    refine ⟨fun hn => ⟨?_, hu⟩, fun hn => ⟨?_, by omega⟩⟩
    · have hl : -2 ^ 31 - 1 < toCounts x := by omega
      rw [toCounts_of_nonpos h, Int.lt_ceil] at hl
      exact_mod_cast hl
    · have hl : -2 ^ 31 - 1 < toCounts x := by
        rw [toCounts_of_nonpos h, Int.lt_ceil]
        exact_mod_cast hn.1
      omega

/-! ## Angles -/

/-- What libnova promises of `ln_range_degrees`. -/
structure RangeDegrees (rangeDegrees : ℚ → ℚ) : Prop where
  nonneg : ∀ x, 0 ≤ rangeDegrees x
  le_circle : ∀ x, rangeDegrees x ≤ 360
  lt_circle : ∀ x, 0 ≤ x → rangeDegrees x < 360
  turns : ∀ x, ∃ n : ℤ, rangeDegrees x = x + 360 * n

/-- Two angles less than a turn apart, whole turns apart, are one. -/
theorem eq_of_turns {x y : ℚ} {n : ℤ} (h : y = x + 360 * n) (hl : -360 < y - x)
    (hu : y - x < 360) : y = x := by
  have hlt : (n : ℚ) < ((1 : ℤ) : ℚ) := by
    push_cast
    linarith
  have hgt : ((-1 : ℤ) : ℚ) < n := by
    push_cast
    linarith
  have hzero : n = 0 := by
    have h1 := Int.cast_lt.mp hlt
    have h2 := Int.cast_lt.mp hgt
    omega
  rw [h, hzero]
  simp

namespace RangeDegrees
variable {rangeDegrees : ℚ → ℚ} (h : RangeDegrees rangeDegrees)
include h

theorem keeps {x : ℚ} (h0 : 0 ≤ x) (h360 : x < 360) : rangeDegrees x = x := by
  obtain ⟨n, hn⟩ := h.turns x
  have hl := h.nonneg x
  have hu := h.lt_circle x h0
  exact eq_of_turns hn (by linarith) (by linarith)

theorem of_neg {x : ℚ} (hl : -360 < x) (hneg : x < 0) : rangeDegrees x = x + 360 := by
  obtain ⟨n, hn⟩ := h.turns x
  have h0 := h.nonneg x
  have h360 := h.le_circle x
  refine eq_of_turns (n := n - 1) (by rw [hn]; push_cast; ring) (by linarith) (by linarith)

theorem of_turn {x : ℚ} (hl : 360 ≤ x) (hu : x < 720) : rangeDegrees x = x - 360 := by
  obtain ⟨n, hn⟩ := h.turns x
  have h0 := h.nonneg x
  have h360 := h.lt_circle x (by linarith)
  refine eq_of_turns (n := n + 1) (by rw [hn]; push_cast; ring) (by linarith) (by linarith)

end RangeDegrees

/-- Whole turns are taken away. -/
def wholeTurnsOff (x : ℚ) : ℚ := x - 360 * ⌊x / 360⌋

theorem rangeDegrees_wholeTurnsOff : RangeDegrees wholeTurnsOff := by
  have hl : ∀ x, 0 ≤ wholeTurnsOff x := fun x => by
    have h := Int.floor_le (x / 360)
    rw [le_div_iff₀ (by norm_num)] at h
    unfold wholeTurnsOff
    linarith
  have hu : ∀ x, wholeTurnsOff x < 360 := fun x => by
    have h := Int.lt_floor_add_one (x / 360)
    rw [div_lt_iff₀ (by norm_num)] at h
    unfold wholeTurnsOff
    linarith
  exact
    { nonneg := hl
      le_circle := fun x => (hu x).le
      lt_circle := fun x _ => hu x
      turns := fun x => ⟨-⌊x / 360⌋, by unfold wholeTurnsOff; push_cast; ring⟩ }

end Rts2.Teld
