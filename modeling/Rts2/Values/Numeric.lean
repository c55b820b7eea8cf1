import Rts2.Daemon.SetValue
import Mathlib.Algebra.Order.Floor.Ring
import Mathlib.Data.Rat.Floor
import Mathlib.Tactic.FieldSimp
import Mathlib.Tactic.Linarith
import Mathlib.Tactic.NormNum
import Mathlib.Tactic.Ring

/-! # Numeric values

The values that take the operators `+=` and `-=`, with exact numbers in place of
`double` and of `int`. -/
namespace Rts2.Values
open Rts2.Daemon

/-- The classes of numeric values; the flag of two of them is the display type
`RTS2_DT_DEG_DIST_180`, a distance in degrees kept between -180 and 180. -/
inductive Kind where
  | integer
  | long
  | double (degDist180 : Bool)
  | float
  | raDec (degDist180 : Bool)
  | altAz
  | pid
  deriving DecidableEq, Repr

def Kind.degDist180 : Kind → Bool
  | .double d => d
  | .raDec d => d
  | _ => false

inductive Value (K : Type) : Kind → Type where
  | integer (value : Int) : Value K .integer
  | long (value : Int) : Value K .long
  | double {d : Bool} (value : K) : Value K (.double d)
  | float (value : K) : Value K .float
  | raDec {d : Bool} (ra decl : K) : Value K (.raDec d)
  | altAz (alt az : K) : Value K .altAz
  | pid (kP kI kD : K) : Value K .pid

variable {K : Type} [Field K] [LinearOrder K] [IsStrictOrderedRing K]

/-- The literal of the half circle. -/
instance atLeastTwo180 : Nat.AtLeastTwo 180 := inferInstance

/-- `ln_range_degrees`: puts an angle in the range 0 to 360 degrees. -/
class LnRangeDegrees (K : Type) [Field K] [LinearOrder K] where
  lnRangeDegrees : K → K
  nonneg : ∀ x, 0 ≤ lnRangeDegrees x
  le_circle : ∀ x, lnRangeDegrees x ≤ 360
  turns : ∀ x, ∃ n : ℤ, lnRangeDegrees x = x + 360 * n

open LnRangeDegrees (lnRangeDegrees)

instance : LnRangeDegrees ℚ where
  lnRangeDegrees x := x - 360 * ⌊x / 360⌋
  nonneg x := by
    have h := Int.floor_le (x / 360)
    rw [le_div_iff₀ (by norm_num)] at h
    linarith
  le_circle x := by
    have h := Int.lt_floor_add_one (x / 360)
    rw [div_lt_iff₀ (by norm_num)] at h
    linarith
  turns x := ⟨-⌊x / 360⌋, by push_cast; ring⟩

section Angles

variable [LnRangeDegrees K]

/-- The normalisation of `ValueDouble::setValueDouble` and of `ValueRaDec::setRa`
and `setDec`. -/
def degDist (x : K) : K :=
  if lnRangeDegrees x > 180 then lnRangeDegrees x - 360 else lnRangeDegrees x

theorem degDist_bounds (x : K) : -180 < degDist x ∧ degDist x ≤ 180 := by
  have h0 := LnRangeDegrees.nonneg x
  have h360 := LnRangeDegrees.le_circle x
  unfold degDist
  split
  · next h => constructor <;> linarith
  · next h => constructor <;> linarith [not_lt.mp h]

omit [IsStrictOrderedRing K] in
theorem degDist_turns (x : K) : ∃ n : ℤ, degDist x = x + 360 * n := by
  obtain ⟨n, hn⟩ := LnRangeDegrees.turns x
  unfold degDist
  split
  · exact ⟨n - 1, by rw [hn]; push_cast; ring⟩
  · exact ⟨n, hn⟩

/-- One angle between -180 and 180 differs from `x` by whole turns. -/
theorem degDist_unique {x y : K} (hl : -180 < y) (hu : y ≤ 180) {n : ℤ}
    (hn : y = x + 360 * n) : degDist x = y := by
  obtain ⟨hl', hu'⟩ := degDist_bounds x
  obtain ⟨m, hm⟩ := degDist_turns x
  have hd : degDist x - y = 360 * ((m - n : ℤ) : K) := by
    rw [hm, hn]
    push_cast
    ring
  have hlt : ((m - n : ℤ) : K) < ((1 : ℤ) : K) := by
    push_cast at hd ⊢
    linarith
  have hgt : ((-1 : ℤ) : K) < ((m - n : ℤ) : K) := by
    push_cast at hd ⊢
    linarith
  have hz : m - n = 0 := by
    have h1 := Int.cast_lt.mp hlt
    have h2 := Int.cast_lt.mp hgt
    omega
  rw [hz] at hd
  simpa [sub_eq_zero] using hd

theorem degDist_eq_self_iff (x : K) : degDist x = x ↔ -180 < x ∧ x ≤ 180 := by
  constructor
  · intro h
    rw [← h]
    exact degDist_bounds x
  · rintro ⟨hl, hu⟩
    exact degDist_unique hl hu (n := 0) (by simp)

end Angles

end Rts2.Values
