import Mathlib.Algebra.Field.Rat
import Mathlib.Algebra.Order.Ring.Rat

/-! # Doubles

A `double` is a rational, an infinity or no number; sums are not rounded. A comparison with
NaN is false. -/
namespace Rts2.Lib

inductive Double where
  | nan
  | inf (neg : Bool)
  | fin (x : ℚ)
  deriving DecidableEq

namespace Double

def isNan (x : Double) : Bool := x = nan

def isInf (x : Double) : Bool := x = inf true || x = inf false

/-- `x < y` -/
def less : Double → Double → Bool
  | nan, _ => false
  | _, nan => false
  | inf neg, inf neg' => neg && !neg'
  | inf neg, fin _ => neg
  | fin _, inf neg => !neg
  | fin x, fin y => x < y

instance : LT Double := ⟨fun x y => less x y = true⟩

instance : DecidableLT Double := fun x y => inferInstanceAs (Decidable (less x y = true))

/-- `x == y` -/
def eq (x y : Double) : Bool := x = y && !x.isNan

/-- `x <= y` -/
def lessEq (x y : Double) : Bool := less x y || eq x y

instance : LE Double := ⟨fun x y => lessEq x y = true⟩

instance : DecidableLE Double := fun x y => inferInstanceAs (Decidable (lessEq x y = true))

/-- `x + y` -/
def add : Double → Double → Double
  | nan, _ => nan
  | _, nan => nan
  | inf neg, inf neg' => if neg = neg' then inf neg else nan
  | inf neg, fin _ => inf neg
  | fin _, inf neg => inf neg
  | fin x, fin y => fin (x + y)

instance : Add Double := ⟨add⟩

/-- `x - y` -/
def sub (x : Double) : Double → Double
  | nan => nan
  | inf neg => x + inf !neg
  | fin y => x + fin (-y)

instance : Sub Double := ⟨sub⟩

/-- `x / y`, for a finite `y` greater than zero. -/
def divPos : Double → ℚ → Double
  | nan, _ => nan
  | inf neg, _ => inf neg
  | fin x, y => fin (x / y)

/-- A number as a condition: whatever is not zero. -/
def toBool (x : Double) : Bool := x ≠ fin 0

variable {x y z : Double} {a b : ℚ}

@[simp] theorem isNan_nan : nan.isNan = true := rfl
@[simp] theorem isNan_inf (neg : Bool) : (inf neg).isNan = false := rfl
@[simp] theorem isNan_fin (a : ℚ) : (fin a).isNan = false := rfl

@[simp] theorem fin_lt_fin : fin a < fin b ↔ a < b := decide_eq_true_iff

@[simp] theorem fin_add_fin (a b : ℚ) : fin a + fin b = fin (a + b) := rfl

theorem eq_of_eq (h : x.eq y = true) : x = y := by
  simp only [eq, Bool.and_eq_true, decide_eq_true_eq] at h
  exact h.1

theorem not_nan_lt : ¬nan < x := by
  cases x <;> exact Bool.false_ne_true

theorem not_lt_nan : ¬x < nan := by
  cases x <;> exact Bool.false_ne_true

theorem isNan_eq_false_of_lt (h : x < y) : x.isNan = false ∧ y.isNan = false := by
  constructor
  · cases x with
    | nan => exact absurd h not_nan_lt
    | inf neg => rfl
    | fin a => rfl
  · cases y with
    | nan => exact absurd h not_lt_nan
    | inf neg => rfl
    | fin b => rfl

@[simp] theorem inf_lt_inf {neg neg' : Bool} : inf neg < inf neg' ↔ neg = true ∧ neg' = false := by
  show (neg && !neg') = true ↔ _
  rw [Bool.and_eq_true, Bool.not_eq_true']

@[simp] theorem inf_lt_fin {neg : Bool} : inf neg < fin a ↔ neg = true := Iff.rfl

@[simp] theorem fin_lt_inf {neg : Bool} : fin a < inf neg ↔ neg = false := Bool.not_eq_true' neg ▸ Iff.rfl

theorem lt_trans (hxy : x < y) (hyz : y < z) : x < z := by
  cases y with
  | nan => exact absurd hxy not_lt_nan
  | inf neg =>
    cases x with
    | nan => exact absurd hxy not_nan_lt
    | inf neg' =>
      obtain ⟨_, rfl⟩ := inf_lt_inf.mp hxy
      cases z <;> simp_all [not_lt_nan]
    | fin a =>
      obtain rfl := fin_lt_inf.mp hxy
      cases z <;> simp_all [not_lt_nan]
  | fin b =>
    cases z with
    | nan => exact absurd hyz not_lt_nan
    | inf neg =>
      obtain rfl := fin_lt_inf.mp hyz
      cases x <;> simp_all [not_nan_lt]
    | fin c =>
      cases x with
      | nan => exact absurd hxy not_nan_lt
      | inf neg => exact hxy
      | fin a => exact fin_lt_fin.mpr ((fin_lt_fin.mp hxy).trans (fin_lt_fin.mp hyz))

theorem lt_irrefl : ¬x < x := by
  cases x with
  | nan => exact not_nan_lt
  | inf neg => cases neg <;> simp
  | fin a => simp

theorem le_iff : x ≤ y ↔ x < y ∨ x = y ∧ x.isNan = false := by
  show (less x y || eq x y) = true ↔ (less x y = true) ∨ _
  simp only [eq, Bool.or_eq_true, Bool.and_eq_true, decide_eq_true_eq, Bool.not_eq_true']

theorem le_of_lt (h : x < y) : x ≤ y := le_iff.mpr (Or.inl h)

theorem le_refl (h : x.isNan = false) : x ≤ x := le_iff.mpr (Or.inr ⟨rfl, h⟩)

theorem isNan_eq_false_of_le (h : x ≤ y) : x.isNan = false ∧ y.isNan = false := by
  obtain hlt | ⟨rfl, hnan⟩ := le_iff.mp h
  · exact isNan_eq_false_of_lt hlt
  · exact ⟨hnan, hnan⟩

theorem le_trans (hxy : x ≤ y) (hyz : y ≤ z) : x ≤ z := by
  obtain hlt | ⟨rfl, _⟩ := le_iff.mp hxy
  · obtain hlt' | ⟨rfl, _⟩ := le_iff.mp hyz
    · exact le_of_lt (lt_trans hlt hlt')
    · exact hxy
  · exact hyz

@[simp] theorem fin_le_fin : fin a ≤ fin b ↔ a ≤ b := by
  rw [le_iff, fin_lt_fin, fin.injEq, le_iff_lt_or_eq]
  simp only [isNan_fin, and_true]

/-- What is not before a finite time. -/
theorem fin_le_iff : fin a ≤ x ↔ x = inf false ∨ ∃ b, x = fin b ∧ a ≤ b := by
  constructor
  · intro h
    cases x with
    | nan => cases (isNan_eq_false_of_le h).2
    | inf neg =>
      obtain hlt | ⟨heq, _⟩ := le_iff.mp h
      · exact Or.inl (fin_lt_inf.mp hlt ▸ rfl)
      · cases heq
    | fin b => exact Or.inr ⟨b, rfl, fin_le_fin.mp h⟩
  · intro h
    obtain rfl | ⟨b, rfl, hab⟩ := h
    · exact le_of_lt (fin_lt_inf.mpr rfl)
    · exact fin_le_fin.mpr hab

end Double
end Rts2.Lib
