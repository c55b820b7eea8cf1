import Mathlib.Algebra.BigOperators.Ring.List
import Mathlib.Algebra.Order.BigOperators.Group.List
import Mathlib.Algebra.Order.Field.Basic
import Mathlib.Tactic.FieldSimp
import Mathlib.Tactic.Linarith
import Mathlib.Tactic.Ring

/-! # Means, deviations and least squares

Lists of numbers, and of points of a number over another one, in exact arithmetic. -/
namespace Rts2.Lib

variable {K : Type*} [Field K] [LinearOrder K] [IsStrictOrderedRing K]

/-- The mean. -/
def mean (l : List K) : K := l.sum / l.length

/-- The sum of the squared deviations from a number. -/
def squares (l : List K) (v : K) : K := (l.map fun x => (x - v) * (x - v)).sum

/-- An element of the list that no other one is less than, or greater than. -/
def IsMin {α : Type*} [LinearOrder α] (l : List α) (x : α) : Prop := x ∈ l ∧ ∀ y ∈ l, x ≤ y
def IsMax {α : Type*} [LinearOrder α] (l : List α) (x : α) : Prop := x ∈ l ∧ ∀ y ∈ l, y ≤ x

/-- In the middle of the list in its order, or between the two that are. -/
def IsMedian (l : List K) (x : K) : Prop :=
  ∃ sorted : List K, sorted.Perm l ∧ sorted.Pairwise (· ≤ ·) ∧
    if l.length % 2 = 1 then sorted[l.length / 2]? = some x
    else ∃ below above, sorted[l.length / 2 - 1]? = some below ∧ sorted[l.length / 2]? = some above ∧
      x = (below + above) / (2 : ℕ)

variable {l : List K} {v x : K}

/-! ## Extremes -/

section
variable {α : Type*} [LinearOrder α] {l sorted : List α}

theorem isMin_head (hne : l ≠ []) (hperm : sorted.Perm l) (hsorted : sorted.Pairwise (· ≤ ·)) :
    ∃ m, sorted.head? = some m ∧ IsMin l m := by
  cases sorted with
  | nil => exact absurd hperm.nil_eq.symm hne
  | cons m sorted =>
    refine ⟨m, rfl, hperm.subset List.mem_cons_self, fun y hy => ?_⟩
    rcases List.mem_cons.mp (hperm.symm.subset hy) with rfl | hy
    · exact le_refl y
    · exact List.rel_of_pairwise_cons hsorted hy

theorem isMax_getLast (hne : l ≠ []) (hperm : sorted.Perm l) (hsorted : sorted.Pairwise (· ≤ ·)) :
    ∃ m, sorted.getLast? = some m ∧ IsMax l m := by
  have hne' : sorted ≠ [] := fun h => hne (h ▸ hperm).nil_eq.symm
  refine ⟨sorted.getLast hne', List.getLast?_eq_getLast_of_ne_nil hne', ?_, fun y hy => ?_⟩
  · exact hperm.subset (List.getLast_mem hne')
  · have hy' := hperm.symm.subset hy
    rw [← List.dropLast_append_getLast hne'] at hsorted hy'
    rcases List.mem_append.mp hy' with hy' | hy'
    · exact (List.pairwise_append.mp hsorted).2.2 y hy' _ (List.mem_singleton_self _)
    · exact (List.mem_singleton.mp hy').le

end

/-! ## Deviations -/

theorem length_ne_zero {α : Type*} {l : List α} (h : l ≠ []) : (l.length : K) ≠ 0 :=
  Nat.cast_ne_zero.mpr fun hlength => h (List.length_eq_zero_iff.mp hlength)

theorem length_mul_mean (h : l ≠ []) : l.length * mean l = l.sum :=
  mul_div_cancel₀ l.sum (length_ne_zero h)

omit [LinearOrder K] [IsStrictOrderedRing K] in
/-- The squares around one number and around another one. -/
theorem squares_shift (l : List K) (v m : K) :
    squares l v = squares l m + 2 * (m - v) * (l.sum - l.length * m) + l.length * ((m - v) * (m - v)) := by
  induction l with
  | nil => simp [squares]
  | cons x l ih =>
    have hcons : ∀ v, squares (x :: l) v = (x - v) * (x - v) + squares l v := fun v => rfl
    rw [hcons, hcons, ih, List.sum_cons, List.length_cons]
    push_cast
    ring

/-- They are least around the mean. -/
theorem squares_mean (h : l ≠ []) (v : K) :
    squares l v = squares l (mean l) + l.length * ((mean l - v) * (mean l - v)) := by
  rw [squares_shift l v (mean l), length_mul_mean h, sub_self, mul_zero, add_zero]

theorem squares_eq_iff (h : l ≠ []) : squares l v = squares l (mean l) ↔ v = mean l := by
  rw [squares_mean h]
  constructor
  · intro heq
    have hzero := left_eq_add.mp heq.symm
    have hdiff : mean l - v = 0 :=
      mul_self_eq_zero.mp ((mul_eq_zero.mp hzero).resolve_left (length_ne_zero h))
    exact (sub_eq_zero.mp hdiff).symm
  · intro heq
    rw [heq, sub_self, mul_zero, mul_zero, add_zero]

theorem squares_nonneg (l : List K) (v : K) : 0 ≤ squares l v := by
  refine List.sum_nonneg fun y hy => ?_
  obtain ⟨x, -, rfl⟩ := List.mem_map.mp hy
  exact mul_self_nonneg _

/-- Nothing deviates from a number only when all are equal to it. -/
theorem squares_eq_zero (h : squares l v = 0) : ∀ x ∈ l, x = v := by
  induction l with
  | nil => simp
  | cons y l ih =>
    have hsum : (y - v) * (y - v) + squares l v = 0 := h
    have hboth := (add_eq_zero_iff_of_nonneg (mul_self_nonneg _) (squares_nonneg l v)).mp hsum
    intro x hx
    rcases List.mem_cons.mp hx with rfl | hx
    · exact sub_eq_zero.mp (mul_self_eq_zero.mp hboth.1)
    · exact ih hboth.2 x hx

/-! ## Lines -/

section
variable (points : List (K × K))

/-- The mean of the times. -/
def meanTime : K := mean (points.map Prod.snd)

/-- The products of the values and the times from a center. -/
def products (center : K) : K := (points.map fun p => (p.2 - center) * p.1).sum

/-- What a line of a constant term and a slope leaves, in the time from a center. -/
def residual (center a b : K) : K :=
  (points.map fun p => (p.1 - (a + b * (p.2 - center))) * (p.1 - (a + b * (p.2 - center)))).sum

/-- No line leaves less. -/
def LeastSquares (a b : K) : Prop :=
  ∀ a' b', residual points (meanTime points) a b ≤ residual points (meanTime points) a' b'

omit [LinearOrder K] [IsStrictOrderedRing K] in
/-- How much more a line leaves than another one. -/
theorem residual_shift (center a b a' b' : K) :
    residual points center a' b' = residual points center a b
      + 2 * (a - a') * ((points.map Prod.fst).sum - points.length * a
        - b * ((points.map Prod.snd).sum - points.length * center))
      + 2 * (b - b') * (products points center - a * ((points.map Prod.snd).sum - points.length * center)
        - b * squares (points.map Prod.snd) center)
      + points.length * ((a - a') * (a - a'))
      + 2 * (a - a') * (b - b') * ((points.map Prod.snd).sum - points.length * center)
      + (b - b') * (b - b') * squares (points.map Prod.snd) center := by
  induction points with
  | nil => simp [residual, products, squares]
  | cons p points ih =>
    have hres : ∀ a b, residual (p :: points) center a b =
        (p.1 - (a + b * (p.2 - center))) * (p.1 - (a + b * (p.2 - center))) + residual points center a b :=
      fun a b => rfl
    have hprod : products (p :: points) center = (p.2 - center) * p.1 + products points center := rfl
    have hsq : squares ((p :: points).map Prod.snd) center =
        (p.2 - center) * (p.2 - center) + squares (points.map Prod.snd) center := rfl
    rw [hres, hres, hprod, hsq, ih, List.map_cons, List.map_cons, List.sum_cons, List.sum_cons,
      List.length_cons]
    push_cast
    ring

/-- Around the mean time, a line leaves what the line through the mean does, with the slope of the
products, and its distance from that line. -/
theorem residual_mean (hne : points ≠ []) {b : K}
    (hslope : b * squares (points.map Prod.snd) (meanTime points) = products points (meanTime points))
    (a' b' : K) :
    residual points (meanTime points) a' b' =
      residual points (meanTime points) (mean (points.map Prod.fst)) b
        + points.length * ((mean (points.map Prod.fst) - a') * (mean (points.map Prod.fst) - a'))
        + (b - b') * (b - b') * squares (points.map Prod.snd) (meanTime points) := by
  have htimes : points.length * meanTime points = (points.map Prod.snd).sum := by
    have hlength := length_mul_mean (l := points.map Prod.snd) (by simpa using hne)
    rwa [List.length_map] at hlength
  have hvalues : points.length * mean (points.map Prod.fst) = (points.map Prod.fst).sum := by
    have hlength := length_mul_mean (l := points.map Prod.fst) (by simpa using hne)
    rwa [List.length_map] at hlength
  rw [residual_shift points (meanTime points) (mean (points.map Prod.fst)) b a' b', htimes, hvalues, hslope]
  ring

/-- The line of least squares, when not all times are equal. -/
theorem leastSquares_iff (hne : points ≠ []) {a b : K}
    (htimes : squares (points.map Prod.snd) (meanTime points) ≠ 0) :
    LeastSquares points a b ↔ a = mean (points.map Prod.fst) ∧
      b = products points (meanTime points) / squares (points.map Prod.snd) (meanTime points) := by
  have hlength : (0 : K) < points.length :=
    Nat.cast_pos.mpr (List.length_pos_iff.mpr hne)
  have hpos : 0 < squares (points.map Prod.snd) (meanTime points) :=
    lt_of_le_of_ne (squares_nonneg _ _) htimes.symm
  have hslope := div_mul_cancel₀ (products points (meanTime points)) htimes
  have hline := residual_mean points hne hslope
  constructor
  · intro hleast
    have hle := hleast (mean (points.map Prod.fst))
      (products points (meanTime points) / squares (points.map Prod.snd) (meanTime points))
    rw [hline a b, add_assoc] at hle
    have hconst := mul_nonneg hlength.le (mul_self_nonneg (mean (points.map Prod.fst) - a))
    have hrise := mul_nonneg (mul_self_nonneg
      (products points (meanTime points) / squares (points.map Prod.snd) (meanTime points) - b)) hpos.le
    have hzero := (add_eq_zero_iff_of_nonneg hconst hrise).mp
      (le_antisymm (by linarith) (add_nonneg hconst hrise))
    refine ⟨?_, ?_⟩
    · have hdiff := mul_self_eq_zero.mp ((mul_eq_zero.mp hzero.1).resolve_left hlength.ne')
      exact (sub_eq_zero.mp hdiff).symm
    · have hdiff := mul_self_eq_zero.mp ((mul_eq_zero.mp hzero.2).resolve_right htimes)
      exact (sub_eq_zero.mp hdiff).symm
  · intro hline' a' b'
    obtain ⟨rfl, rfl⟩ := hline'
    rw [hline a' b', add_assoc]
    refine le_add_of_nonneg_right (add_nonneg ?_ ?_)
    · exact mul_nonneg hlength.le (mul_self_nonneg _)
    · exact mul_nonneg (mul_self_nonneg _) hpos.le

end

end Rts2.Lib
