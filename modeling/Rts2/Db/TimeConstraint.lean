import Rts2.Db.SatisfiedIntervals

/-! # Satisfied intervals of a time constraint

A time constraint gives its intervals without samples. Its bounds are Julian dates, and
the window counts seconds. -/
namespace Rts2.Db
open Rts2.Lib

variable {L : Libnova} {tar : Target} {fromT toT step : Int}
  {intervals : List ConstraintDoubleInterval}

/-- The intervals are those in which the constraint is satisfied, and the samples find
the same where nothing changes for a step. -/
structure TimeIntervals (L : Libnova) (tar : Target) (fromT toT step : Int)
    (intervals : List ConstraintDoubleInterval) (ret : Intervals) : Prop where
  ordered : Ordered ret
  within : Within fromT toT ret
  covers : ∀ x, fromT ≤ x → x < toT →
    (Covers ret x ↔ ((Constraint.interval .time intervals).satisfy tar (L.julian x)).1 = true)
  agrees : ∀ x, fromT ≤ x → x < toT →
    (∀ y, y ≤ x → x < y + step →
      ((Constraint.interval .time intervals).satisfy tar (L.julian y)).1 =
        ((Constraint.interval .time intervals).satisfy tar (L.julian x)).1) →
    (Covers ((Constraint.interval .time intervals).sampled L tar fromT toT step) x ↔ Covers ret x)

/-- What covers the right times agrees with the samples. -/
theorem TimeIntervals.of_covers {ret : Intervals} (hstep : 0 < step) (hordered : Ordered ret)
    (hwithin : Within fromT toT ret)
    (hcovers : ∀ x, fromT ≤ x → x < toT →
      (Covers ret x ↔ ((Constraint.interval .time intervals).satisfy tar (L.julian x)).1 = true)) :
    TimeIntervals L tar fromT toT step intervals ret := by
  refine ⟨hordered, hwithin, hcovers, fun x hfrom hto hsteady => ?_⟩
  have hmod := Int.emod_add_mul_ediv (x - fromT) step
  have hnonneg := Int.emod_nonneg (x - fromT) (by omega : step ≠ 0)
  have hlt := Int.emod_lt_of_pos (x - fromT) hstep
  rw [mul_comm] at hmod
  rw [Constraint.sampled_covers _ hstep (fun _ => rfl) hfrom hto, hcovers x hfrom hto,
    hsteady _ (by omega) (by omega)]

/-- The interval gives nothing. -/
def ConstraintDoubleInterval.Silent (fromT toT : Int) (i : ConstraintDoubleInterval) : Prop :=
  match i.upper, i.lower with
  | some l, some u => l < fromT ∨ toT < u
  | none, some u => toT < u
  | some l, none => l < fromT
  | none, none => True

theorem ConstraintDoubleInterval.timeIntervals_nil (i : ConstraintDoubleInterval) :
    i.timeIntervals fromT toT = [] ↔ i.Silent fromT toT := by
  unfold ConstraintDoubleInterval.timeIntervals ConstraintDoubleInterval.Silent
  cases i.upper with
  | none =>
    cases i.lower with
    | none => simp
    | some u => simp
  | some l =>
    cases i.lower with
    | none => simp
    | some u => simp [imp_iff_not_or]

/-- No interval gives anything, and the constraint is not satisfied in the window. -/
def NeverThen (L : Libnova) (tar : Target) (fromT toT : Int)
    (intervals : List ConstraintDoubleInterval) : Prop :=
  (∀ i ∈ intervals, i.Silent fromT toT) ∧ ∀ x, fromT ≤ x → x < toT →
    ((Constraint.interval .time intervals).satisfy tar (L.julian x)).1 = false

/-- The dates of the interval, read as seconds, are before the window. -/
def ConstraintDoubleInterval.Dated (fromT : Int) (i : ConstraintDoubleInterval) : Prop :=
  (∀ u ∈ i.lower, toTimet u < fromT) ∧ ∀ l ∈ i.upper, toTimet l < fromT

theorem le_toTimet {n : Int} {q : ℚ} (h : (n : ℚ) ≤ q) : n ≤ toTimet q := by
  have hden : (0 : Int) < q.den := by exact_mod_cast q.den_pos
  have hnum : n * q.den ≤ q.num := by
    have hq : (q : ℚ) * q.den = q.num := Rat.mul_den_eq_num q
    have hle : (n : ℚ) * q.den ≤ q.num := by
      rw [← hq]
      exact mul_le_mul_of_nonneg_right h (by exact_mod_cast q.den_pos.le)
    exact_mod_cast hle
  unfold toTimet
  rcases le_or_gt 0 q.num with hpos | hneg
  · rw [Int.tdiv_eq_ediv_of_nonneg hpos]
    exact (Int.le_ediv_iff_mul_le hden).mpr hnum
  · have hopp : (-q.num).tdiv q.den ≤ -n := by
      rw [Int.tdiv_eq_ediv_of_nonneg (by omega)]
      exact Int.ediv_le_of_le_mul hden (by linarith)
    rw [Int.neg_tdiv] at hopp
    omega

/-- **A time constraint is right when it is silent** and not satisfied in the window; with
dates that are seconds before the window it is right then only. -/
theorem timeIntervals_right (L : Libnova) (tar : Target) {fromT toT step : Int}
    (hstep : 0 < step) (intervals : List ConstraintDoubleInterval) :
    (NeverThen L tar fromT toT intervals → TimeIntervals L tar fromT toT step intervals
      ((Constraint.interval .time intervals).getSatisfiedIntervals L tar fromT toT step)) ∧
    ((∀ i ∈ intervals, i.Dated fromT) →
      TimeIntervals L tar fromT toT step intervals
        ((Constraint.interval .time intervals).getSatisfiedIntervals L tar fromT toT step) →
      NeverThen L tar fromT toT intervals) := by
  have hnil : (∀ i ∈ intervals, i.Silent fromT toT) →
      (Constraint.interval .time intervals).getSatisfiedIntervals L tar fromT toT step = [] := by
    intro hsilent
    exact List.flatMap_eq_nil_iff.mpr fun i hi => i.timeIntervals_nil.mpr (hsilent i hi)
  constructor
  · rintro ⟨hsilent, hnever⟩
    rw [hnil hsilent]
    refine .of_covers hstep ordered_nil within_nil fun x hfrom hto => ?_
    rw [hnever x hfrom hto]
    exact iff_of_false covers_nil Bool.false_ne_true
  · intro hdated hright
    have hsilent : ∀ i ∈ intervals, i.Silent fromT toT := by
      intro i hi
      obtain ⟨hlower, hupper⟩ := hdated i hi
      have hpast : ∀ {q : ℚ}, toTimet q < fromT → q < fromT := fun h =>
        lt_of_not_ge fun hge => absurd (le_toTimet hge) (not_le.mpr h)
      unfold ConstraintDoubleInterval.Silent
      cases hl : i.upper with
      | some l =>
        have hbefore := hpast (hupper l hl)
        cases hu : i.lower with
        | none => exact hbefore
        | some u => exact .inl hbefore
      | none =>
        cases hu : i.lower with
        | none => trivial
        | some u =>
          -- the interval would end before the window begins
          by_contra hto
          have hmem : (fromT, toTimet u) ∈
              (Constraint.interval .time intervals).getSatisfiedIntervals L tar fromT toT step := by
            refine List.mem_flatMap.mpr ⟨i, hi, ?_⟩
            unfold ConstraintDoubleInterval.timeIntervals
            simp only [hl, hu]
            rw [if_pos (not_lt.mp hto)]
            exact List.mem_singleton_self _
          exact absurd (hright.ordered.1 _ hmem) (not_le.mpr (hlower u hu))
    refine ⟨hsilent, fun x hfrom hto => ?_⟩
    have hcovers := hright.covers x hfrom hto
    rw [hnil hsilent] at hcovers
    by_contra hsat
    exact covers_nil (hcovers.mpr (by simpa using hsat))

/-- February 2020, in a window of January. -/
theorem timeIntervals_right_february : TimeIntervals .exact risingStar 1578614400 1579478400 60
    [⟨some (4917761 / 2), some (4917819 / 2)⟩]
    ((Constraint.interval .time [⟨some (4917761 / 2), some (4917819 / 2)⟩]).getSatisfiedIntervals
      .exact risingStar 1578614400 1579478400 60) := by
  refine (timeIntervals_right .exact risingStar (by norm_num) _).1 ⟨?_, fun x _ hto => ?_⟩
  · exact List.forall_mem_singleton.mpr (.inl (by norm_num))
  · have hdate : (4881175 / 2 + (x : ℚ) / 86400 : ℚ) < 4917761 / 2 := by
      have hx : (x : ℚ) < 1579478400 := by exact_mod_cast hto
      linarith
    simp only [Constraint.satisfy, isBetween, List.any_cons, List.any_nil, Bool.or_false,
      ConstraintDoubleInterval.satisfy, between, Libnova.exact, Bool.and_eq_false_iff,
      decide_eq_false_iff_not, not_le]
    exact .inl hdate

/-- January 2020 gives nothing for a window in it. -/
theorem january_missed : ¬TimeIntervals .exact risingStar 1578614400 1579478400 60
    [⟨some (4917699 / 2), some (4917761 / 2)⟩]
    ((Constraint.interval .time [⟨some (4917699 / 2), some (4917761 / 2)⟩]).getSatisfiedIntervals
      .exact risingStar 1578614400 1579478400 60) := by
  intro h
  have hnil : (Constraint.interval .time
      [⟨some (4917699 / 2), some (4917761 / 2)⟩]).getSatisfiedIntervals .exact risingStar
        1578614400 1579478400 60 = [] := by decide +kernel
  have hcovers := (h.covers 1578614400 (le_refl _) (by norm_num)).mpr (by decide +kernel)
  rw [hnil] at hcovers
  exact covers_nil hcovers

end Rts2.Db
