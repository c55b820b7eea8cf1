import Mathlib.Data.Rat.Floor
import Rts2.Lib.Intervals

/-! # Observing constraints

A constraint is a list of intervals a quantity of the target must lie in, or a bound on
the number of observations. It is asked for the times of a window at which it is
satisfied; most constraints sample the window. A NaN is `none`. -/
namespace Rts2.Db
open Rts2.Lib

/-- The conversions of libnova: a Julian date counts days, a `time_t` seconds. -/
structure Libnova where
  julian : Int → ℚ
  timet : ℚ → Int
  julian_add : ∀ t s : Int, julian (t + s) = julian t + s / 86400
  timet_julian : ∀ t : Int, timet (julian t) = t

/-- The conversions, without the rounding of floating point numbers. -/
def Libnova.exact : Libnova where
  julian t := 4881175 / 2 + t / 86400
  timet jd := ⌊(jd - 4881175 / 2) * 86400 + 1 / 2⌋
  julian_add t s := by
    push_cast
    ring
  timet_julian t := by
    have hsec : ((4881175 / 2 + t / 86400 : ℚ) - 4881175 / 2) * 86400 + 1 / 2 = t + 1 / 2 := by ring
    rw [hsec, Int.floor_intCast_add]
    norm_num

/-- `(time_t) x` -/
def toTimet (x : ℚ) : Int := x.num.tdiv x.den

/-! ## Intervals -/

structure ConstraintDoubleInterval where
  lower : Option ℚ
  upper : Option ℚ
  deriving DecidableEq

def between : Option ℚ → Option ℚ → Option ℚ → Bool
  | none, _, _ => false
  | some _, none, none => true
  | some val, none, some upper => val < upper
  | some val, some low, none => low ≤ val
  | some val, some low, some upper => low ≤ val && val < upper

/-- `ConstraintDoubleInterval::satisfy` -/
def ConstraintDoubleInterval.satisfy (i : ConstraintDoubleInterval) (val : Option ℚ) : Bool :=
  between val i.lower i.upper

/-- `ConstraintInterval::isBetween` -/
def isBetween (intervals : List ConstraintDoubleInterval) (val : Option ℚ) : Bool :=
  intervals.any (·.satisfy val)

/-! ## Constraints -/

/-- The quantity the intervals of a constraint are for. -/
inductive Quantity where
  | time
  | airmass
  | zenithDist
  | ha
  | dec
  | altitude
  | azimuth
  | ldistance
  | laltitude
  | lphase
  | sdistance
  | saltitude
  deriving DecidableEq

inductive Constraint where
  | interval (quantity : Quantity) (intervals : List ConstraintDoubleInterval)
  | maxRepeat (maxRepeat : Int)
  deriving DecidableEq

/-- What the constraints ask of a target, the Moon and the Sun, at a Julian date. -/
structure Target where
  quantity : Quantity → ℚ → Option ℚ
  hasConstantPosition : Bool
  totalNumberOfObservations : Int

/-- A quantity that is not known satisfies the constraint, and no other time is worth
to be tried. -/
def satisfyKnown (intervals : List ConstraintDoubleInterval) : Option ℚ → Bool × Option ℚ
  | none => (true, none)
  | some val => (isBetween intervals (some val), some 0)

/-- `satisfy`, with the time that is to be tried next: NaN for none, 0 for the next step. -/
def Constraint.satisfy (tar : Target) (JD : ℚ) : Constraint → Bool × Option ℚ
  | .interval .time intervals => (isBetween intervals (some JD), some 0)
  | .interval .laltitude intervals => (isBetween intervals (tar.quantity .laltitude JD), some 0)
  | .interval .lphase intervals => (isBetween intervals (tar.quantity .lphase JD), some 0)
  | .interval .saltitude intervals => (isBetween intervals (tar.quantity .saltitude JD), some 0)
  | .interval q intervals => satisfyKnown intervals (tar.quantity q JD)
  | .maxRepeat n => (if 0 < n then decide (tar.totalNumberOfObservations < n) else true, none)

/-! ## Satisfied intervals -/

/-- `interval_arr_t` -/
abbrev Intervals := List (Int × Int)

section
variable (L : Libnova) (tar : Target)

/-- The sample after the one at `t`. -/
def nextSample (toJD : ℚ) (step : Int) (t : ℚ) : Option ℚ → ℚ
  | none => toJD
  | some nextJD => if 0 < nextJD then nextJD else t + step / 86400

/-- The loop of `Constraint::getSatisfiedIntervals`, from the sample at `t`; `vf` is the
first sample of a stretch that satisfies the constraint. -/
def sampleFrom (c : Constraint) (toJD : ℚ) (step : Int) : Nat → ℚ → Option ℚ → Intervals
  | 0, _, _ => []
  | fuel + 1, t, vf =>
    if t < toJD then
      let next := nextSample toJD step t (c.satisfy tar t).2
      if (c.satisfy tar t).1 then sampleFrom c toJD step fuel next (some (vf.getD t))
      else match vf with
        | some v => (L.timet v, L.timet t) :: sampleFrom c toJD step fuel next none
        | none => sampleFrom c toJD step fuel next none
    else match vf with
      | some v => [(L.timet v, L.timet t)]
      | none => []

/-- `Constraint::getSatisfiedIntervals`; with a positive step the loop ends after a
second for each sample at most. -/
def Constraint.sampled (c : Constraint) (fromT toT : Int) (step : Int) : Intervals :=
  sampleFrom L tar c (L.julian toT) step ((toT - fromT).toNat + 1) (L.julian fromT) none

/-- `ConstraintTime::getSatisfiedIntervals`, for one interval -/
def ConstraintDoubleInterval.timeIntervals (i : ConstraintDoubleInterval) (fromT toT : Int) :
    Intervals :=
  let l := i.upper
  let u := i.lower
  match l, u with
  | some l, some u => if (fromT : ℚ) ≤ l ∧ u ≤ toT then [(toTimet l, toTimet u)] else []
  | none, some u => if u ≤ toT then [(fromT, toTimet u)] else []
  | some l, none => if (fromT : ℚ) ≤ l then [(toTimet l, toT)] else []
  | none, none => []

/-- `getSatisfiedIntervals` of each kind of constraint -/
def Constraint.getSatisfiedIntervals (fromT toT : Int) (step : Int) : Constraint → Intervals
  | .interval .time intervals => intervals.flatMap (·.timeIntervals fromT toT)
  | .interval .ldistance intervals =>
    -- the Moon is far from a fixed target for an hour at least
    if tar.hasConstantPosition then
      (Constraint.interval .ldistance intervals).sampled L tar fromT toT 3600
    else (Constraint.interval .ldistance intervals).sampled L tar fromT toT step
  | .maxRepeat n =>
    if n ≤ 0 ∨ tar.totalNumberOfObservations < n then [(fromT, toT)] else []
  | c => c.sampled L tar fromT toT step

end

/-! ## Sets of constraints -/

/-- The inner loop of `mergeIntervals`, for one interval of `master`; `tested` is unset
while `findFirst` looks for an interval that does not end before. -/
def mergeInterval (mi : Int × Int) : Bool → Intervals → Intervals
  | _, [] => []
  | tested, addi :: add =>
    if tested = true ∧ mi.2 ≤ addi.1 then []
    else if addi.2 < mi.1 then mergeInterval mi false add
    -- intervals have empty intersection, so that the loop ends
    else if mi.2 < addi.1 then []
    else (max mi.1 addi.1, min mi.2 addi.2) :: mergeInterval mi true add

def mergeIntervals (master add : Intervals) : Intervals :=
  if add.length = 0 ∨ master.length = 0 then []
  else master.flatMap fun mi => mergeInterval mi true add

/-- `Constraints::getSatisfiedIntervals` -/
def getSatisfiedIntervals (L : Libnova) (tar : Target) (fromT toT : Int) (step : Int)
    (constraints : List Constraint) : Intervals :=
  constraints.foldl (fun satisfiedIntervals c =>
    mergeIntervals satisfiedIntervals (c.getSatisfiedIntervals L tar fromT toT step)) [(fromT, toT)]

end Rts2.Db
