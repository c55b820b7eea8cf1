import Rts2.Teld.Gem

/-! # The check of a trajectory

`checkTrajectory` walks from the start to the target, both axes at once, and looks where
the positions are against the hard horizon. It exists twice, for equatorial and for
altitude-azimuth mounts; the two differ in the coordinates and in the test of the flip. -/
namespace Rts2.Teld
open Rts2.Lib

/-! ## Horizon -/

structure ObjectCheck where
  horizon : List Hrz
  ignoreHorizon : Bool

/-- `hrz->alt > getHorizonHeightAz (hrz->az, iter1, iter2)`. Without a difference in azimuth
the height is infinite, or not a number. -/
def aboveAz (rangeDegrees : ℚ → ℚ) (hrz iter1 iter2 : Hrz) : Bool :=
  let az1 := if iter2.az < iter1.az then iter1.az - 360 else iter1.az
  let rise := rangeDegrees (hrz.az - az1) * (iter2.alt - iter1.alt)
  if iter2.az - az1 = 0 then rise < 0 else iter1.alt + rise / (iter2.az - az1) < hrz.alt

/-- The loop of `getHorizonHeight`. -/
def aboveFrom (rangeDegrees : ℚ → ℚ) (hrz first : Hrz) : Hrz → List Hrz → Bool
  | iter_last, [] => aboveAz rangeDegrees hrz iter_last first
  | iter_last, iter :: rest =>
    if hrz.az < iter.az then aboveAz rangeDegrees hrz iter_last iter
    else aboveFrom rangeDegrees hrz first iter rest

/-- `ObjectCheck::is_good` -/
def ObjectCheck.is_good (o : ObjectCheck) (rangeDegrees : ℚ → ℚ) (hrz : Hrz) : Bool :=
  o.ignoreHorizon ||
    match o.horizon with
    | [] => decide (0 < hrz.alt)
    | first :: rest =>
      if hrz.az < first.az then
        aboveAz rangeDegrees hrz first ((first :: rest).getLast (List.cons_ne_nil _ _))
      else aboveFrom rangeDegrees hrz first first rest

/-- `ObjectCheck::is_good_with_margin`: one of the two azimuths is enough. -/
def ObjectCheck.is_good_with_margin (o : ObjectCheck) (rangeDegrees : ℚ → ℚ) (hrz : Hrz)
    (alt_margin az_margin : ℚ) : Bool :=
  let alt := if 90 < hrz.alt - alt_margin then 90 else hrz.alt - alt_margin
  let az := rangeDegrees (hrz.az - az_margin)
  o.ignoreHorizon || o.is_good rangeDegrees ⟨az, alt⟩ ||
    o.is_good rangeDegrees ⟨rangeDegrees (az + 2 * az_margin), alt⟩

/-! ## The walk -/

/-- What `checkTrajectory` is asked, each pair for the two axes. `flips` holds where
`dont_flip` is set and the mount would have to flip. -/
structure Trajectory where
  hardHorizon : ObjectCheck
  rangeDegrees : ℚ → ℚ
  counts2hrz : Int × Int → Hrz
  flips : Int × Int → Bool
  start : Int × Int
  target : Int × Int
  step : Int × Int
  steps : Nat
  alt_margin : ℚ
  az_margin : ℚ
  ignore_soft_beginning : Bool

/-- The variables of the loop. -/
structure Walk where
  t : Int × Int
  step : Int × Int
  soft : Int × Int
  hard_beginning : Bool
  soft_hit : Bool
  ignore_soft_beginning : Bool
  deriving DecidableEq

/-- The next position of an axis and its step, which is 0 once the target is reached. -/
def advance (t target size step : Int) : Int × Int :=
  if |t - target| < size then (target, 0) else (t + step, step)

def direction (start target size : Int) : Int := if target < start then -size else size

namespace Trajectory
variable (tr : Trajectory)

/-- The position is above the hard horizon. -/
def good (p : Int × Int) : Bool := tr.hardHorizon.is_good tr.rangeDegrees (tr.counts2hrz p)

def goodWithMargin (p : Int × Int) : Bool :=
  tr.hardHorizon.is_good_with_margin tr.rangeDegrees (tr.counts2hrz p) tr.alt_margin tr.az_margin

def begin : Walk where
  t := tr.start
  step := (direction tr.start.1 tr.target.1 tr.step.1, direction tr.start.2 tr.target.2 tr.step.2)
  soft := tr.start
  hard_beginning := false
  soft_hit := false
  ignore_soft_beginning := tr.ignore_soft_beginning

def nextA (w : Walk) : Int × Int := advance w.t.1 tr.target.1 tr.step.1 w.step.1
def nextD (w : Walk) : Int × Int := advance w.t.2 tr.target.2 tr.step.2 w.step.2

/-- `n_a`, `n_d` -/
def next (w : Walk) : Int × Int := ((tr.nextA w).1, (tr.nextD w).1)

/-- Neither axis moves any more. -/
def arrives (w : Walk) : Bool := (tr.nextA w).2 = 0 && (tr.nextD w).2 = 0

/-- The test against the hard horizon: the new `hard_beginning`, or the return. -/
def hardTest (c : Nat) (w : Walk) : Except (Int × Int × Int) Bool :=
  if w.soft_hit || w.ignore_soft_beginning then
    if tr.good (tr.next w) then .ok false
    else if c = 0 then .ok true
    else if !w.hard_beginning || decide (20 < c) then
      .error (if w.soft_hit then (2, w.soft) else (3, w.t))
    else .ok w.hard_beginning
  else .ok w.hard_beginning

/-- The test with the margins. -/
def softTest (w : Walk) (n : Int × Int) : Walk :=
  if w.soft_hit || w.hard_beginning then w
  else if tr.goodWithMargin n then
    if w.ignore_soft_beginning then { w with ignore_soft_beginning := false, soft := w.t } else w
  else if w.ignore_soft_beginning then w
  else { w with soft_hit := true, soft := w.t }

/-- One round of the loop: the return code with the target, or the variables. -/
def round (c : Nat) (w : Walk) : Except (Int × Int × Int) Walk :=
  if tr.flips (tr.next w) then .error (4, tr.next w)
  else
    match tr.hardTest c w with
    | .error r => .error r
    | .ok hard_beginning =>
      if tr.arrives w then .error (0, tr.target)
      else
        .ok { tr.softTest { w with hard_beginning := hard_beginning } (tr.next w) with
          t := tr.next w
          step := ((tr.nextA w).2, (tr.nextD w).2) }

/-- The variables before round `c`, or what an earlier round returned. -/
def walk (c : Nat) : Except (Int × Int × Int) Walk := rounds tr.round tr.begin c

/-- `checkTrajectory`: the return code, and the target it leaves. -/
def checkTrajectory : Int × Int × Int :=
  match tr.walk tr.steps with
  | .error r => r
  | .ok w => (1, if w.soft_hit then w.soft else w.t)

end Trajectory

/-! ## Mounts -/

/-- The trajectory of `GEM::checkTrajectory`. -/
def Gem.trajectory (g : Gem) (sky : Sky) (hardHorizon : ObjectCheck) (telFlip : Int) (JD : ℚ)
    (start target step : Int × Int) (steps : Nat) (alt_margin az_margin : ℚ)
    (ignore_soft_beginning dont_flip : Bool) : Trajectory where
  hardHorizon := hardHorizon
  rangeDegrees := sky.rangeDegrees
  counts2hrz p := g.counts2hrz sky p.1 p.2 JD
  flips p :=
    let flip : Int := if (g.counts2sky sky p.1 p.2 false JD).2.1 then 1 else 0
    dont_flip && telFlip != flip
  start := start
  target := target
  step := step
  steps := steps
  alt_margin := alt_margin
  az_margin := az_margin
  ignore_soft_beginning := ignore_soft_beginning

structure AltAz where
  azZero : ℚ
  zdZero : ℚ
  azCpd : ℚ
  altCpd : ℚ
  offsAltAz : Hrz

/-- `AltAz::counts2hrz` -/
def AltAz.counts2hrz (m : AltAz) (rangeDegrees : ℚ → ℚ) (azc altc : Int) : Hrz :=
  let un_az := azc / m.azCpd + m.azZero
  let un_zd := altc / m.altCpd + m.zdZero
  -- reverseAltAzOffsets
  let alt := rangeDegrees (90 - un_zd) - m.offsAltAz.alt
  let az := rangeDegrees (rangeDegrees un_az - m.offsAltAz.az)
  if 270 < alt then ⟨az, -360 + alt⟩
  else if 90 < alt then ⟨rangeDegrees (az + 180), 180 - alt⟩
  else ⟨az, alt⟩

/-- The trajectory of `AltAz::checkTrajectory`. -/
def AltAz.trajectory (m : AltAz) (rangeDegrees : ℚ → ℚ) (hardHorizon : ObjectCheck)
    (start target step : Int × Int) (steps : Nat) (alt_margin az_margin : ℚ)
    (ignore_soft_beginning : Bool) : Trajectory where
  hardHorizon := hardHorizon
  rangeDegrees := rangeDegrees
  counts2hrz p := m.counts2hrz rangeDegrees p.1 p.2
  flips _ := false
  start := start
  target := target
  step := step
  steps := steps
  alt_margin := alt_margin
  az_margin := az_margin
  ignore_soft_beginning := ignore_soft_beginning

end Rts2.Teld
