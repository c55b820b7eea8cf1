import Rts2.Teld.Counts
import Rts2.Teld.HardHorizon

/-! # Moves to the pole

A move that would hit the horizon is first made in declination, towards the pole, where every
right ascension is close. The target of such a move is computed from the angle to the pole,
which has the sign of the scale, and the size of the scale. -/
namespace Rts2.Teld

/-! ## The pole -/

/-- What a move is checked against. -/
structure Surroundings where
  sky : Sky
  hardHorizon : ObjectCheck
  telFlip : Int
  JD : ℚ

section
variable (g : Gem) (rangeDegrees : ℚ → ℚ)

/-- `GEM::getPoleAngle` -/
def Gem.getPoleAngle (dc : Int) : ℚ :=
  let dec_angle := rangeDegrees (dc / g.decCpd + g.decZero - 90)
  if dec_angle < 180 then dec_angle else dec_angle - 360

/-- `GEM::getPoleTargetD`; none if it is no `int32_t`. -/
def Gem.getPoleTargetD (dc : Int) : Option Int :=
  int32 (toCounts (dc - |g.decCpd| * g.getPoleAngle rangeDegrees dc))

end

/-! ## Moves -/

section
variable (g : Gem) (e : Surroundings)

/-- `checkTrajectory` as `calculateMove` calls it: ten positions a degree. -/
@[irreducible] def Gem.checkMove (c_ac c_dc t_ac t_dc : Int) (margin : ℚ) (ignore_soft_beginning : Bool) :
    Int × Int × Int :=
  (g.trajectory e.sky e.hardHorizon e.telFlip e.JD (c_ac, c_dc) (t_ac, t_dc)
    (|(toCounts g.haCpd).tdiv 10|, |(toCounts g.decCpd).tdiv 10|) 2000 margin margin
    ignore_soft_beginning false).checkTrajectory

/-- The pole is on the way. -/
def passesPole (c_dc pole_dc dc : Int) : Bool :=
  (c_dc < pole_dc && pole_dc < dc) || (pole_dc < c_dc && dc < pole_dc)

/-- `GEM::checkMoveDEC`: the return code and the target. -/
def Gem.checkMoveDEC (c_ac c_dc dc move_d : Int) : Option (Int × Int × Int) := do
  let pole_dc ← g.getPoleTargetD e.sky.rangeDegrees c_dc
  let dc := if passesPole c_dc pole_dc dc then pole_dc else c_dc + move_d
  let r := g.checkMove e c_ac c_dc c_ac dc 3 true
  if r.1 = -1 ∨ r.1 = 3 then some (-1, r.2) else some (0, r.2)

/-- Declination only, or for 20 degrees in the other direction. -/
def Gem.moveDEC (c_ac c_dc dc move_d back : Int) : Option (Int × Int × Int) := do
  let r ← g.checkMoveDEC e c_ac c_dc dc move_d
  if r.1 < 0 then
    let r ← g.checkMoveDEC e c_ac c_dc r.2.2 back
    if r.1 < 0 then some r else some (2, r.2)
  else some (2, r.2)

/-- The last move was in declination: 20 degrees more, or up to the pole. None goes on. -/
def Gem.continueDEC (c_ac c_dc tt_dc : Int) : Option (Option (Int × Int × Int)) := do
  let move_d := tt_dc - c_dc
  let move_d :=
    if 20 * |g.decCpd| < |(move_d : ℚ)| then
      toCounts ((if 0 < move_d then 20 else -20) * |g.decCpd|)
    else move_d
  let r := g.checkMove e c_ac c_dc c_ac (c_dc + move_d) 5 false
  if r.1 = -1 then some (some (-1, r.2))
  else if 0 < r.1 then
    let pole_dc ← g.getPoleTargetD e.sky.rangeDegrees c_dc
    let r := g.checkMove e c_ac c_dc c_ac pole_dc 3 false
    if r.1 ≠ 0 then some (some (-1, r.2)) else some (some (3, r.2))
  else some none

/-- The last move was up to the pole: now the hour angle, on from the pole. -/
def Gem.moveAtPole (c_ac c_dc tt_ac tt_dc : Int) : Option (Int × Int × Int) := do
  let move_a := tt_ac - c_ac
  let move_d := tt_dc - c_dc
  let t_ac :=
    if |move_d| < |move_a| then c_ac + (if 0 < move_a then |move_d| else -|move_d|)
    else c_ac + move_a
  let pole_dc ← g.getPoleTargetD e.sky.rangeDegrees c_dc
  let r := g.checkMove e c_ac c_dc t_ac pole_dc 3 false
  if r.1 ≠ 0 then some (-1, r.2) else some (1, r.2)

/-- The trajectory hits the horizon: one axis is moved, the one that needs more time. -/
def Gem.moveOneAxis (c_ac c_dc tt_ac tt_dc pm : Int) : Option (Int × Int × Int) :=
  let move_a := tt_ac - c_ac
  let move_d := tt_dc - c_dc
  let move_diff := |move_a| - |move_d|
  if (0 < move_diff ∧ pm = 0) ∨ pm = 2 ∨ pm = 3 then
    let move_diff := if pm = 2 then |move_a| else move_diff
    let t_ac := if 0 < move_a then c_ac + move_diff else c_ac - move_diff
    let r := g.checkMove e c_ac c_dc t_ac c_dc 3 true
    if r.1 = -1 then some (-1, r.2)
    else if r.1 = 3 then
      g.moveDEC e c_ac c_dc r.2.2 move_d
        (toCounts (|g.decCpd| * if 0 < move_d then -20 else 20))
    else some (1, r.2)
  else
    let move_d := if pm = 0 then if move_d < 0 then move_diff else -move_diff else move_d
    g.moveDEC e c_ac c_dc tt_dc move_d (|toCounts g.decCpd| * if 0 < move_d then -20 else 20)

/-- The trajectory to the target, whatever was moved before. -/
def Gem.moveBoth (c_ac c_dc tt_ac tt_dc pm : Int) : Option (Int × Int × Int) :=
  let r := g.checkMove e c_ac c_dc tt_ac tt_dc 5 false
  if 0 < r.1 then g.moveOneAxis e c_ac c_dc tt_ac tt_dc pm else some r

/-- `GEM::calculateMove`, from `c_ac` and `c_dc` to `t_ac` and `t_dc`: what is moved, 3 up to
the pole and 1 after that, with the target; none if a target is no `int32_t`. -/
def Gem.calculateMove (c_ac c_dc t_ac t_dc pm : Int) : Option (Int × Int × Int) := do
  if pm = 2 then
    match ← g.continueDEC e c_ac c_dc t_dc with
    | some r => some r
    | none => g.moveBoth e c_ac c_dc t_ac t_dc pm
  else if pm = 3 then g.moveAtPole e c_ac c_dc t_ac t_dc
  else g.moveBoth e c_ac c_dc t_ac t_dc pm

end

end Rts2.Teld
