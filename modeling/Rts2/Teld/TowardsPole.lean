import Rts2.Teld.Limits
import Rts2.Teld.Pole

/-! # Towards the pole

With a positive scale the target of `getPoleTargetD` is the pole. With a negative one the
axis goes as far in the other direction. -/
namespace Rts2.Teld
open Rts2.Lib

/-! ## A trajectory stays on its way -/

namespace Trajectory
variable {tr : Trajectory} {c : Nat} {w w' : Walk}

/-- On the way in declination. -/
def OnWay (tr : Trajectory) (d : Int) : Prop :=
  min tr.start.2 tr.target.2 ≤ d ∧ d ≤ max tr.start.2 tr.target.2

theorem advance_onWay {start target size t step : Int} (hsize : 0 ≤ size)
    (ht : min start target ≤ t ∧ t ≤ max start target)
    (hstep : step = direction start target size ∨ (step = 0 ∧ t = target)) :
    (min start target ≤ (advance t target size step).1 ∧
        (advance t target size step).1 ≤ max start target) ∧
      ((advance t target size step).2 = direction start target size ∨
        ((advance t target size step).2 = 0 ∧ (advance t target size step).1 = target)) := by
  unfold advance
  split
  · exact ⟨⟨min_le_right _ _, le_max_right _ _⟩, .inr ⟨rfl, rfl⟩⟩
  · next hfar =>
    rw [abs_lt, not_and_or, not_lt, not_lt] at hfar
    rcases hstep with rfl | ⟨rfl, rfl⟩
    · refine ⟨?_, .inl rfl⟩
      unfold direction
      dsimp only
      split <;> omega
    · refine ⟨by simp, .inr ⟨rfl, add_zero t⟩⟩

/-- What is true of the declination axis before every round. -/
structure DecInv (tr : Trajectory) (w : Walk) : Prop where
  place : tr.OnWay w.t.2
  soft : tr.OnWay w.soft.2
  step : w.step.2 = direction tr.start.2 tr.target.2 tr.step.2 ∨
    (w.step.2 = 0 ∧ w.t.2 = tr.target.2)

theorem onWay_start (tr : Trajectory) : tr.OnWay tr.start.2 := ⟨min_le_left _ _, le_max_left _ _⟩

theorem onWay_target (tr : Trajectory) : tr.OnWay tr.target.2 :=
  ⟨min_le_right _ _, le_max_right _ _⟩

theorem DecInv.next (hsize : 0 ≤ tr.step.2) (h : DecInv tr w) : tr.OnWay (tr.next w).2 :=
  (advance_onWay hsize h.place h.step).1

theorem DecInv.round (hsize : 0 ≤ tr.step.2) (h : DecInv tr w) (hr : tr.round c w = .ok w') :
    DecInv tr w' := by
  obtain ⟨-, -, rfl⟩ := round_ok hr
  have hadvance := advance_onWay hsize h.place h.step
  refine ⟨hadvance.1, ?_, hadvance.2⟩
  rcases softTest_cases tr { w with hard_beginning := tr.beginning c w } (tr.next w) with
    he | ⟨-, -, he⟩ | ⟨-, -, he⟩
  · rw [he]
    exact h.soft
  · rw [he]
    exact h.place
  · rw [he]
    exact h.place

/-- The target that is left is on the way, and the one that was asked for if the whole
trajectory is good. -/
theorem checkTrajectory_onWay (hsize : 0 ≤ tr.step.2) :
    tr.OnWay tr.checkTrajectory.2.2 ∧
      (tr.checkTrajectory.1 = 0 → tr.checkTrajectory.2 = tr.target) := by
  have hinv : ∀ n u, tr.walk n = .ok u → DecInv tr u := fun n u hu =>
    rounds_invariant (I := fun _ => DecInv tr)
      ⟨tr.onWay_start, tr.onWay_start, .inl rfl⟩ (fun _ _ _ h hr => h.round hsize hr) hu
  unfold checkTrajectory
  cases hwalk : tr.walk tr.steps with
  | ok w =>
    have h := hinv _ w hwalk
    dsimp only
    refine ⟨?_, fun hzero => by cases hzero⟩
    split
    · exact h.soft
    · exact h.place
  | error r =>
    dsimp only
    obtain ⟨c, -, u, hu, hr⟩ := rounds_error hwalk
    have h := hinv c u hu
    rcases round_cases tr c u with ⟨-, hc⟩ | ⟨-, hc⟩ | ⟨-, hc⟩ | ⟨-, -, w', hc⟩
    · rw [hc] at hr
      cases hr
      exact ⟨h.next hsize, fun hzero => by cases hzero⟩
    · rw [hc] at hr
      cases hr
      split
      · exact ⟨h.soft, fun hzero => by cases hzero⟩
      · exact ⟨h.place, fun hzero => by cases hzero⟩
    · rw [hc] at hr
      cases hr
      exact ⟨tr.onWay_target, fun _ => rfl⟩
    · rw [hc] at hr
      cases hr

end Trajectory

/-! ## What is asked -/

section
variable (g : Gem) (rangeDegrees : ℚ → ℚ)

/-- A full turn of the declination axis. -/
def Gem.turn : ℚ := 360 * |g.decCpd|

/-- The distance from the pole, in counts. -/
def Gem.poleCounts (dc : Int) : ℚ := |g.decCpd| * |g.getPoleAngle rangeDegrees dc|

/-- No farther from the pole, or less than a count from it. -/
def Gem.Closer (c_dc dc : Int) : Prop :=
  g.poleCounts rangeDegrees dc ≤ g.poleCounts rangeDegrees c_dc ∨ g.poleCounts rangeDegrees dc < 1

/-- The target is the pole, half a turn away at most, and on the way to it the distance from
the pole does not grow. -/
structure Gem.Reaches (dc t_dc : Int) : Prop where
  atPole : g.poleCounts rangeDegrees t_dc < 1
  halfTurn : |t_dc - dc| ≤ ⌈g.turn / 2⌉
  approaches : ∀ d, min dc t_dc ≤ d → d ≤ max dc t_dc → g.Closer rangeDegrees dc d

end

/-- The declination axis is led to the pole: by the target, and by the moves that are made
towards it. -/
structure Gem.LeadsToPole (g : Gem) (e : Surroundings) (dc : Int) : Prop where
  target : ∃ t_dc, g.getPoleTargetD e.sky.rangeDegrees dc = some t_dc ∧
    g.Reaches e.sky.rangeDegrees dc t_dc
  checked : ∀ c_ac t_dc move_d pole_dc r, g.getPoleTargetD e.sky.rangeDegrees dc = some pole_dc →
    passesPole dc pole_dc t_dc = true → g.checkMoveDEC e c_ac dc t_dc move_d = some r → r.1 = 0 →
      g.Closer e.sky.rangeDegrees dc r.2.2
  calculated : ∀ c_ac t_ac t_dc pm r, g.calculateMove e c_ac dc t_ac t_dc pm = some r →
    (pm = 2 ∧ r.1 = 3) ∨ (pm = 3 ∧ r.1 = 1) → g.Closer e.sky.rangeDegrees dc r.2.2

/-! ## When it is met -/

section
variable (g : Gem) (rangeDegrees : ℚ → ℚ) (dc : Int)

/-- The distance to the pole, with the sign of the angle. -/
def Gem.signedCounts : ℚ := |g.decCpd| * g.getPoleAngle rangeDegrees dc

/-- The distance in whole counts: more of them where the axis moves away from the count 0. -/
def Gem.wholeCounts : Int :=
  let x := g.signedCounts rangeDegrees dc
  if (0 < x ∧ x ≤ dc) ∨ (x < 0 ∧ dc < x) then ⌈|x|⌉ else ⌊|x|⌋

/-- The pole is an `int32_t`, and the scale is positive; or the axis is so close to the pole
that it does not move, or so close to the opposite side that it goes over it. -/
structure Gem.FindsPole : Prop where
  fits : -2 ^ 31 - 1 < dc - g.signedCounts rangeDegrees dc ∧
    dc - g.signedCounts rangeDegrees dc < 2 ^ 31
  direction : 0 < g.decCpd ∨ g.wholeCounts rangeDegrees dc = 0 ∨
    (g.turn - 1 < g.poleCounts rangeDegrees dc + g.wholeCounts rangeDegrees dc ∧
      (g.turn - 1 ≤ 2 * g.poleCounts rangeDegrees dc ∨
        g.turn - 2 < g.poleCounts rangeDegrees dc))

end

/-! ## Angles around the pole -/

/-- Of the angles that are whole turns apart none is smaller than the one within half a
turn. -/
theorem abs_le_of_turns {s w T : ℚ} {m : ℤ} (h : w = s + T * m) (hs : |s| ≤ T / 2) :
    |s| ≤ |w| := by
  rcases eq_or_ne m 0 with hm | hm
  · rw [h, hm]
    simp
  · have hT : 0 ≤ T := by
      have := abs_nonneg s
      linarith
    have hone : (1 : ℚ) ≤ |(m : ℚ)| := by
      have := Int.one_le_abs hm
      exact_mod_cast this
    have hturns : T * |(m : ℚ)| = |w - s| := by
      rw [h, add_sub_cancel_left, abs_mul, abs_of_nonneg hT]
    have htri := abs_sub w s
    nlinarith

section
variable {g : Gem} {rangeDegrees : ℚ → ℚ} (hdegrees : RangeDegrees rangeDegrees)
include hdegrees

theorem getPoleAngle_spec (g : Gem) (dc : Int) :
    (∃ n : ℤ, g.getPoleAngle rangeDegrees dc = dc / g.decCpd + g.decZero - 90 + 360 * n) ∧
      -180 ≤ g.getPoleAngle rangeDegrees dc ∧ g.getPoleAngle rangeDegrees dc < 180 := by
  obtain ⟨n, hn⟩ := hdegrees.turns (dc / g.decCpd + g.decZero - 90)
  have h0 := hdegrees.nonneg (dc / g.decCpd + g.decZero - 90)
  have h360 := hdegrees.le_circle (dc / g.decCpd + g.decZero - 90)
  unfold Gem.getPoleAngle
  dsimp only
  split
  · exact ⟨⟨n, hn⟩, by linarith, by assumption⟩
  · next hge =>
    refine ⟨⟨n - 1, by rw [hn]; push_cast; ring⟩, ?_, by linarith⟩
    linarith [not_lt.mp hge]

theorem poleCounts_le_half (g : Gem) (dc : Int) : g.poleCounts rangeDegrees dc ≤ g.turn / 2 := by
  obtain ⟨-, hl, hu⟩ := getPoleAngle_spec hdegrees g dc
  have hangle : |g.getPoleAngle rangeDegrees dc| ≤ 180 := abs_le.mpr ⟨hl, hu.le⟩
  have hscale := abs_nonneg g.decCpd
  unfold Gem.poleCounts Gem.turn
  nlinarith

/-- The distance after a move of `k` counts, when it is no more than half a turn. -/
theorem poleCounts_move (hcpd : g.decCpd ≠ 0) (dc k : Int) :
    ∃ w : ℚ, w = g.signedCounts rangeDegrees dc + (if 0 < g.decCpd then (k : ℚ) else -k) ∧
      g.poleCounts rangeDegrees (dc + k) ≤ |w| ∧
      (∀ m : ℤ, |w + g.turn * m| ≤ g.turn / 2 →
        g.poleCounts rangeDegrees (dc + k) = |w + g.turn * m|) := by
  obtain ⟨⟨n, hn⟩, -⟩ := getPoleAngle_spec hdegrees g dc
  obtain ⟨⟨n', hn'⟩, -⟩ := getPoleAngle_spec hdegrees g (dc + k)
  have hscale : |g.decCpd| * (k / g.decCpd) = if 0 < g.decCpd then (k : ℚ) else -k := by
    split
    · next hpos => rw [abs_of_pos hpos, mul_div_cancel₀ _ hcpd]
    · next hneg =>
      rw [abs_of_nonpos (not_lt.mp hneg), neg_mul, mul_div_cancel₀ _ hcpd]
  have hmove : ∀ m : ℤ, g.signedCounts rangeDegrees dc +
      (if 0 < g.decCpd then (k : ℚ) else -k) + g.turn * m =
        |g.decCpd| * g.getPoleAngle rangeDegrees (dc + k) + g.turn * ((n - n' + m : ℤ) : ℚ) := by
    intro m
    rw [← hscale, Gem.signedCounts, hn, hn', Gem.turn]
    push_cast
    ring
  have hdist : g.poleCounts rangeDegrees (dc + k) =
      |(|g.decCpd| * g.getPoleAngle rangeDegrees (dc + k))| := by
    rw [abs_mul, abs_abs]
    rfl
  have hhalf := poleCounts_le_half hdegrees g (dc + k)
  rw [hdist] at hhalf ⊢
  refine ⟨_, rfl, ?_, fun m hm => ?_⟩
  · have h := hmove 0
    rw [Int.cast_zero, mul_zero, add_zero] at h
    exact abs_le_of_turns h hhalf
  · refine le_antisymm (abs_le_of_turns (hmove m) hhalf) (abs_le_of_turns (m := -(n - n' + m)) ?_ hm)
    rw [hmove m]
    push_cast
    ring

end

/-! ## The rounded target -/

/-- The target is `wholeCounts` away, against the sign of the angle. -/
theorem toCounts_target (g : Gem) (rangeDegrees : ℚ → ℚ) (dc : Int) :
    toCounts (dc - g.signedCounts rangeDegrees dc) =
      if 0 < g.signedCounts rangeDegrees dc then dc - g.wholeCounts rangeDegrees dc
      else dc + g.wholeCounts rangeDegrees dc := by
  unfold Gem.wholeCounts
  generalize g.signedCounts rangeDegrees dc = x
  dsimp only
  rcases lt_trichotomy x 0 with hneg | rfl | hpos
  · rw [if_neg (by linarith : ¬ 0 < x), abs_of_neg hneg]
    by_cases hy : (dc : ℚ) < x
    · rw [if_pos (.inr ⟨hneg, hy⟩), toCounts_of_nonpos (by linarith), sub_eq_add_neg,
        Int.ceil_intCast_add]
    · rw [if_neg (by simp [hneg, hy, not_lt.mpr hneg.le]), toCounts_of_nonneg (by linarith),
        sub_eq_add_neg, Int.floor_intCast_add]
  · simp [toCounts_intCast]
  · rw [if_pos hpos, abs_of_pos hpos]
    by_cases hy : x ≤ dc
    · rw [if_pos (.inl ⟨hpos, hy⟩), toCounts_of_nonneg (by linarith), sub_eq_add_neg,
        Int.floor_intCast_add, Int.floor_neg]
      rfl
    · rw [if_neg (by simp [hpos, hy, not_lt.mpr hpos.le]), toCounts_of_nonpos (by linarith),
        sub_eq_add_neg, Int.ceil_intCast_add, Int.ceil_neg]
      rfl

theorem abs_signedCounts (g : Gem) (rangeDegrees : ℚ → ℚ) (dc : Int) :
    |g.signedCounts rangeDegrees dc| = g.poleCounts rangeDegrees dc := by
  rw [Gem.signedCounts, abs_mul, abs_abs]
  rfl

theorem wholeCounts_spec (g : Gem) (rangeDegrees : ℚ → ℚ) (dc : Int) :
    0 ≤ g.wholeCounts rangeDegrees dc ∧
      |(g.wholeCounts rangeDegrees dc : ℚ) - g.poleCounts rangeDegrees dc| < 1 := by
  rw [← abs_signedCounts]
  unfold Gem.wholeCounts
  dsimp only
  have h0 := abs_nonneg (g.signedCounts rangeDegrees dc)
  generalize |g.signedCounts rangeDegrees dc| = a at *
  rw [abs_lt]
  split
  · have hl := Int.le_ceil a
    have hu := Int.ceil_lt_add_one a
    exact ⟨Int.ceil_nonneg h0, by linarith, by linarith⟩
  · have hl := Int.floor_le a
    have hu := Int.lt_floor_add_one a
    exact ⟨Int.floor_nonneg.mpr h0, by linarith, by linarith⟩

theorem getPoleTargetD_eq_some {g : Gem} {rangeDegrees : ℚ → ℚ} {dc t_dc : Int} :
    g.getPoleTargetD rangeDegrees dc = some t_dc ↔
      (-2 ^ 31 - 1 < dc - g.signedCounts rangeDegrees dc ∧
        dc - g.signedCounts rangeDegrees dc < 2 ^ 31) ∧
      toCounts (dc - g.signedCounts rangeDegrees dc) = t_dc := by
  rw [← int32_toCounts_iff]
  exact int32_eq_some

section
variable {g : Gem} {rangeDegrees : ℚ → ℚ} (hdegrees : RangeDegrees rangeDegrees) {dc t_dc : Int}
include hdegrees

/-- No pole is farther than half a turn, with the count that the rounding adds. -/
theorem halfTurn_of_target
    (ht : toCounts (dc - g.signedCounts rangeDegrees dc) = t_dc) :
    |t_dc - dc| ≤ ⌈g.turn / 2⌉ := by
  obtain ⟨h0, hclose⟩ := wholeCounts_spec g rangeDegrees dc
  have hhalf := poleCounts_le_half hdegrees g dc
  have hmove : |t_dc - dc| = g.wholeCounts rangeDegrees dc := by
    rw [← ht, toCounts_target]
    split
    · rw [sub_sub_cancel_left, abs_neg, abs_of_nonneg h0]
    · rw [add_sub_cancel_left, abs_of_nonneg h0]
  rw [hmove]
  have hless : g.wholeCounts rangeDegrees dc < ⌈g.turn / 2⌉ + 1 := by
    have hup := Int.le_ceil (g.turn / 2)
    have : (g.wholeCounts rangeDegrees dc : ℚ) < ((⌈g.turn / 2⌉ + 1 : ℤ) : ℚ) := by
      push_cast
      linarith [(abs_lt.mp hclose).2]
    exact_mod_cast this
  omega

/-- With a positive scale every count of the move is one closer to the pole. -/
theorem reaches_of_pos (hpos : 0 < g.decCpd)
    (ht : toCounts (dc - g.signedCounts rangeDegrees dc) = t_dc) :
    g.Reaches rangeDegrees dc t_dc := by
  have hround := abs_toCounts_sub_lt (dc - g.signedCounts rangeDegrees dc)
  rw [ht] at hround
  have hat : ∀ d : Int, g.poleCounts rangeDegrees d ≤
      |g.signedCounts rangeDegrees dc + ((d - dc : Int) : ℚ)| := fun d => by
    obtain ⟨w, hw, hle, -⟩ := poleCounts_move hdegrees hpos.ne' dc (d - dc)
    rw [if_pos hpos] at hw
    rw [add_sub_cancel] at hle
    exact hw ▸ hle
  have hend : |g.signedCounts rangeDegrees dc + ((t_dc - dc : Int) : ℚ)| < 1 := by
    have heq : g.signedCounts rangeDegrees dc + ((t_dc - dc : Int) : ℚ) =
        t_dc - (dc - g.signedCounts rangeDegrees dc) := by
      push_cast
      ring
    rwa [heq]
  refine ⟨(hat t_dc).trans_lt hend, halfTurn_of_target hdegrees ht, fun d hl hu => ?_⟩
  -- between the two ends the distance is no more than at one of them
  have hbetween : |g.signedCounts rangeDegrees dc + ((d - dc : Int) : ℚ)| ≤
      max |g.signedCounts rangeDegrees dc|
        |g.signedCounts rangeDegrees dc + ((t_dc - dc : Int) : ℚ)| := by
    rcases le_total dc t_dc with hle | hle
    · rw [min_eq_left hle] at hl
      rw [max_eq_right hle] at hu
      refine abs_le_max_abs_abs ?_ ?_
      · have : (0 : ℚ) ≤ ((d - dc : Int) : ℚ) := by exact_mod_cast (by omega : 0 ≤ d - dc)
        linarith
      · have : ((d - dc : Int) : ℚ) ≤ ((t_dc - dc : Int) : ℚ) := by
          exact_mod_cast (by omega : d - dc ≤ t_dc - dc)
        linarith
    · rw [min_eq_right hle] at hl
      rw [max_eq_left hle] at hu
      rw [max_comm]
      refine abs_le_max_abs_abs ?_ ?_
      · have : ((t_dc - dc : Int) : ℚ) ≤ ((d - dc : Int) : ℚ) := by
          exact_mod_cast (by omega : t_dc - dc ≤ d - dc)
        linarith
      · have : ((d - dc : Int) : ℚ) ≤ 0 := by exact_mod_cast (by omega : d - dc ≤ 0)
        linarith
  rcases le_max_iff.mp ((hat d).trans hbetween) with h | h
  · exact .inl (h.trans (abs_signedCounts g rangeDegrees dc).le)
  · exact .inr (h.trans_lt hend)

/-- With a negative scale the axis goes away from the pole, until it comes to the opposite
side. -/
theorem poleCounts_away (hneg : g.decCpd < 0) (dc j : Int) (hj : 0 ≤ j) :
    (g.poleCounts rangeDegrees dc + j ≤ g.turn / 2 →
      g.poleCounts rangeDegrees
          (if 0 < g.signedCounts rangeDegrees dc then dc - j else dc + j) =
        g.poleCounts rangeDegrees dc + j) ∧
    (|g.turn - (g.poleCounts rangeDegrees dc + j)| ≤ g.turn / 2 →
      g.poleCounts rangeDegrees
          (if 0 < g.signedCounts rangeDegrees dc then dc - j else dc + j) =
        |g.turn - (g.poleCounts rangeDegrees dc + j)|) := by
  have h0 : (0 : ℚ) ≤ j := by exact_mod_cast hj
  rw [← abs_signedCounts g rangeDegrees dc]
  split
  · next hpos =>
    obtain ⟨w, hw, -, hfold⟩ := poleCounts_move hdegrees hneg.ne dc (-j)
    rw [if_neg (not_lt.mpr hneg.le)] at hw
    rw [abs_of_pos hpos, sub_eq_add_neg]
    have hwj : w = g.signedCounts rangeDegrees dc + j := by
      rw [hw]
      push_cast
      ring
    refine ⟨fun h => ?_, fun h => ?_⟩
    · have hself := hfold 0
      rw [Int.cast_zero, mul_zero, add_zero, hwj, abs_of_nonneg (by linarith)] at hself
      exact hself h
    · have hback := hfold (-1)
      have heq : |w + g.turn * ((-1 : ℤ) : ℚ)| =
          |g.turn - (g.signedCounts rangeDegrees dc + j)| := by
        rw [hwj, abs_sub_comm]
        push_cast
        ring_nf
      rw [heq] at hback
      exact hback h
  · next hle =>
    obtain ⟨w, hw, -, hfold⟩ := poleCounts_move hdegrees hneg.ne dc j
    rw [if_neg (not_lt.mpr hneg.le)] at hw
    rw [abs_of_nonpos (not_lt.mp hle)]
    have hwj : w = -(-g.signedCounts rangeDegrees dc + j) := by
      rw [hw]
      ring
    refine ⟨fun h => ?_, fun h => ?_⟩
    · have hself := hfold 0
      rw [Int.cast_zero, mul_zero, add_zero, hwj, abs_neg,
        abs_of_nonneg (by linarith [not_lt.mp hle])] at hself
      exact hself h
    · have hback := hfold 1
      have heq : |w + g.turn * ((1 : ℤ) : ℚ)| =
          |g.turn - (-g.signedCounts rangeDegrees dc + j)| := by
        rw [hwj]
        push_cast
        ring_nf
      rw [heq] at hback
      exact hback h

omit hdegrees in
/-- What lies between the two ends of a move is some of its counts away from the start. -/
theorem between_moved {p : Prop} [Decidable p] {M d : ℤ} (hM : 0 ≤ M)
    (hl : min dc (if p then dc - M else dc + M) ≤ d) (hu : d ≤ max dc (if p then dc - M else dc + M))
    (hne : d ≠ dc) : ∃ j, 1 ≤ j ∧ j ≤ M ∧ d = if p then dc - j else dc + j := by
  by_cases hp : p
  · rw [if_pos hp] at hl hu
    exact ⟨dc - d, by omega, by omega, by rw [if_pos hp]; omega⟩
  · rw [if_neg hp] at hl hu
    exact ⟨d - dc, by omega, by omega, by rw [if_neg hp]; omega⟩

/-- With a negative scale the pole is reached from close to it, or over the opposite side. -/
theorem reaches_iff_of_neg (hneg : g.decCpd < 0)
    (ht : toCounts (dc - g.signedCounts rangeDegrees dc) = t_dc) :
    g.Reaches rangeDegrees dc t_dc ↔ g.wholeCounts rangeDegrees dc = 0 ∨
      (g.turn - 1 < g.poleCounts rangeDegrees dc + g.wholeCounts rangeDegrees dc ∧
        (g.turn - 1 ≤ 2 * g.poleCounts rangeDegrees dc ∨
          g.turn - 2 < g.poleCounts rangeDegrees dc)) := by
  have hway := poleCounts_away hdegrees hneg dc
  have hhalf := poleCounts_le_half hdegrees g
  have hend := toCounts_target g rangeDegrees dc
  obtain ⟨hM0, hMclose⟩ := wholeCounts_spec g rangeDegrees dc
  have ha0 : 0 ≤ g.poleCounts rangeDegrees dc :=
    mul_nonneg (abs_nonneg _) (abs_nonneg _)
  have hhalf0 := hhalf dc
  rw [ht] at hend
  rw [abs_lt] at hMclose
  generalize g.wholeCounts rangeDegrees dc = M at *
  generalize ha : g.poleCounts rangeDegrees dc = a at *
  generalize hT : g.turn = T at *
  have hstays : M = 0 → t_dc = dc := by
    intro hM
    rw [hend, hM]
    split <;> simp
  constructor
  · intro h
    refine or_iff_not_imp_left.mpr fun hM => ?_
    have hM1 : (1 : ℚ) ≤ M := by exact_mod_cast (by omega : 1 ≤ M)
    rcases lt_or_ge T 2 with hT2 | hT2
    · exact ⟨by linarith, .inr (by linarith)⟩
    · have hpole := h.atPole
      rw [hend] at hpole
      have hfar : T / 2 < a + M := by
        by_contra hle
        rw [(hway M hM0).1 (not_lt.mp hle)] at hpole
        linarith
      rw [(hway M hM0).2 (by rw [abs_le]; constructor <;> linarith)] at hpole
      refine ⟨by linarith [(abs_lt.mp hpole).2], ?_⟩
      -- the first count of the move
      have hfirst := h.approaches (if 0 < g.signedCounts rangeDegrees dc then dc - 1 else dc + 1)
        (by rw [hend]; split <;> omega) (by rw [hend]; split <;> omega)
      unfold Gem.Closer at hfirst
      rw [ha] at hfirst
      have hway1 := hway 1 (by omega)
      push_cast at hway1
      have hfar1 : T / 2 < a + 1 := by
        by_contra hle
        rw [hway1.1 (not_lt.mp hle)] at hfirst
        rcases hfirst with hf | hf <;> linarith
      rw [hway1.2 (by rw [abs_le]; constructor <;> linarith)] at hfirst
      have habs := le_abs_self (T - (a + 1))
      rcases hfirst with hf | hf
      · exact .inl (by linarith)
      · exact .inr (by linarith)
  · intro h
    rcases lt_or_ge T 2 with hT2 | hT2
    · have hclose : ∀ d, g.poleCounts rangeDegrees d < 1 := fun d => by linarith [hhalf d]
      exact ⟨hclose t_dc, halfTurn_of_target hdegrees ht, fun d _ _ => .inr (hclose d)⟩
    · rcases h with rfl | ⟨hover, hopposite⟩
      · have htd := hstays rfl
        subst htd
        refine ⟨?_, halfTurn_of_target hdegrees ht, fun d hl hu => ?_⟩
        · push_cast at hMclose
          linarith
        · have hd : d = t_dc := by
            rw [min_self] at hl
            rw [max_self] at hu
            omega
          rw [hd]
          exact .inl le_rfl
      · have hrest : ∀ j, 1 ≤ j → j ≤ M → g.poleCounts rangeDegrees
            (if 0 < g.signedCounts rangeDegrees dc then dc - j else dc + j) =
              |T - (a + j)| := fun j hj hjM => by
          have hj1 : (1 : ℚ) ≤ j := by exact_mod_cast hj
          have hjM' : (j : ℚ) ≤ M := by exact_mod_cast hjM
          refine (hway j (by omega)).2 ?_
          rw [abs_le]
          rcases hopposite with ho | ho <;> constructor <;> linarith
        refine ⟨?_, halfTurn_of_target hdegrees ht, fun d hl hu => ?_⟩
        · rcases hM0.eq_or_lt with hM | hM
          · subst hM
            rw [hstays rfl, ha]
            push_cast at hMclose
            linarith
          · rw [hend, hrest M (by omega) le_rfl, abs_lt]
            constructor <;> linarith
        · rcases eq_or_ne d dc with rfl | hne
          · exact .inl (by rw [ha])
          · rw [hend] at hl hu
            obtain ⟨j, hj1, hjM, hd⟩ := between_moved hM0 hl hu hne
            have hj : (1 : ℚ) ≤ j := by exact_mod_cast hj1
            have hjM' : (j : ℚ) ≤ M := by exact_mod_cast hjM
            unfold Gem.Closer
            rw [hd, hrest j hj1 hjM, ha, abs_le, abs_lt]
            rcases le_total 0 (T - (a + j)) with hs | hs
            · rcases hopposite with ho | ho
              · exact .inl ⟨by linarith, by linarith⟩
              · exact .inr ⟨by linarith, by linarith⟩
            · exact .inr ⟨by linarith, by linarith⟩

/-- The target is found and reached under exactly this condition. -/
theorem target_iff (hcpd : g.decCpd ≠ 0) :
    (∃ t_dc, g.getPoleTargetD rangeDegrees dc = some t_dc ∧ g.Reaches rangeDegrees dc t_dc) ↔
      g.FindsPole rangeDegrees dc := by
  constructor
  · rintro ⟨t_dc, htarget, hreach⟩
    obtain ⟨hfits, ht⟩ := getPoleTargetD_eq_some.mp htarget
    refine ⟨hfits, ?_⟩
    rcases hcpd.lt_or_gt with hneg | hpos
    · exact .inr ((reaches_iff_of_neg hdegrees hneg ht).mp hreach)
    · exact .inl hpos
  · intro h
    refine ⟨_, getPoleTargetD_eq_some.mpr ⟨h.fits, rfl⟩, ?_⟩
    rcases hcpd.lt_or_gt with hneg | hpos
    · exact (reaches_iff_of_neg hdegrees hneg rfl).mpr
        (h.direction.resolve_left (not_lt.mpr hneg.le))
    · exact reaches_of_pos hdegrees hpos rfl

end

/-! ## The moves -/

section
variable {g : Gem} {e : Surroundings} {c_ac c_dc t_ac t_dc move_d pm : Int}
  {r : Int × Int × Int}

/-- The move that is checked ends on the way to its target. -/
theorem checkMove_onWay {margin : ℚ} {soft : Bool} :
    (min c_dc t_dc ≤ (g.checkMove e c_ac c_dc t_ac t_dc margin soft).2.2 ∧
        (g.checkMove e c_ac c_dc t_ac t_dc margin soft).2.2 ≤ max c_dc t_dc) ∧
      ((g.checkMove e c_ac c_dc t_ac t_dc margin soft).1 = 0 →
        (g.checkMove e c_ac c_dc t_ac t_dc margin soft).2 = (t_ac, t_dc)) := by
  unfold Gem.checkMove
  exact Trajectory.checkTrajectory_onWay (abs_nonneg _)

theorem moveDEC_ret {dc back : Int} (h : g.moveDEC e c_ac c_dc dc move_d back = some r) :
    r.1 < 0 ∨ r.1 = 2 := by
  unfold Gem.moveDEC at h
  obtain ⟨r1, -, h⟩ := Option.bind_eq_some_iff.mp h
  split at h
  · obtain ⟨r2, -, h⟩ := Option.bind_eq_some_iff.mp h
    split at h
    · next hneg =>
      cases h
      exact .inl hneg
    · cases h
      exact .inr rfl
  · cases h
    exact .inr rfl

theorem moveBoth_ret (h : g.moveBoth e c_ac c_dc t_ac t_dc pm = some r) : r.1 ≠ 3 := by
  unfold Gem.moveBoth Gem.moveOneAxis at h
  dsimp only at h
  split at h
  · split at h
    · generalize g.checkMove e c_ac c_dc (if 0 < t_ac - c_ac then _ else _) c_dc 3 true = q at h
      split at h
      · cases h
        simp
      · split at h
        · rcases moveDEC_ret h with hr | hr <;> omega
        · cases h
          simp
    · rcases moveDEC_ret h with hr | hr <;> omega
  · next hle =>
    cases h
    omega

/-- After a move to the pole the target is the one of `getPoleTargetD`. -/
theorem calculateMove_pole (h : g.calculateMove e c_ac c_dc t_ac t_dc pm = some r)
    (hpole : (pm = 2 ∧ r.1 = 3) ∨ (pm = 3 ∧ r.1 = 1)) :
    g.getPoleTargetD e.sky.rangeDegrees c_dc = some r.2.2 := by
  unfold Gem.calculateMove at h
  rcases hpole with ⟨rfl, hr⟩ | ⟨rfl, hr⟩
  · rw [if_pos rfl] at h
    obtain ⟨o, ho, h⟩ := Option.bind_eq_some_iff.mp h
    cases o with
    | none => exact absurd hr (moveBoth_ret h)
    | some r' =>
      cases h
      unfold Gem.continueDEC at ho
      simp only at ho
      generalize (if 20 * |g.decCpd| < _ then _ else _) = move at ho
      split at ho
      · cases ho
        simp at hr
      · split at ho
        · obtain ⟨pole_dc, hpole, ho⟩ := Option.bind_eq_some_iff.mp ho
          split at ho
          · cases ho
            simp at hr
          · next hzero =>
            cases ho
            rw [hpole, checkMove_onWay.2 (not_ne_iff.mp hzero)]
        · cases ho
  · rw [if_neg (by decide), if_pos rfl] at h
    unfold Gem.moveAtPole at h
    obtain ⟨pole_dc, hpole, h⟩ := Option.bind_eq_some_iff.mp h
    dsimp only at h
    generalize (if |t_dc - c_dc| < |t_ac - c_ac| then _ else _) = move at h
    split at h
    · cases h
      simp at hr
    · next hzero =>
      cases h
      rw [hpole, checkMove_onWay.2 (not_ne_iff.mp hzero)]

/-- A move in declination that passes the pole ends on the way to it. -/
theorem checkMoveDEC_onWay {dc pole_dc : Int}
    (hpole : g.getPoleTargetD e.sky.rangeDegrees c_dc = some pole_dc)
    (hpasses : passesPole c_dc pole_dc dc = true)
    (h : g.checkMoveDEC e c_ac c_dc dc move_d = some r) :
    min c_dc pole_dc ≤ r.2.2 ∧ r.2.2 ≤ max c_dc pole_dc := by
  unfold Gem.checkMoveDEC at h
  rw [hpole] at h
  simp only [Option.bind_eq_bind, Option.bind_some, hpasses, if_true] at h
  split at h
  · cases h
    exact checkMove_onWay.1
  · cases h
    exact checkMove_onWay.1

end

/-- **Towards the pole.** The declination axis is led to the pole under exactly this
condition. -/
theorem leadsToPole_iff (g : Gem) (e : Surroundings) (dc : Int)
    (hdegrees : RangeDegrees e.sky.rangeDegrees) (hcpd : g.decCpd ≠ 0) :
    g.LeadsToPole e dc ↔ g.FindsPole e.sky.rangeDegrees dc := by
  rw [← target_iff hdegrees hcpd]
  refine ⟨fun h => h.target, fun h => ⟨h, ?_, ?_⟩⟩
  · intro c_ac t_dc move_d pole_dc r hpole hpasses hr _
    obtain ⟨t, ht, hreach⟩ := h
    have heq : pole_dc = t := Option.some.inj (hpole.symm.trans ht)
    obtain ⟨hl, hu⟩ := checkMoveDEC_onWay hpole hpasses hr
    exact hreach.approaches r.2.2 (heq ▸ hl) (heq ▸ hu)
  · intro c_ac t_ac t_dc pm r hr hpole
    obtain ⟨t, ht, hreach⟩ := h
    have heq : r.2.2 = t := Option.some.inj ((calculateMove_pole hr hpole).symm.trans ht)
    rw [heq]
    exact .inr hreach.atPole

/-- A mount in the open. -/
def openField : Surroundings where
  sky := { sagSky with rangeDegrees := wholeTurnsOff }
  hardHorizon := ⟨[], true⟩
  telFlip := 0
  JD := 0

theorem leadsToPole_hundred : hundredGem.LeadsToPole openField 4500 :=
  (leadsToPole_iff hundredGem openField 4500 rangeDegrees_wholeTurnsOff (by norm_num [hundredGem])).mpr
    ⟨by decide +kernel, .inl (by norm_num [hundredGem])⟩

/-- The declination axis turns the other way. -/
def reversedGem : Gem := { hundredGem with decCpd := -100 }

/-- 45 degrees from the pole, the axis is sent to 90 degrees from it. -/
theorem not_leadsToPole_reversed :
    reversedGem.getPoleAngle wholeTurnsOff (-4500) = -45 ∧
      reversedGem.getPoleTargetD wholeTurnsOff (-4500) = some 0 ∧
      reversedGem.getPoleAngle wholeTurnsOff 0 = -90 ∧
      ¬ reversedGem.LeadsToPole openField (-4500) := by
  have htarget : reversedGem.getPoleTargetD wholeTurnsOff (-4500) = some 0 := by decide +kernel
  refine ⟨by decide +kernel, htarget, by decide +kernel, fun h => ?_⟩
  obtain ⟨t_dc, ht, hreach⟩ := h.target
  have hzero : 0 = t_dc := Option.some.inj (htarget.symm.trans ht)
  subst hzero
  have hfar : ¬ reversedGem.poleCounts wholeTurnsOff 0 < 1 := by decide +kernel
  exact hfar hreach.atPole

end Rts2.Teld
