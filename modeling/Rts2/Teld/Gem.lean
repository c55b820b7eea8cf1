import Mathlib.Data.Rat.Floor
import Mathlib.Tactic.Linarith
import Rts2.Lib.Loop

/-! # German equatorial mount

The axes of the mount are read in counts. A point of the sky is reached by two pairs of
counts, the second with the mount flipped over the pole. The numbers of the source are
doubles and 32 bit integers; here they are rationals and integers. -/
namespace Rts2.Teld
open Rts2.Lib

/-- `ln_equ_posn` -/
structure Equ where
  ra : ℚ
  dec : ℚ
  deriving DecidableEq

/-- `ln_hrz_posn` -/
structure Hrz where
  az : ℚ
  alt : ℚ
  deriving DecidableEq

structure Limits where
  acMin : Int
  acMax : Int
  dcMin : Int
  dcMax : Int
  deriving DecidableEq

/-- The parameters of the mount. -/
structure Gem where
  haZeroPos : Int
  haZero : ℚ
  decZero : ℚ
  haCpd : ℚ
  decCpd : ℚ
  acMargin : Int
  ra_ticks : Int
  telLatitude : ℚ
  telLongitude : ℚ
  flip_move_start : Int

/-- What the mount takes from its driver, the telescope class with its pointing model, and
libnova. `applyModel` is the change it reports, and the driver writes the limits. -/
structure Sky where
  getLstDeg : ℚ → ℚ → ℚ
  applyCorrections : Equ → ℚ → ℚ → Equ × Hrz
  applyModel : Equ → Hrz → Equ → ℚ → ℚ → Equ
  updateLimits : Limits → Int × Limits
  rangeDegrees : ℚ → ℚ
  hrzFromEqu : Equ → ℚ → ℚ → ℚ → Hrz

/-- `(int32_t) x` -/
def toCounts (x : ℚ) : Int := x.num.tdiv x.den

/-- `fmod` -/
def fmod (x y : ℚ) : ℚ := x - y * toCounts (x / y)

section
variable (g : Gem) (sky : Sky)

/-! ## Counts to sky -/

/-- The tube points over the pole. -/
def overPole (pos : Equ × Bool) : Bool := 90 < |pos.1.dec|

/-- One round of the loop that brings a declination between the poles. -/
def foldPole (pos : Equ × Bool) : Equ × Bool :=
  (⟨pos.1.ra + 180, if 0 < pos.1.dec then 180 - pos.1.dec else -180 - pos.1.dec⟩, !pos.2)

def poleRounds (pos : Equ × Bool) : Nat := ⌊|pos.1.dec| / 180 + 1 / 2⌋.toNat

/-- `GEM::counts2sky`: the position, the flip and the position of the axes. -/
def Gem.counts2sky (ac dc : Int) (flip : Bool) (JD : ℚ) : Equ × Bool × Equ :=
  let ha := ac / g.haCpd + g.haZero
  let un : Equ := ⟨sky.getLstDeg JD 0 - ha, dc / g.decCpd + g.decZero⟩
  let pos :=
    if 90 < |un.dec| then loop overPole foldPole (poleRounds (un, flip)) (un, flip)
    else (un, false)
  let dec := sky.rangeDegrees pos.1.dec
  (⟨sky.rangeDegrees pos.1.ra, if 180 < dec then dec - 360 else dec⟩, pos.2, un)

/-- `GEM::counts2hrz` -/
def Gem.counts2hrz (ac dc : Int) (JD : ℚ) : Hrz :=
  sky.hrzFromEqu (g.counts2sky sky ac dc false JD).1 g.telLatitude g.telLongitude JD

/-! ## Normalisation -/

def Gem.full_ac : Int := toCounts |g.haCpd * 360|
def Gem.full_dc : Int := toCounts |g.decCpd * 360|
def Gem.half_ac : Int := toCounts |g.haCpd * 180|
def Gem.half_dc : Int := toCounts |g.decCpd * 180|

/-- Counts that are no more than half a circle away. The second test of the right
ascension axis asks for the difference in declination. -/
def Gem.shortestMove (ac dc t_ac t_dc : Int) : Int × Int :=
  let diff_ac := (ac - t_ac).tmod g.full_ac
  let diff_dc := (dc - t_dc).tmod g.full_dc
  let diff_ac := if diff_ac > g.half_ac then diff_ac - g.full_ac else diff_ac
  let diff_ac := if diff_dc < -g.half_ac then diff_ac + g.full_ac else diff_ac
  let diff_dc := if diff_dc > g.half_dc then diff_dc - g.full_dc else diff_dc
  let diff_dc := if diff_dc < -g.half_dc then diff_dc + g.full_dc else diff_dc
  (ac - diff_ac, dc - diff_dc)

def tooLow (low margin t : Int) : Bool := t - margin < low
def tooHigh (high margin t : Int) : Bool := high < t + margin

/-- `while (t - margin < low) t += full;` -/
def raiseTo (low margin full t : Int) : Int :=
  loop (tooLow low margin) (· + full) (low + margin - t).toNat t

/-- `while (t + margin > high) t -= full;` -/
def lowerTo (high margin full t : Int) : Int :=
  loop (tooHigh high margin) (· - full) (t + margin - high).toNat t

/-- On the south negative counts are preferred, on the north positive ones. -/
def Gem.intoAcLimits (lim : Limits) (t_ac : Int) : Int :=
  let t_ac :=
    if g.telLatitude < 0 then raiseTo lim.acMin g.acMargin g.full_ac t_ac else t_ac
  let t_ac := lowerTo lim.acMax g.acMargin g.full_ac t_ac
  if 0 < g.telLatitude then raiseTo lim.acMin g.acMargin g.full_ac t_ac else t_ac

def Gem.intoDcLimits (lim : Limits) (t_dc : Int) : Int :=
  lowerTo lim.dcMax 0 g.full_dc (raiseTo lim.dcMin 0 g.full_dc t_dc)

/-- A move that would turn the tube down goes round over the pole. -/
def Gem.avoidDownFlip (t_ac dc t_dc : Int) (JD : ℚ) : Int :=
  let hrz := g.counts2hrz sky t_ac dc JD
  let hrz_tar := g.counts2hrz sky t_ac t_dc JD
  let before := if t_dc > dc then t_dc - |g.decCpd| else t_dc + |g.decCpd|
  let hrz_before := g.counts2hrz sky t_ac (toCounts before) JD
  if hrz.alt < 0 ∧ hrz_tar.alt < 45 ∧
      ((hrz.az < 180 ∧ 180 < hrz_tar.az) ∨ (180 < hrz.az ∧ hrz_tar.az < 180)) ∧
      hrz_before.alt < hrz_tar.alt then
    if t_dc > dc then t_dc - g.full_dc else t_dc + g.full_dc
  else t_dc

def Limits.outsideAc (lim : Limits) (ac : Int) : Bool := ac < lim.acMin || lim.acMax < ac
def Limits.outsideDc (lim : Limits) (dc : Int) : Bool := dc < lim.dcMin || lim.dcMax < dc

/-- `GEM::normalizeCountValues`: the return code and the counts. A circle of no counts is a
division by zero, which ends the program. -/
def Gem.normalizeCountValues (lim : Limits) (ac dc t_ac t_dc : Int) (JD : ℚ) :
    Option (Int × Int × Int) :=
  if g.full_ac = 0 ∨ g.full_dc = 0 then none
  else
    let t := g.shortestMove ac dc t_ac t_dc
    let t_ac := g.intoAcLimits lim t.1
    let t_dc := g.avoidDownFlip sky t_ac dc (g.intoDcLimits lim t.2) JD
    if lim.outsideDc t_dc then some (-1, t_ac, t_dc)
    else if lim.outsideAc t_ac then some (-1, t_ac, t_dc)
    else some (0, t_ac, t_dc)

/-! ### The loops end -/

theorem toCounts_nonneg {x : ℚ} (hx : 0 ≤ x) : 0 ≤ toCounts x :=
  Int.tdiv_nonneg (Rat.num_nonneg.mpr hx) (Int.natCast_nonneg _)

/-- A round of the loop over the pole ends it or takes half a circle off. -/
theorem foldPole_dec {pos : Equ × Bool} (h : 90 < |pos.1.dec|) :
    |(foldPole pos).1.dec| < 90 ∨ |(foldPole pos).1.dec| = |pos.1.dec| - 180 := by
  obtain ⟨⟨ra, x⟩, flip⟩ := pos
  simp only [foldPole] at h ⊢
  rcases lt_or_ge 0 x with hpos | hneg
  · rw [if_pos hpos, abs_of_pos hpos] at *
    rcases le_or_gt x 180 with hle | hgt
    · exact .inl (by rw [abs_of_nonneg (by linarith)]; linarith)
    · exact .inr (by rw [abs_of_neg (by linarith)]; linarith)
  · rw [if_neg (not_lt.mpr hneg)]
    rw [abs_of_nonpos hneg] at *
    rcases le_or_gt (-180) x with hle | hgt
    · exact .inl (by rw [abs_of_nonpos (by linarith)]; linarith)
    · exact .inr (by rw [abs_of_pos (by linarith)]; linarith)

theorem poleRounds_foldPole {pos : Equ × Bool} (h : 90 < |pos.1.dec|) :
    poleRounds (foldPole pos) < poleRounds pos := by
  have hone : 1 ≤ ⌊|pos.1.dec| / 180 + 1 / 2⌋ := Int.le_floor.mpr (by push_cast; linarith)
  have hless : ⌊|(foldPole pos).1.dec| / 180 + 1 / 2⌋ < ⌊|pos.1.dec| / 180 + 1 / 2⌋ := by
    rcases foldPole_dec h with hin | heq
    · exact lt_of_lt_of_le (Int.floor_lt.mpr (by push_cast; linarith)) hone
    · have hcirc : |(foldPole pos).1.dec| / 180 + 1 / 2 = |pos.1.dec| / 180 + 1 / 2 - 1 := by
        rw [heq]
        ring
      rw [hcirc, Int.floor_sub_one]
      omega
  unfold poleRounds
  omega

/-- The loop of `counts2sky` ends with the declination between the poles. -/
theorem overPole_loop (pos : Equ × Bool) :
    overPole (loop overPole foldPole (poleRounds pos) pos) = false := by
  refine loop_exit (fun s hs => ?_) (fun s hs => poleRounds_foldPole (of_decide_eq_true hs)) le_rfl
  have hless := poleRounds_foldPole (of_decide_eq_true hs)
  omega

theorem tooLow_raiseTo {low margin full : Int} (hfull : 0 < full) (t : Int) :
    tooLow low margin (raiseTo low margin full t) = false := by
  refine loop_exit (m := fun t => (low + margin - t).toNat) (fun t ht => ?_) (fun t ht => ?_) le_rfl
  all_goals
    have hlow := of_decide_eq_true ht
    omega

theorem tooHigh_lowerTo {high margin full : Int} (hfull : 0 < full) (t : Int) :
    tooHigh high margin (lowerTo high margin full t) = false := by
  refine loop_exit (m := fun t => (t + margin - high).toNat) (fun t ht => ?_) (fun t ht => ?_) le_rfl
  all_goals
    have hhigh := of_decide_eq_true ht
    omega

/-- A point that is accepted is inside the limits. -/
theorem normalizeCountValues_inside {lim : Limits} {ac dc t_ac t_dc n_ac n_dc : Int} {JD : ℚ}
    (h : g.normalizeCountValues sky lim ac dc t_ac t_dc JD = some (0, n_ac, n_dc)) :
    lim.outsideAc n_ac = false ∧ lim.outsideDc n_dc = false := by
  unfold Gem.normalizeCountValues at h
  split at h
  · cases h
  · dsimp only at h
    split at h
    · simp at h
    · split at h
      · simp at h
      · simp only [Option.some.injEq, Prod.mk.injEq, true_and] at h
        obtain ⟨rfl, rfl⟩ := h
        simp_all

/-! ### Whole turns -/

/-- Steps of whole turns. -/
theorem dvd_sub_trans {full a b c : Int} (hab : full ∣ b - a) (hbc : full ∣ c - b) :
    full ∣ c - a := by
  rw [← sub_add_sub_cancel c b a]
  exact dvd_add hbc hab

theorem dvd_sub_self (full t : Int) : full ∣ t - t := by
  rw [sub_self]
  exact dvd_zero _

theorem dvd_add_turn (full t : Int) : full ∣ t + full - t := ⟨1, by ring⟩

theorem dvd_sub_turn (full t : Int) : full ∣ t - full - t := ⟨-1, by ring⟩

theorem dvd_raiseTo {low margin full : Int} (t : Int) : full ∣ raiseTo low margin full t - t :=
  loop_invariant (I := fun u => full ∣ u - t)
    (fun u _ hu => dvd_sub_trans hu (dvd_add_turn full u)) (dvd_sub_self full t)

theorem dvd_lowerTo {high margin full : Int} (t : Int) : full ∣ lowerTo high margin full t - t :=
  loop_invariant (I := fun u => full ∣ u - t)
    (fun u _ hu => dvd_sub_trans hu (dvd_sub_turn full u)) (dvd_sub_self full t)

theorem dvd_ite {full t u v : Int} {c : Prop} [Decidable c] (hu : full ∣ u - t)
    (hv : full ∣ v - t) : full ∣ (if c then u else v) - t := by
  split
  · exact hu
  · exact hv

theorem dvd_intoAcLimits (lim : Limits) (t : Int) : g.full_ac ∣ g.intoAcLimits lim t - t :=
  dvd_ite
    (dvd_sub_trans (dvd_sub_trans (dvd_ite (dvd_raiseTo t) (dvd_sub_self _ t)) (dvd_lowerTo _))
      (dvd_raiseTo _))
    (dvd_sub_trans (dvd_ite (dvd_raiseTo t) (dvd_sub_self _ t)) (dvd_lowerTo _))

theorem dvd_intoDcLimits (lim : Limits) (t : Int) : g.full_dc ∣ g.intoDcLimits lim t - t :=
  dvd_sub_trans (dvd_raiseTo t) (dvd_lowerTo _)

theorem dvd_avoidDownFlip (t_ac dc t_dc : Int) (JD : ℚ) :
    g.full_dc ∣ g.avoidDownFlip sky t_ac dc t_dc JD - t_dc :=
  dvd_ite (dvd_ite (dvd_sub_turn _ t_dc) (dvd_add_turn _ t_dc)) (dvd_sub_self _ t_dc)

/-- A difference that is a remainder, and one that is corrected by a turn. -/
theorem dvd_rest (full p t : Int) : full ∣ p - (p - t).tmod full - t := by
  rw [sub_right_comm]
  exact Int.dvd_self_sub_tmod

theorem dvd_corrected {full p t d e : Int} {c : Prop} [Decidable c] (h : full ∣ p - d - t)
    (he : full ∣ d - e) : full ∣ p - (if c then e else d) - t := by
  split
  · exact dvd_sub_trans h (by rwa [sub_sub_sub_cancel_left])
  · exact h

theorem dvd_shortestMove (ac dc t_ac t_dc : Int) :
    g.full_ac ∣ (g.shortestMove ac dc t_ac t_dc).1 - t_ac ∧
      g.full_dc ∣ (g.shortestMove ac dc t_ac t_dc).2 - t_dc := by
  have hhigh (full d : Int) : full ∣ d - (d - full) := ⟨1, by ring⟩
  have hlow (full d : Int) : full ∣ d - (d + full) := ⟨-1, by ring⟩
  exact ⟨dvd_corrected (dvd_corrected (dvd_rest _ ac t_ac) (hhigh _ _)) (hlow _ _),
    dvd_corrected (dvd_corrected (dvd_rest _ dc t_dc) (hhigh _ _)) (hlow _ _)⟩

/-- The counts are whole turns away from those that were asked for. -/
theorem normalizeCountValues_turns {lim : Limits} {ac dc t_ac t_dc ret n_ac n_dc : Int} {JD : ℚ}
    (h : g.normalizeCountValues sky lim ac dc t_ac t_dc JD = some (ret, n_ac, n_dc)) :
    g.full_ac ∣ n_ac - t_ac ∧ g.full_dc ∣ n_dc - t_dc := by
  obtain ⟨hac, hdc⟩ := dvd_shortestMove g ac dc t_ac t_dc
  have hturns := And.intro (dvd_sub_trans hac (dvd_intoAcLimits g lim _))
    (dvd_sub_trans (dvd_sub_trans hdc (dvd_intoDcLimits g lim _))
      (dvd_avoidDownFlip g sky (g.intoAcLimits lim (g.shortestMove ac dc t_ac t_dc).1) dc _ JD))
  unfold Gem.normalizeCountValues at h
  split at h
  · cases h
  · dsimp only at h
    split at h
    · cases h
      exact hturns
    · split at h
      · cases h
        exact hturns
      · cases h
        exact hturns

end

end Rts2.Teld
