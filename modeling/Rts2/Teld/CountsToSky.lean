import Rts2.Teld.Counts
import Rts2.Teld.Limits

/-! # Counts to sky

`counts2sky` folds a declination behind a pole back, turn by turn, and counts the passages in
the flip. What comes back of the counts that `sky2counts` found for a target is the target, but
for the fractions that the counts lost. -/
namespace Rts2.Teld
open Rts2.Lib

/-! ## Over the pole -/

/-- How often the tube passes over a pole on its way to a declination. -/
def passages (dec : ℚ) : Nat := ⌈(|dec| - 90) / 180⌉.toNat

theorem passages_eq_zero_iff {dec : ℚ} : passages dec = 0 ↔ |dec| ≤ 90 := by
  unfold passages
  rw [Int.toNat_eq_zero, Int.ceil_le]
  push_cast
  constructor <;> intro h <;> linarith

theorem le_foldPole (pos : Equ × Bool) : |pos.1.dec| - 180 ≤ |(foldPole pos).1.dec| := by
  simp only [foldPole]
  split
  · next hpos =>
    rw [abs_of_pos hpos]
    exact le_trans (by linarith) (neg_le_abs _)
  · next hneg =>
    rw [abs_of_nonpos (not_lt.mp hneg)]
    exact le_trans (by linarith) (le_abs_self _)

theorem passages_foldPole {pos : Equ × Bool} (h : 90 < |pos.1.dec|) :
    passages pos.1.dec = passages (foldPole pos).1.dec + 1 := by
  have hpos : 0 < ⌈(|pos.1.dec| - 90) / 180⌉ := Int.ceil_pos.mpr (by linarith)
  rcases foldPole_dec h with hin | heq
  · rw [passages_eq_zero_iff.mpr hin.le]
    have hge := le_foldPole pos
    have hone : ⌈(|pos.1.dec| - 90) / 180⌉ ≤ 1 :=
      Int.ceil_le.mpr (by
        push_cast
        linarith)
    unfold passages
    omega
  · have hback : (|(foldPole pos).1.dec| - 90) / 180 = (|pos.1.dec| - 90) / 180 - 1 := by
      rw [heq]
      ring
    unfold passages
    rw [hback, Int.ceil_sub_one]
    omega

/-- A fold turns the declination over and goes half a turn round. -/
theorem foldPole_turns (pos : Equ × Bool) :
    ∃ k : ℤ, (foldPole pos).1.dec = 180 - pos.1.dec + 360 * k := by
  simp only [foldPole]
  split
  · exact ⟨0, by push_cast; ring⟩
  · exact ⟨-1, by push_cast; ring⟩

/-- What the loop does: half a turn and a change of the flip for every passage. -/
structure Folds (pos folded : Equ × Bool) : Prop where
  between : |folded.1.dec| ≤ 90
  ra : folded.1.ra = pos.1.ra + 180 * passages pos.1.dec
  flip : folded.2 = (pos.2 ^^ decide (passages pos.1.dec % 2 = 1))
  dec : ∃ k : ℤ, folded.1.dec =
    if passages pos.1.dec % 2 = 1 then 180 - pos.1.dec + 360 * k else pos.1.dec + 360 * k

theorem Folds.refl {pos : Equ × Bool} (h : |pos.1.dec| ≤ 90) : Folds pos pos := by
  have hnone := passages_eq_zero_iff.mpr h
  refine ⟨h, ?_, ?_, 0, ?_⟩ <;> simp [hnone]

/-- A fold before the rest of the loop. -/
theorem Folds.step {pos folded : Equ × Bool} (hover : 90 < |pos.1.dec|)
    (h : Folds (foldPole pos) folded) : Folds pos folded := by
  have hmore := passages_foldPole hover
  obtain ⟨hbetween, hra, hflip, k, hdec⟩ := h
  obtain ⟨j, hj⟩ := foldPole_turns pos
  refine ⟨hbetween, ?_, ?_, ?_⟩
  · rw [hra, hmore]
    simp only [foldPole]
    push_cast
    ring
  · rw [hflip, hmore]
    simp only [foldPole]
    rcases Nat.mod_two_eq_zero_or_one (passages (foldPole pos).1.dec) with heven | hodd
    · have hnext : (passages (foldPole pos).1.dec + 1) % 2 = 1 := by omega
      simp only [foldPole] at heven hnext
      simp [heven, hnext]
    · have hnext : (passages (foldPole pos).1.dec + 1) % 2 = 0 := by omega
      simp only [foldPole] at hodd hnext
      simp [hodd, hnext]
  · rw [hmore]
    rcases Nat.mod_two_eq_zero_or_one (passages (foldPole pos).1.dec) with heven | hodd
    · rw [if_neg (by omega)] at hdec
      refine ⟨j + k, ?_⟩
      rw [if_pos (by omega), hdec, hj]
      push_cast
      ring
    · rw [if_pos hodd] at hdec
      refine ⟨k - j, ?_⟩
      rw [if_neg (by omega), hdec, hj]
      push_cast
      ring

theorem folds_loop {fuel : Nat} {pos : Equ × Bool} (h : passages pos.1.dec ≤ fuel) :
    Folds pos (loop overPole foldPole fuel pos) := by
  induction fuel generalizing pos with
  | zero => exact .refl (passages_eq_zero_iff.mp (Nat.le_zero.mp h))
  | succ fuel ih =>
    simp only [loop]
    split
    · next hover =>
      have hover : 90 < |pos.1.dec| := of_decide_eq_true hover
      have hmore := passages_foldPole hover
      exact (ih (by omega)).step hover
    · next hover => exact .refl (not_lt.mp fun h => hover (decide_eq_true h))

theorem passages_le_poleRounds (pos : Equ × Bool) : passages pos.1.dec ≤ poleRounds pos := by
  refine Int.toNat_le_toNat (Int.ceil_le.mpr ?_)
  have hlt := Int.lt_floor_add_one (|pos.1.dec| / 180 + 1 / 2)
  linarith

/-- A declination less than a right angle from the equator, with whole turns, is between the
poles without turns only. -/
theorem turns_eq_zero {x : ℚ} {j : ℤ} (hx : |x| < 90) (hj : |x + 360 * j| ≤ 90) : j = 0 := by
  rw [abs_lt] at hx
  rw [abs_le] at hj
  have hlt : (j : ℚ) < ((1 : ℤ) : ℚ) := by
    push_cast
    linarith
  have hgt : ((-1 : ℤ) : ℚ) < j := by
    push_cast
    linarith
  have h1 := Int.cast_lt.mp hlt
  have h2 := Int.cast_lt.mp hgt
  omega

/-- Behind the pole it never is. -/
theorem not_behind {x : ℚ} {j : ℤ} (hx : |x| < 90) : ¬ |180 - x + 360 * j| ≤ 90 := by
  intro hj
  rw [abs_lt] at hx
  rw [abs_le] at hj
  have hlt : (j : ℚ) < ((0 : ℤ) : ℚ) := by
    push_cast
    linarith
  have hgt : ((-1 : ℤ) : ℚ) < j := by
    push_cast
    linarith
  have h1 := Int.cast_lt.mp hlt
  have h2 := Int.cast_lt.mp hgt
  omega

theorem Folds.front {pos folded : Equ × Bool} {x : ℚ} {m : ℤ} (h : Folds pos folded)
    (hx : |x| < 90) (hpos : pos.1.dec = x + 360 * m) :
    folded.1.dec = x ∧ folded.2 = pos.2 ∧ ∃ k : ℤ, folded.1.ra = pos.1.ra + 360 * k := by
  obtain ⟨hbetween, hra, hflip, j, hdec⟩ := h
  by_cases hodd : passages pos.1.dec % 2 = 1
  · rw [if_pos hodd, hpos] at hdec
    have hback : folded.1.dec = 180 - x + 360 * (j - m : ℤ) := by
      rw [hdec]
      push_cast
      ring
    exact absurd (hback ▸ hbetween) (not_behind hx)
  · rw [if_neg hodd, hpos] at hdec
    have hfront : folded.1.dec = x + 360 * (m + j : ℤ) := by
      rw [hdec]
      push_cast
      ring
    have hzero := turns_eq_zero hx (hfront ▸ hbetween)
    refine ⟨by rw [hfront, hzero]; simp, by rw [hflip]; simp [hodd], ?_⟩
    obtain ⟨n, hn⟩ : ∃ n : ℕ, passages pos.1.dec = 2 * n := ⟨passages pos.1.dec / 2, by omega⟩
    refine ⟨n, ?_⟩
    rw [hra, hn]
    push_cast
    ring

theorem Folds.behind {pos folded : Equ × Bool} {x : ℚ} {m : ℤ} (h : Folds pos folded)
    (hx : |x| < 90) (hpos : pos.1.dec = 180 - x + 360 * m) :
    folded.1.dec = x ∧ folded.2 = !pos.2 ∧ ∃ k : ℤ, folded.1.ra = pos.1.ra + 180 + 360 * k := by
  obtain ⟨hbetween, hra, hflip, j, hdec⟩ := h
  by_cases hodd : passages pos.1.dec % 2 = 1
  · rw [if_pos hodd, hpos] at hdec
    have hfront : folded.1.dec = x + 360 * (j - m : ℤ) := by
      rw [hdec]
      push_cast
      ring
    have hzero := turns_eq_zero hx (hfront ▸ hbetween)
    refine ⟨by rw [hfront, hzero]; simp, by rw [hflip]; simp [hodd], ?_⟩
    obtain ⟨n, hn⟩ : ∃ n : ℕ, passages pos.1.dec = 2 * n + 1 := ⟨passages pos.1.dec / 2, by omega⟩
    refine ⟨n, ?_⟩
    rw [hra, hn]
    push_cast
    ring
  · rw [if_neg hodd, hpos] at hdec
    have hback : folded.1.dec = 180 - x + 360 * (m + j : ℤ) := by
      rw [hdec]
      push_cast
      ring
    exact absurd (hback ▸ hbetween) (not_behind hx)

/-! ## The position of the counts -/

section
variable (g : Gem) (sky : Sky)

/-- Where the axes are. -/
def Gem.axes (ac dc : Int) (JD : ℚ) : Equ :=
  ⟨sky.getLstDeg JD 0 - (ac / g.haCpd + g.haZero), dc / g.decCpd + g.decZero⟩

/-- A declination between the poles is the same in its circle. -/
theorem rangeDegrees_dec {rangeDegrees : ℚ → ℚ} (h : RangeDegrees rangeDegrees) {x : ℚ}
    (hx : |x| ≤ 90) :
    (if 180 < rangeDegrees x then rangeDegrees x - 360 else rangeDegrees x) = x := by
  rw [abs_le] at hx
  rcases lt_or_ge x 0 with hneg | hpos
  · rw [h.of_neg (by linarith) hneg, if_pos (by linarith)]
    ring
  · rw [h.keeps hpos (by linarith), if_neg (by linarith)]

variable {g sky}

/-- **The position**: the axes folded, and the right ascension in its circle. -/
theorem counts2sky_folds (hrange : RangeDegrees sky.rangeDegrees) (ac dc : Int) (flip : Bool)
    (JD : ℚ) : ∃ folded,
      Folds (g.axes sky ac dc JD, if 90 < |(g.axes sky ac dc JD).dec| then flip else false) folded ∧
      (g.counts2sky sky ac dc flip JD).1 = ⟨sky.rangeDegrees folded.1.ra, folded.1.dec⟩ ∧
      (g.counts2sky sky ac dc flip JD).2.1 = folded.2 := by
  unfold Gem.counts2sky
  simp only
  by_cases hover : 90 < |(g.axes sky ac dc JD).dec|
  · have hover' : 90 < |dc / g.decCpd + g.decZero| := hover
    simp only [if_pos hover, if_pos hover']
    have hfolds := folds_loop (passages_le_poleRounds (g.axes sky ac dc JD, flip))
    refine ⟨_, hfolds, ?_, rfl⟩
    simp only [Equ.mk.injEq]
    exact ⟨rfl, rangeDegrees_dec hrange hfolds.between⟩
  · have hover' : ¬90 < |dc / g.decCpd + g.decZero| := hover
    simp only [if_neg hover, if_neg hover']
    refine ⟨_, .refl (not_lt.mp hover), ?_, rfl⟩
    simp only [Equ.mk.injEq]
    exact ⟨rfl, rangeDegrees_dec hrange (not_lt.mp hover)⟩

/-! ## What the counts lose -/

/-- The part of a count that a turn has too many. -/
def lost (cpd : ℚ) : ℚ := |cpd * 360| - toCounts |cpd * 360|

theorem lost_nonneg (cpd : ℚ) : 0 ≤ lost cpd := by
  unfold lost
  rw [toCounts_of_nonneg (abs_nonneg _)]
  have hle := Int.floor_le |cpd * 360|
  linarith

/-- Whole turns of an axis are whole turns in the sky, but for what they lose. -/
theorem turns_angle {cpd : ℚ} (hcpd : cpd ≠ 0) (n : ℤ) :
    ∃ (m : ℤ) (e : ℚ), (n * toCounts |cpd * 360| : ℚ) / cpd = e + 360 * m ∧
      |e| * |cpd| = |(n : ℚ)| * lost cpd := by
  have hfull : (toCounts |cpd * 360| : ℚ) = 360 * |cpd| - lost cpd := by
    unfold lost
    rw [abs_mul, abs_of_pos (by norm_num : (0 : ℚ) < 360)]
    ring
  have hlost : |-(n * lost cpd) / cpd| * |cpd| = |(n : ℚ)| * lost cpd := by
    rw [abs_div, abs_neg, abs_mul, abs_of_nonneg (lost_nonneg cpd),
      div_mul_cancel₀ _ (abs_ne_zero.mpr hcpd)]
  rw [hfull]
  rcases lt_or_gt_of_ne hcpd with hneg | hpos
  · refine ⟨-n, -(n * lost cpd) / cpd, ?_, hlost⟩
    rw [abs_of_neg hneg]
    push_cast
    field_simp
    ring
  · refine ⟨n, -(n * lost cpd) / cpd, ?_, hlost⟩
    rw [abs_of_pos hpos]
    field_simp
    ring

/-- The angle of counts that are near to those of `x`, with whole turns. -/
theorem axis_angle {cpd : ℚ} (hcpd : cpd ≠ 0) {x zero b : ℚ} {t p n : ℤ}
    (ht : |(t : ℚ) - (x - zero) * cpd| < b) (hp : p = t + n * toCounts |cpd * 360|) :
    ∃ (m : ℤ) (e : ℚ), (p : ℚ) / cpd + zero = x + e + 360 * m ∧
      |e| * |cpd| < b + |(n : ℚ)| * lost cpd := by
  obtain ⟨m, e, hturns, he⟩ := turns_angle hcpd n
  refine ⟨m, (t - (x - zero) * cpd) / cpd + e, ?_, ?_⟩
  · rw [hp]
    push_cast
    rw [add_div, hturns]
    field_simp
    ring
  · calc |(t - (x - zero) * cpd) / cpd + e| * |cpd|
        ≤ (|(t - (x - zero) * cpd) / cpd| + |e|) * |cpd| :=
          mul_le_mul_of_nonneg_right (abs_add_le _ _) (abs_nonneg _)
      _ = |(t : ℚ) - (x - zero) * cpd| + |(n : ℚ)| * lost cpd := by
          rw [add_mul, he, abs_div, div_mul_cancel₀ _ (abs_ne_zero.mpr hcpd)]
      _ < b + |(n : ℚ)| * lost cpd := by linarith

/-! ## The counts of a target -/

/-- A sky without corrections and pointing model. -/
structure Sky.Plain (sky : Sky) : Prop where
  corrections : ∀ pos utc1 utc2, (sky.applyCorrections pos utc1 utc2).1 = pos
  model : ∀ pos hrz tt_pos utc1 utc2, sky.applyModel pos hrz tt_pos utc1 utc2 = ⟨0, 0⟩
  sidereal : ∀ utc1 utc2, sky.getLstDeg (utc1 + utc2) 0 = sky.getLstDeg utc1 utc2

variable (g sky)

/-- The counts of a target before whole turns are added. -/
def Gem.targetCounts (ls : ℚ) (pos : Equ) (flip : Bool) : Int × Int :=
  if flip then (g.tf_ac sky ls pos, g.tf_dc pos) else (g.tn_ac sky ls pos, g.tn_dc pos)

/-- How many roundings the counts have, each of less than a count. -/
def roundings (flip : Bool) : ℚ := if flip then 2 else 1

variable {g sky}

theorem targetCounts_dec (ls : ℚ) (pos : Equ) (flip : Bool) :
    |((g.targetCounts sky ls pos flip).2 : ℚ) -
      ((if flip then 180 - pos.dec else pos.dec) - g.decZero) * g.decCpd| < roundings flip := by
  have hn := abs_toCounts_sub_lt ((pos.dec - g.decZero) * g.decCpd)
  have hf := abs_toCounts_sub_lt ((90 - pos.dec) * 2 * g.decCpd)
  rw [abs_lt] at hn hf
  cases flip with
  | false => exact abs_lt.mpr hn
  | true =>
    simp only [Gem.targetCounts, roundings, if_true, Gem.tf_dc, Gem.tn_dc, abs_lt]
    push_cast
    constructor <;> linarith

/-- Half a turn, as the right ascension axis counts it. -/
def halfTurn (cpd : ℚ) : ℚ := if 0 < cpd then 180 else -180

theorem targetCounts_ha (ls : ℚ) (pos : Equ) (flip : Bool) :
    |((g.targetCounts sky ls pos flip).1 : ℚ) -
      ((if flip then hourAngle sky ls pos - halfTurn g.haCpd else hourAngle sky ls pos) -
        g.haZero) * g.haCpd| < roundings flip := by
  have hn := abs_toCounts_sub_lt ((hourAngle sky ls pos - g.haZero) * g.haCpd)
  have hf := abs_toCounts_sub_lt (|g.haCpd * 360| / 2)
  have hhalf : |g.haCpd * 360| / 2 = halfTurn g.haCpd * g.haCpd := by
    rw [abs_mul, abs_of_pos (by norm_num : (0 : ℚ) < 360)]
    unfold halfTurn
    split
    · next hpos =>
      rw [abs_of_pos hpos]
      ring
    · next hneg =>
      rw [abs_of_nonpos (not_lt.mp hneg)]
      ring
  rw [abs_lt] at hn hf
  cases flip with
  | false => exact abs_lt.mpr hn
  | true =>
    simp only [Gem.targetCounts, roundings, if_true, Gem.tf_ac, Gem.tn_ac, abs_lt]
    push_cast
    constructor <;> linarith

theorem halfTurn_add (cpd : ℚ) : ∃ s : ℤ, halfTurn cpd + 180 = 360 * s := by
  unfold halfTurn
  split
  · exact ⟨1, by norm_num⟩
  · exact ⟨0, by norm_num⟩

/-- The hour angle is the sidereal time less the right ascension, but for turns. -/
theorem hourAngle_turns (hrange : RangeDegrees sky.rangeDegrees) (ls : ℚ) (pos : Equ) :
    ∃ k : ℤ, hourAngle sky ls pos = ls - pos.ra + 360 * k := by
  obtain ⟨n, hn⟩ := hrange.turns (ls - pos.ra)
  unfold hourAngle
  simp only
  split
  · exact ⟨n - 1, by rw [hn]; push_cast; ring⟩
  · exact ⟨n, hn⟩

theorem candidate_turns (hplain : sky.Plain) {ask : Ask} {lim : Limits} {ls : ℚ} {hrz : Hrz}
    {t_ac t_dc : Int} {pos : Equ} {c : Candidate}
    (h : g.candidate sky ask lim ls hrz t_ac t_dc pos = some c) :
    g.full_ac ∣ c.ac - t_ac ∧ g.full_dc ∣ c.dc - t_dc := by
  simp only [Gem.candidate, Option.bind_eq_bind, Option.bind_eq_some_iff] at h
  obtain ⟨⟨ret, n_ac, n_dc⟩, hnormal, h⟩ := h
  have hturns := normalizeCountValues_turns g sky hnormal
  simp only at h
  split at h
  · rw [hplain.model] at h
    cases h
    simpa [toCounts] using hturns
  · cases h
    exact hturns

theorem handed_out {ask : Ask} {lim : Limits} {tar_pos : Equ} {n f : Candidate}
    (h : (g.decideFlip ask lim tar_pos n f).ret = 0) :
    ((g.decideFlip ask lim tar_pos n f).ac, (g.decideFlip ask lim tar_pos n f).dc) =
      if (g.decideFlip ask lim tar_pos n f).use_flipped then (f.ac, f.dc) else (n.ac, n.dc) := by
  have hout (flip : Bool × Int) : ((ask.handOut lim tar_pos n f flip).ac,
      (ask.handOut lim tar_pos n f flip).dc) =
      if (ask.handOut lim tar_pos n f flip).use_flipped then (f.ac, f.dc) else (n.ac, n.dc) := by
    unfold Ask.handOut
    split <;> rfl
  generalize hans : g.decideFlip ask lim tar_pos n f = ans at h ⊢
  unfold Gem.decideFlip at hans
  simp only at hans
  generalize (if f.ret = 0 ∧ f.outside lim = true then (-1 : Int)
    else if n.ret = 0 ∧ n.outside lim = true then -1 else n.ret) = ret_n at hans
  split at hans
  · rw [← hans] at h
    cases h
  · split at hans
    · exact hans ▸ hout _
    · split at hans
      · exact hans ▸ hout _
      · exact hans ▸ hout _

/-- What is handed out are the counts of a side, whole turns away. -/
theorem sky2counts_turns (hplain : sky.Plain) {ask : Ask} {ans : Answer} {ra dec : ℚ}
    (hra : ask.ra = some ra) (hdec : ask.dec = some dec)
    (h : g.sky2counts sky ask = some ans) (hret : ans.ret = 0) :
    ∃ n_ac n_dc : ℤ,
      ans.ac = (g.targetCounts sky (sky.getLstDeg ask.utc1 ask.utc2) ⟨ra, dec⟩
        ans.use_flipped).1 + n_ac * g.full_ac ∧
      ans.dc = (g.targetCounts sky (sky.getLstDeg ask.utc1 ask.utc2) ⟨ra, dec⟩
        ans.use_flipped).2 + n_dc * g.full_dc := by
  unfold Gem.sky2counts at h
  cases hstart : ask.start sky with
  | error ans' =>
    rw [hstart] at h
    cases h
    obtain ⟨lim, rfl⟩ := start_error hstart
    cases hret
  | ok t =>
    obtain ⟨pos, ls, tar_pos, hrz, lim⟩ := t
    rw [hstart] at h
    simp only [Option.bind_eq_bind, Option.bind_eq_some_iff] at h
    obtain ⟨n, hn, f, hf, h⟩ := h
    obtain rfl := Option.some.inj h
    have hls : ls = sky.getLstDeg ask.utc1 ask.utc2 ∧ tar_pos = ⟨ra, dec⟩ := by
      unfold Ask.start at hstart
      rw [hra, hdec] at hstart
      simp only at hstart
      split at hstart
      · cases hstart
      · split at hstart
        · cases hstart
        · cases hstart
          exact ⟨rfl, hplain.corrections _ _ _⟩
    obtain ⟨rfl, rfl⟩ := hls
    have hcounts := handed_out hret
    obtain ⟨⟨n_ac, hnac⟩, n_dc, hndc⟩ := candidate_turns hplain hn
    obtain ⟨⟨f_ac, hfac⟩, f_dc, hfdc⟩ := candidate_turns hplain hf
    cases hflip : (g.decideFlip ask lim ⟨ra, dec⟩ n f).use_flipped with
    | false =>
      rw [hflip] at hcounts
      obtain ⟨hac, hdc⟩ := Prod.mk.inj hcounts
      refine ⟨n_ac, n_dc, ?_, ?_⟩
      · rw [hac]
        simp only [Gem.targetCounts, Bool.false_eq_true, if_false]
        linarith
      · rw [hdc]
        simp only [Gem.targetCounts, Bool.false_eq_true, if_false]
        linarith
    | true =>
      rw [hflip] at hcounts
      obtain ⟨hac, hdc⟩ := Prod.mk.inj hcounts
      refine ⟨f_ac, f_dc, ?_, ?_⟩
      · rw [hac]
        simp only [Gem.targetCounts, if_true]
        linarith
      · rw [hdc]
        simp only [Gem.targetCounts, if_true]
        linarith

/-! ## There and back -/

variable (g sky)

/-- What `counts2sky` answers of any counts, and of those that `sky2counts` found. -/
structure Gem.PointsBack : Prop where
  between : ∀ ac dc flip JD, |(g.counts2sky sky ac dc flip JD).1.dec| ≤ 90
  circle : ∀ ac dc flip JD, 0 ≤ (g.counts2sky sky ac dc flip JD).1.ra ∧
    (g.counts2sky sky ac dc flip JD).1.ra ≤ 360 ∧
    ((g.counts2sky sky ac dc flip JD).1.ra < 360 ∨
      ∃ n : ℤ, (g.axes sky ac dc JD).ra = 180 * n ∧ n < 0)
  flip : ∀ ac dc flip JD, flip = false ∨ |(g.axes sky ac dc JD).dec| ≤ 90 →
    (g.counts2sky sky ac dc flip JD).2.1 = decide (passages (g.axes sky ac dc JD).dec % 2 = 1)
  back : sky.Plain → ∀ ask ans ra dec, ask.ra = some ra → ask.dec = some dec →
    g.sky2counts sky ask = some ans → ans.ret = 0 → ∃ n_ac n_dc : ℤ,
      ans.ac = (g.targetCounts sky (sky.getLstDeg ask.utc1 ask.utc2) ⟨ra, dec⟩
        ans.use_flipped).1 + n_ac * g.full_ac ∧
      ans.dc = (g.targetCounts sky (sky.getLstDeg ask.utc1 ask.utc2) ⟨ra, dec⟩
        ans.use_flipped).2 + n_dc * g.full_dc ∧
      (roundings ans.use_flipped + |(n_dc : ℚ)| * lost g.decCpd ≤ (90 - |dec|) * |g.decCpd| →
        let back := g.counts2sky sky ans.ac ans.dc false (ask.utc1 + ask.utc2)
        back.2.1 = ans.use_flipped ∧
        |back.1.dec - dec| * |g.decCpd| <
          roundings ans.use_flipped + |(n_dc : ℚ)| * lost g.decCpd ∧
        ∃ k : ℤ, |back.1.ra - ra - 360 * k| * |g.haCpd| <
          roundings ans.use_flipped + |(n_ac : ℚ)| * lost g.haCpd)

variable {g sky}

/-- An error of fewer counts than there are to the pole. -/
theorem before_pole {cpd dec e b : ℚ} (he : |e| * |cpd| < b)
    (hb : b ≤ (90 - |dec|) * |cpd|) : |dec + e| < 90 := by
  have hless : |e| < 90 - |dec| := lt_of_mul_lt_mul_right (lt_of_lt_of_le he hb) (abs_nonneg _)
  have hsum := abs_add_le dec e
  linarith

/-- The position of counts that are near to those of a target. -/
theorem back_of_near (hrange : RangeDegrees sky.rangeDegrees) (hhaCpd : g.haCpd ≠ 0)
    (hdecCpd : g.decCpd ≠ 0) {ac dc n_ac n_dc : ℤ} {JD ra dec : ℚ} {flip : Bool}
    (hac : ac = (g.targetCounts sky (sky.getLstDeg JD 0) ⟨ra, dec⟩ flip).1 + n_ac * g.full_ac)
    (hdc : dc = (g.targetCounts sky (sky.getLstDeg JD 0) ⟨ra, dec⟩ flip).2 + n_dc * g.full_dc)
    (hpole : roundings flip + |(n_dc : ℚ)| * lost g.decCpd ≤ (90 - |dec|) * |g.decCpd|) :
    (g.counts2sky sky ac dc false JD).2.1 = flip ∧
      |(g.counts2sky sky ac dc false JD).1.dec - dec| * |g.decCpd| <
        roundings flip + |(n_dc : ℚ)| * lost g.decCpd ∧
      ∃ k : ℤ, |(g.counts2sky sky ac dc false JD).1.ra - ra - 360 * k| * |g.haCpd| <
        roundings flip + |(n_ac : ℚ)| * lost g.haCpd := by
  obtain ⟨m, e, hm, he⟩ := axis_angle hdecCpd (targetCounts_dec _ _ flip) hdc
  obtain ⟨m', e', hm', he'⟩ := axis_angle hhaCpd (targetCounts_ha _ _ flip) hac
  obtain ⟨j, hj⟩ := hourAngle_turns hrange (sky.getLstDeg JD 0) ⟨ra, dec⟩
  obtain ⟨folded, hfolds, hpos, hflip⟩ := counts2sky_folds hrange ac dc false JD
  obtain ⟨l, hl⟩ := hrange.turns folded.1.ra
  rw [ite_self] at hfolds
  have hdecAxis : (g.axes sky ac dc JD).dec = dc / g.decCpd + g.decZero := rfl
  have hraAxis : (g.axes sky ac dc JD).ra = sky.getLstDeg JD 0 - (ac / g.haCpd + g.haZero) := rfl
  rw [hpos, hflip]
  simp only
  cases flip with
  | false =>
    simp only [Bool.false_eq_true, if_false] at hm hm'
    obtain ⟨hdec, hsame, k, hk⟩ := hfolds.front (before_pole he hpole) (hdecAxis.trans hm)
    refine ⟨hsame, ?_, k + l - j - m', ?_⟩
    · rw [hdec, add_sub_cancel_left]
      exact he
    · rw [hl, hk]
      simp only
      rw [hraAxis, hm', hj]
      push_cast
      convert he' using 2
      rw [← abs_neg]
      congr 1
      ring
  | true =>
    simp only [if_true] at hm hm'
    have hbehind : (g.axes sky ac dc JD).dec = 180 - (dec + -e) + 360 * m := by
      rw [hdecAxis, hm]
      ring
    have he_neg : |-e| * |g.decCpd| < roundings true + |(n_dc : ℚ)| * lost g.decCpd := by
      rwa [abs_neg]
    obtain ⟨hdec, hother, k, hk⟩ := hfolds.behind (before_pole he_neg hpole) hbehind
    obtain ⟨s, hs⟩ := halfTurn_add g.haCpd
    refine ⟨hother, ?_, s + k + l - j - m', ?_⟩
    · rw [hdec, add_sub_cancel_left]
      exact he_neg
    · rw [hl, hk]
      simp only
      rw [hraAxis, hm', hj, eq_sub_of_add_eq hs]
      push_cast
      convert he' using 2
      rw [← abs_neg]
      congr 1
      ring

/-- **There and back**: the position of any counts is in its circles, the flip that starts from
none is that of the passages over the pole, and the counts of a target lead back to it, but for
their roundings. -/
theorem pointsBack (hrange : RangeDegrees sky.rangeDegrees) (hhaCpd : g.haCpd ≠ 0)
    (hdecCpd : g.decCpd ≠ 0) : g.PointsBack sky where
  between ac dc flip JD := by
    obtain ⟨folded, hfolds, hpos, -⟩ := counts2sky_folds hrange ac dc flip JD
    rw [hpos]
    exact hfolds.between
  circle ac dc flip JD := by
    obtain ⟨folded, hfolds, hpos, -⟩ := counts2sky_folds hrange ac dc flip JD
    rw [hpos]
    refine ⟨hrange.nonneg _, hrange.le_circle _, ?_⟩
    rcases lt_or_eq_of_le (hrange.le_circle folded.1.ra) with hlt | heq
    · exact .inl hlt
    · obtain ⟨l, hl⟩ := hrange.turns folded.1.ra
      have hneg : folded.1.ra < 0 := not_le.mp fun h => (hrange.lt_circle _ h).ne heq
      have hra := hfolds.ra
      refine .inr ⟨2 - 2 * l - passages (g.axes sky ac dc JD).dec, ?_, ?_⟩
      · simp only at hra
        push_cast
        linarith
      · have hlt : ((2 - 2 * l : ℤ) : ℚ) < ((0 : ℤ) : ℚ) := by
          push_cast
          linarith
        have hless := Int.cast_lt.mp hlt
        omega
  flip ac dc flip JD hflip := by
    obtain ⟨folded, hfolds, -, hfold⟩ := counts2sky_folds hrange ac dc flip JD
    have hnone : (if 90 < |(g.axes sky ac dc JD).dec| then flip else false) = false := by
      rcases hflip with rfl | hin
      · exact ite_self _
      · exact if_neg (not_lt.mpr hin)
    rw [hfold, hfolds.flip, hnone, Bool.false_xor]
  back hplain ask ans ra dec hra hdec h hret := by
    obtain ⟨n_ac, n_dc, hac, hdc⟩ := sky2counts_turns hplain hra hdec h hret
    refine ⟨n_ac, n_dc, hac, hdc, fun hpole => ?_⟩
    rw [← hplain.sidereal] at hac hdc
    exact back_of_near hrange hhaCpd hdecCpd hac hdc hpole

end

/-- A sky without corrections and model, where all is above the horizon. -/
def plainSky : Sky :=
  { sagSky with
    applyModel := fun _ _ _ _ _ => ⟨0, 0⟩
    rangeDegrees := wholeTurnsOff }

theorem pointsBack_hundred : hundredGem.PointsBack plainSky :=
  pointsBack rangeDegrees_wholeTurnsOff (by norm_num [hundredGem]) (by norm_num [hundredGem])

/-- Ten counts a degree. -/
def tenGem : Gem := { hundredGem with haCpd := 10, decCpd := 10, ra_ticks := 3600 }

/-- A target to be reached flipped. -/
def askFlipped (dec : ℚ) : Ask :=
  { ra := some 0, dec := some dec, ac := 0, dc := 0, utc1 := 0, utc2 := 0, used_flipping := 4,
    writeValues := false, haMargin := 0, limits := ⟨-4000, 4000, -4000, 4000⟩,
    flip_longest_path := -1 }

/-- Behind the pole the flip is that of before, turned. A flipped target comes back more than a
count away, and at the pole without its flip. -/
theorem not_pointsBack_ten :
    ((tenGem.counts2sky plainSky 0 1000 false 0).2.1 = true ∧
      (tenGem.counts2sky plainSky 0 1000 true 0).2.1 = false) ∧
    (tenGem.sky2counts plainSky (askFlipped (9 / 100)) =
        some ⟨0, -1800, 1798, true, (askFlipped 0).limits, -1, none⟩ ∧
      (tenGem.counts2sky plainSky (-1800) 1798 false 0).1.dec = 2 / 10 ∧
      1 < |2 / 10 - 9 / 100| * |tenGem.decCpd|) ∧
    tenGem.sky2counts plainSky (askFlipped 90) =
        some ⟨0, -1800, 900, true, (askFlipped 0).limits, -1, none⟩ ∧
      (tenGem.counts2sky plainSky (-1800) 900 false 0).2.1 = false := by
  decide +kernel

end Rts2.Teld
