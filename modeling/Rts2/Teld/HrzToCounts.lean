import Rts2.Teld.Normalize
import Rts2.Teld.Trajectory

/-! # Counts of an altitude-azimuth mount

`hrz2counts` takes the nearest counts of a position, brings the azimuth into its limits and
refuses what stays outside. The sums are kept in `int32_t`. -/
namespace Rts2.Teld

/-- The counts of a turn and the limits of both axes. -/
structure AltAzTurns where
  az_ticks : Int
  alt_ticks : Int
  azMin : Int
  azMax : Int
  altMin : Int
  altMax : Int
  deriving DecidableEq

/-! ## The source -/

/-- A difference of no more than half a turn. -/
def halfWay (ticks d : Int) : Int :=
  if ticks < 2 * d then d - ticks else if 2 * d < -ticks then d + ticks else d

/-- The counts nearest to `c` that are those of `ideal`. -/
def nearest32 (ticks c : Int) (ideal : ℚ) : Option Int := do
  let d ← int32 (toCounts (c - ideal))
  int32 (c - (← int32 (halfWay ticks (d.tmod ticks))))

/-- `az_zero`: closer to 0 than half a turn, or between 0 and a turn. -/
def recentre32 (az_zero ticks t : Int) : Option Int :=
  if az_zero < 0 then do raise32 (-(ticks / 2)) 0 ticks (← lower32 (ticks / 2) 0 ticks t)
  else if 0 < az_zero then do raise32 0 0 ticks (← lower32 ticks 0 ticks t)
  else some t

section
variable (m : AltAz) (p : AltAzTurns) (rangeDegrees : ℚ → ℚ)

def AltAz.applyAltAzOffsets (hrz : Hrz) : Hrz :=
  ⟨rangeDegrees (hrz.az + m.offsAltAz.az), hrz.alt + m.offsAltAz.alt⟩

/-- The counts of an altitude, with their fraction. -/
def AltAz.idealAlt (hrz : Hrz) : ℚ :=
  ((90 - (m.applyAltAzOffsets rangeDegrees hrz).alt) - m.zdZero) * m.altCpd

/-- The counts of an azimuth, with their fraction. -/
def AltAz.idealAz (hrz : Hrz) : ℚ :=
  ((m.applyAltAzOffsets rangeDegrees hrz).az - m.azZero) * m.azCpd

/-- `AltAz::hrz2counts`: the return code and the counts. -/
def AltAz.hrz2counts (hrz : Hrz) (azc altc az_zero : Int) : Option (Int × Int × Int) := do
  let t_alt ← nearest32 p.alt_ticks altc (m.idealAlt rangeDegrees hrz)
  let t_az ← nearest32 p.az_ticks azc (m.idealAz rangeDegrees hrz)
  let t_az ← recentre32 az_zero p.az_ticks t_az
  let t_az ← raise32 p.azMin 0 p.az_ticks t_az
  let t_az ← lower32 p.azMax 0 p.az_ticks t_az
  if t_alt < p.altMin ∨ p.altMax < t_alt then some (-1, azc, altc)
  else if t_az < p.azMin ∨ p.azMax < t_az then some (-1, azc, altc)
  else some (0, t_az, t_alt)

end

/-! ## Turns -/

/-- The whole counts of an ideal count, rounded towards `c`. -/
def wholeCounts (c : Int) (ideal : ℚ) : Int := c - toCounts (c - ideal)

theorem abs_wholeCounts_sub_lt (c : Int) (ideal : ℚ) : |(wholeCounts c ideal : ℚ) - ideal| < 1 := by
  have hlost := abs_toCounts_sub_lt (c - ideal)
  unfold wholeCounts
  push_cast
  rw [← abs_neg]
  convert hlost using 2
  ring

theorem halfWay_le {ticks d : Int} (hd : -ticks < d ∧ d < ticks) :
    -ticks ≤ 2 * halfWay ticks d ∧ 2 * halfWay ticks d ≤ ticks := by
  unfold halfWay
  split
  · omega
  · split <;> omega

theorem dvd_halfWay (ticks d : Int) : ticks ∣ halfWay ticks d - d := by
  unfold halfWay
  split
  · exact dvd_sub_turn ticks d
  · split
    · exact dvd_add_turn ticks d
    · exact dvd_sub_self ticks d

theorem dvd_raised (low full t : Int) : full ∣ raised low 0 full t - t := by
  unfold raised
  split
  · have hdvd : full ∣ (t - 0 - low) % full - (t - 0 - low) := Int.dvd_emod_sub_self
    rwa [show low + 0 + (t - 0 - low) % full - t = (t - 0 - low) % full - (t - 0 - low) by ring]
  · exact dvd_sub_self full t

theorem dvd_lowered (high full t : Int) : full ∣ lowered high 0 full t - t := by
  unfold lowered
  split
  · have hdvd : full ∣ high - 0 - t - (high - 0 - t) % full := Int.dvd_self_sub_emod
    rwa [show high - 0 - (high - 0 - t) % full - t =
      high - 0 - t - (high - 0 - t) % full by ring]
  · exact dvd_sub_self full t

/-- A count that is raised is less than a turn from the limit. -/
theorem le_raised (low : Int) {full : Int} (hfull : 0 < full) (t : Int) :
    low ≤ raised low 0 full t ∧
      (raised low 0 full t = t ∨ raised low 0 full t < low + full) := by
  have hmod := Int.emod_nonneg (t - 0 - low) hfull.ne'
  have hless := Int.emod_lt_of_pos (t - 0 - low) hfull
  unfold raised
  split <;> omega

/-- A count that is lowered is less than a turn from the limit. -/
theorem lowered_le (high : Int) {full : Int} (hfull : 0 < full) (t : Int) :
    lowered high 0 full t ≤ high ∧
      (lowered high 0 full t = t ∨ high < lowered high 0 full t + full) := by
  have hmod := Int.emod_nonneg (high - 0 - t) hfull.ne'
  have hless := Int.emod_lt_of_pos (high - 0 - t) hfull
  unfold lowered
  split <;> omega

/-- Limits that hold a count hold what is raised and lowered. -/
theorem inside_of_exists (low high : Int) {full t y : Int} (hfull : 0 < full) (hturn : full ∣ y - t)
    (hlow : low ≤ y) (hhigh : y ≤ high) : low ≤ lowered high 0 full (raised low 0 full t) := by
  have hraised := (le_raised low hfull t).1
  obtain ⟨hle, hsame | hnear⟩ := lowered_le high hfull (raised low 0 full t)
  · omega
  · by_contra hout
    -- a count of the same turn above the limit, but less than a turn from the lowered one
    have hdvd : full ∣ y - lowered high 0 full (raised low 0 full t) := by
      have hback := dvd_sub_trans (dvd_raised low full t)
        (dvd_lowered high full (raised low 0 full t))
      have hsub := dvd_sub hturn hback
      rwa [sub_sub_sub_cancel_right] at hsub
    have hle := Int.le_of_dvd (by omega) hdvd
    omega

/-! ## The counts in whole numbers -/

/-- The counts nearest to `c`. -/
def nearCounts (ticks c : Int) (ideal : ℚ) : Int :=
  c - halfWay ticks ((toCounts (c - ideal)).tmod ticks)

def recentred (az_zero ticks t : Int) : Int :=
  if az_zero < 0 then raised (-(ticks / 2)) 0 ticks (lowered (ticks / 2) 0 ticks t)
  else if 0 < az_zero then raised 0 0 ticks (lowered ticks 0 ticks t)
  else t

theorem dvd_nearCounts (ticks c : Int) (ideal : ℚ) :
    ticks ∣ nearCounts ticks c ideal - wholeCounts c ideal := by
  have hhalf := dvd_halfWay ticks ((toCounts (c - ideal)).tmod ticks)
  have hrest : ticks ∣ toCounts (c - ideal) - (toCounts (c - ideal)).tmod ticks :=
    Int.dvd_self_sub_tmod
  have hsub := dvd_sub hrest hhalf
  unfold nearCounts wholeCounts
  rwa [sub_sub_sub_cancel_left, ← sub_sub_sub_cancel_right _ _ ((toCounts (c - ideal)).tmod ticks)]

theorem nearCounts_le {ticks : Int} (hticks : 0 < ticks) (c : Int) (ideal : ℚ) :
    2 * |nearCounts ticks c ideal - c| ≤ ticks := by
  have hhalf := halfWay_le (And.intro (Int.lt_tmod_of_pos (toCounts (c - ideal)) hticks)
    (Int.tmod_lt_of_pos (toCounts (c - ideal)) hticks))
  unfold nearCounts
  rw [sub_sub_cancel_left, abs_neg]
  rcases abs_cases (halfWay ticks ((toCounts (c - ideal)).tmod ticks)) with h | h <;> omega

theorem dvd_recentred (az_zero ticks t : Int) : ticks ∣ recentred az_zero ticks t - t :=
  dvd_ite (dvd_sub_trans (dvd_lowered _ _ t) (dvd_raised _ _ _))
    (dvd_ite (dvd_sub_trans (dvd_lowered _ _ t) (dvd_raised _ _ _)) (dvd_sub_self _ t))

theorem nearest32_eq_some_iff {ticks : Int} (hticks : 0 < ticks) (h32 : Int32 ticks) {c t : Int}
    {ideal : ℚ} : nearest32 ticks c ideal = some t ↔
      (Int32 (toCounts (c - ideal)) ∧ Int32 (nearCounts ticks c ideal)) ∧
        t = nearCounts ticks c ideal := by
  have hhalf : Int32 (halfWay ticks ((toCounts (c - ideal)).tmod ticks)) := by
    have hle := halfWay_le (And.intro (Int.lt_tmod_of_pos (toCounts (c - ideal)) hticks)
      (Int.tmod_lt_of_pos (toCounts (c - ideal)) hticks))
    unfold Int32 at *
    omega
  simp only [nearest32, Option.bind_eq_bind, Option.bind_eq_some_iff, int32_eq_some]
  constructor
  · rintro ⟨_, ⟨hd, rfl⟩, _, ⟨-, rfl⟩, hn, rfl⟩
    exact ⟨⟨hd, hn⟩, rfl⟩
  · rintro ⟨⟨hd, hn⟩, rfl⟩
    exact ⟨_, ⟨hd, rfl⟩, _, ⟨hhalf, rfl⟩, hn, rfl⟩

/-- A limit from which a turn down fits. -/
theorem lowers_of (high : Int) {full t : Int} (hfull : 0 < full) (hlimit : -2 ^ 31 ≤ high - full)
    (ht : Int32 t) : Lowers high 0 full t ∧ Int32 (lowered high 0 full t) := by
  have hle := lowered_le high hfull t
  have hhigh : lowered high 0 full t ≤ t := by
    have hmod := Int.emod_nonneg (high - 0 - t) hfull.ne'
    unfold lowered
    split <;> omega
  have hlast : Int32 (lowered high 0 full t) := by
    unfold Int32 at *
    omega
  exact ⟨⟨by rwa [add_zero], hlast, by rwa [add_zero]⟩, hlast⟩

/-- A limit from which a turn up fits. -/
theorem raises_of (low : Int) {full t : Int} (hfull : 0 < full) (hlimit : low + full ≤ 2 ^ 31)
    (ht : Int32 t) : Raises low 0 full t ∧ Int32 (raised low 0 full t) := by
  have hle := le_raised low hfull t
  have hlow : t ≤ raised low 0 full t := by
    have hmod := Int.emod_nonneg (t - 0 - low) hfull.ne'
    unfold raised
    split <;> omega
  have hlast : Int32 (raised low 0 full t) := by
    unfold Int32 at *
    omega
  exact ⟨⟨by rwa [sub_zero], hlast, by rwa [sub_zero]⟩, hlast⟩

/-- The sums around 0 fit. -/
theorem recentre32_eq {ticks t : Int} (hticks : 0 < ticks) (h32 : Int32 ticks) (ht : Int32 t)
    (az_zero : Int) : recentre32 az_zero ticks t = some (recentred az_zero ticks t) ∧
      Int32 (recentred az_zero ticks t) := by
  unfold recentre32 recentred
  have hturn := h32.2
  split
  · obtain ⟨hlowers, hlow⟩ := lowers_of (ticks / 2) hticks (by omega) ht
    obtain ⟨hraises, hraise⟩ := raises_of (-(ticks / 2)) hticks (by omega) hlow
    rw [(lower32_eq_some_iff hticks ht).mpr ⟨hlowers, rfl⟩]
    exact ⟨(raise32_eq_some_iff hticks hlow).mpr ⟨hraises, rfl⟩, hraise⟩
  · split
    · obtain ⟨hlowers, hlow⟩ := lowers_of ticks hticks (by omega) ht
      obtain ⟨hraises, hraise⟩ := raises_of 0 hticks (by omega) hlow
      rw [(lower32_eq_some_iff hticks ht).mpr ⟨hlowers, rfl⟩]
      exact ⟨(raise32_eq_some_iff hticks hlow).mpr ⟨hraises, rfl⟩, hraise⟩
    · exact ⟨rfl, ht⟩

/-! ## What is asked of the counts -/

section
variable (m : AltAz) (p : AltAzTurns) (rangeDegrees : ℚ → ℚ) (hrz : Hrz) (azc altc az_zero : Int)

/-- Counts inside the limits and whole turns from the ideal ones, or a refusal that leaves the
counts, as no turn of the azimuth or not the nearest altitude is inside. -/
structure AltAz.Answers (ret n_az n_alt : Int) : Prop where
  inside : ret = 0 → p.azMin ≤ n_az ∧ n_az ≤ p.azMax ∧ p.altMin ≤ n_alt ∧ n_alt ≤ p.altMax
  turns : ret = 0 →
    (∃ k : ℤ, |(n_az : ℚ) - (m.idealAz rangeDegrees hrz + k * p.az_ticks)| < 1) ∧
    ∃ k : ℤ, |(n_alt : ℚ) - (m.idealAlt rangeDegrees hrz + k * p.alt_ticks)| < 1
  kept : ret ≠ 0 → n_az = azc ∧ n_alt = altc
  refused : ret ≠ 0 →
    (∀ y, p.az_ticks ∣ y - wholeCounts azc (m.idealAz rangeDegrees hrz) →
      y < p.azMin ∨ p.azMax < y) ∨
    ∃ y, p.alt_ticks ∣ y - wholeCounts altc (m.idealAlt rangeDegrees hrz) ∧
      2 * |y - altc| ≤ p.alt_ticks ∧ (y < p.altMin ∨ p.altMax < y)

/-- The azimuth before it is brought into its limits. -/
def AltAz.centredAz : Int :=
  recentred az_zero p.az_ticks (nearCounts p.az_ticks azc (m.idealAz rangeDegrees hrz))

/-- The sums fit. -/
structure AltAz.Fits : Prop where
  diffAlt : Int32 (toCounts (altc - m.idealAlt rangeDegrees hrz))
  diffAz : Int32 (toCounts (azc - m.idealAz rangeDegrees hrz))
  nearAlt : Int32 (nearCounts p.alt_ticks altc (m.idealAlt rangeDegrees hrz))
  nearAz : Int32 (nearCounts p.az_ticks azc (m.idealAz rangeDegrees hrz))
  overMin : Int32 (raised p.azMin 0 p.az_ticks (m.centredAz p rangeDegrees hrz azc az_zero))
  underMax : Int32 (lowered p.azMax 0 p.az_ticks
    (raised p.azMin 0 p.az_ticks (m.centredAz p rangeDegrees hrz azc az_zero)))

variable {m p rangeDegrees hrz azc altc az_zero}

/-- The answer of whole numbers. -/
def answer (p : AltAzTurns) (azc altc t_az t_alt : Int) : Int × Int × Int :=
  if t_alt < p.altMin ∨ p.altMax < t_alt then (-1, azc, altc)
  else if t_az < p.azMin ∨ p.azMax < t_az then (-1, azc, altc)
  else (0, t_az, t_alt)

theorem hrz2counts_eq_some_iff (haz : 0 < p.az_ticks) (halt : 0 < p.alt_ticks)
    (haz32 : Int32 p.az_ticks) (halt32 : Int32 p.alt_ticks) (r : Int × Int × Int) :
    m.hrz2counts p rangeDegrees hrz azc altc az_zero = some r ↔
      m.Fits p rangeDegrees hrz azc altc az_zero ∧
        r = answer p azc altc
          (lowered p.azMax 0 p.az_ticks
            (raised p.azMin 0 p.az_ticks (m.centredAz p rangeDegrees hrz azc az_zero)))
          (nearCounts p.alt_ticks altc (m.idealAlt rangeDegrees hrz)) := by
  unfold AltAz.hrz2counts answer
  simp only [Option.bind_eq_bind, Option.bind_eq_some_iff, ← apply_ite some, Option.some.injEq]
  constructor
  · rintro ⟨t_alt, halts, t_az, hazs, c, hc, u, hu, v, hv, rfl⟩
    obtain ⟨⟨hdiffAlt, hnearAlt⟩, rfl⟩ := (nearest32_eq_some_iff halt halt32).mp halts
    obtain ⟨⟨hdiffAz, hnearAz⟩, rfl⟩ := (nearest32_eq_some_iff haz haz32).mp hazs
    obtain ⟨hcentre, hcentre32⟩ := recentre32_eq haz haz32 hnearAz az_zero
    obtain rfl := Option.some.inj (hc.symm.trans hcentre)
    obtain ⟨hraises, rfl⟩ := (raise32_eq_some_iff haz hcentre32).mp hu
    obtain ⟨hlowers, rfl⟩ := (lower32_eq_some_iff haz hraises.2.1).mp hv
    exact ⟨⟨hdiffAlt, hdiffAz, hnearAlt, hnearAz, hraises.2.1, hlowers.2.1⟩, rfl⟩
  · rintro ⟨⟨hdiffAlt, hdiffAz, hnearAlt, hnearAz, hraised, hlowered⟩, rfl⟩
    obtain ⟨hcentre, hcentre32⟩ := recentre32_eq haz haz32 hnearAz az_zero
    exact ⟨_, (nearest32_eq_some_iff halt halt32).mpr ⟨⟨hdiffAlt, hnearAlt⟩, rfl⟩,
      _, (nearest32_eq_some_iff haz haz32).mpr ⟨⟨hdiffAz, hnearAz⟩, rfl⟩,
      _, hcentre,
      _, (raise32_eq_some_iff haz hcentre32).mpr
        ⟨⟨by rwa [sub_zero], hraised, by rwa [sub_zero]⟩, rfl⟩,
      _, (lower32_eq_some_iff haz hraised).mpr
        ⟨⟨by rwa [add_zero], hlowered, by rwa [add_zero]⟩, rfl⟩, rfl⟩

/-- Counts of a class are whole turns from the ideal count. -/
theorem turns_of_dvd {ticks c y : Int} {ideal : ℚ} (h : ticks ∣ y - wholeCounts c ideal) :
    ∃ k : ℤ, |(y : ℚ) - (ideal + k * ticks)| < 1 := by
  obtain ⟨k, hk⟩ := h
  refine ⟨k, ?_⟩
  have hy : (y : ℚ) = wholeCounts c ideal + ticks * k := by
    exact_mod_cast (show y = wholeCounts c ideal + ticks * k by omega)
  rw [hy]
  convert abs_wholeCounts_sub_lt c ideal using 2
  ring

theorem answers_answer (haz : 0 < p.az_ticks) (halt : 0 < p.alt_ticks) :
    let r := answer p azc altc
      (lowered p.azMax 0 p.az_ticks
        (raised p.azMin 0 p.az_ticks (m.centredAz p rangeDegrees hrz azc az_zero)))
      (nearCounts p.alt_ticks altc (m.idealAlt rangeDegrees hrz))
    m.Answers p rangeDegrees hrz azc altc r.1 r.2.1 r.2.2 := by
  have hclass : p.az_ticks ∣ m.centredAz p rangeDegrees hrz azc az_zero -
      wholeCounts azc (m.idealAz rangeDegrees hrz) :=
    dvd_sub_trans (dvd_nearCounts _ azc _) (dvd_recentred _ _ _)
  have hturn := dvd_sub_trans (dvd_sub_trans hclass (dvd_raised p.azMin p.az_ticks _))
    (dvd_lowered p.azMax p.az_ticks _)
  have hnear := dvd_nearCounts p.alt_ticks altc (m.idealAlt rangeDegrees hrz)
  have hcode : (-1 : Int) ≠ 0 := by decide
  unfold answer
  simp only
  split
  · next hout =>
    refine ⟨fun h => absurd h hcode, fun h => absurd h hcode, fun _ => ⟨rfl, rfl⟩,
      fun _ => .inr ⟨_, hnear, nearCounts_le halt altc _, hout⟩⟩
  · next hin =>
    split
    · next hout =>
      refine ⟨fun h => absurd h hcode, fun h => absurd h hcode, fun _ => ⟨rfl, rfl⟩,
        fun _ => .inl fun y hy => ?_⟩
      by_contra hinside
      have hback : p.az_ticks ∣ y - m.centredAz p rangeDegrees hrz azc az_zero := by
        have hsub := dvd_sub hy hclass
        rwa [sub_sub_sub_cancel_right] at hsub
      have hlow := inside_of_exists p.azMin p.azMax haz hback (by omega)
        (by omega)
      have hhigh := (lowered_le p.azMax haz
        (raised p.azMin 0 p.az_ticks (m.centredAz p rangeDegrees hrz azc az_zero))).1
      omega
    · next hinAz =>
      simp only [not_or, not_lt] at hin hinAz
      exact ⟨fun _ => ⟨hinAz.1, hinAz.2, hin.1, hin.2⟩,
        fun _ => ⟨turns_of_dvd hturn, turns_of_dvd hnear⟩, fun h => absurd rfl h,
        fun h => absurd rfl h⟩

/-- **Counts of a position**: there are counts, or there is a refusal that is right, if and only
if the sums fit. -/
theorem hrz2counts_iff (haz : 0 < p.az_ticks) (halt : 0 < p.alt_ticks) (haz32 : Int32 p.az_ticks)
    (halt32 : Int32 p.alt_ticks) :
    (∃ ret n_az n_alt, m.hrz2counts p rangeDegrees hrz azc altc az_zero =
        some (ret, n_az, n_alt) ∧ m.Answers p rangeDegrees hrz azc altc ret n_az n_alt) ↔
      m.Fits p rangeDegrees hrz azc altc az_zero := by
  constructor
  · rintro ⟨ret, n_az, n_alt, hcounts, -⟩
    exact ((hrz2counts_eq_some_iff haz halt haz32 halt32 _).mp hcounts).1
  · intro hfits
    exact ⟨_, _, _, (hrz2counts_eq_some_iff haz halt haz32 halt32 _).mpr ⟨hfits, rfl⟩,
      answers_answer haz halt⟩

end

/-- 16777216 counts a turn on both axes. -/
def wideAltAz : AltAz :=
  { azZero := 0, zdZero := 0, azCpd := 16777216 / 360, altCpd := 16777216 / 360,
    offsAltAz := ⟨0, 0⟩ }

def wideTurns : AltAzTurns :=
  { az_ticks := 16777216, alt_ticks := 16777216, azMin := -16777216, azMax := 16777216,
    altMin := -4194304, altMax := 4194304 }

theorem hrz2counts_iff_wide :
    ∃ ret n_az n_alt, wideAltAz.hrz2counts wideTurns wholeTurnsOff ⟨90, 45⟩ 100 200 0 =
        some (ret, n_az, n_alt) ∧
      wideAltAz.Answers wideTurns wholeTurnsOff ⟨90, 45⟩ 100 200 ret n_az n_alt :=
  (hrz2counts_iff (by decide) (by decide) (by decide) (by decide)).mpr
    ⟨by decide +kernel, by decide +kernel, by decide +kernel, by decide +kernel,
      by decide +kernel, by decide +kernel⟩

/-- Limits at the last count there is: the azimuth is raised over it. -/
def lastTurns : AltAzTurns :=
  { wideTurns with azMin := 2147483647, azMax := 2147483647 }

theorem hrz2counts_overflows :
    nearest32 16777216 2130706432 (wideAltAz.idealAz wholeTurnsOff ⟨0, 45⟩) = some 2130706432 ∧
      raised lastTurns.azMin 0 lastTurns.az_ticks 2130706432 = 2 ^ 31 ∧
      ¬ ∃ ret n_az n_alt,
        wideAltAz.hrz2counts lastTurns wholeTurnsOff ⟨0, 45⟩ 2130706432 0 0 =
            some (ret, n_az, n_alt) ∧
          wideAltAz.Answers lastTurns wholeTurnsOff ⟨0, 45⟩ 2130706432 0 ret n_az n_alt := by
  have hnone : wideAltAz.hrz2counts lastTurns wholeTurnsOff ⟨0, 45⟩ 2130706432 0 0 = none := by
    decide +kernel
  refine ⟨by decide +kernel, by decide +kernel, ?_⟩
  rintro ⟨ret, n_az, n_alt, hcounts, -⟩
  rw [hnone] at hcounts
  cases hcounts

end Rts2.Teld
