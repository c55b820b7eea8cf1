import Rts2.Teld.Gem

/-! # The axis limits

`sky2counts` answers with the counts of one of two candidates, non-flipped and flipped.
Both are checked against the limits, as they are and with the correction of the pointing
model. A flipped candidate that the correction takes over a limit is counted against
the non-flipped one. -/
namespace Rts2.Teld

/-- The arguments of `sky2counts`, the limits and the state of the longest path strategy;
an ordinate that is `none` is a NaN. -/
structure Ask where
  ra : Option ℚ
  dec : Option ℚ
  ac : Int
  dc : Int
  utc1 : ℚ
  utc2 : ℚ
  used_flipping : Int
  writeValues : Bool
  haMargin : ℚ
  limits : Limits
  flip_longest_path : Int

/-- What `sky2counts` leaves: the return code, the counts, the flip, the targets it wrote
with `setTelTarget` and `setTarTelRaDec`. -/
structure Answer where
  ret : Int
  ac : Int
  dc : Int
  use_flipped : Bool
  limits : Limits
  flip_longest_path : Int
  targets : Option (Equ × Equ)
  deriving DecidableEq

/-- One of the two ways to point: what `normalizeCountValues` returned, the counts with the
correction, the position given to the model and the change it made. -/
structure Candidate where
  ret : Int
  ac : Int
  dc : Int
  pos : Equ
  model_change : Equ

section
variable (g : Gem) (sky : Sky)

/-! ## Candidates -/

/-- The hour angle, between -180 and 180 degrees. -/
def hourAngle (ls : ℚ) (tar_pos : Equ) : ℚ :=
  let ha := sky.rangeDegrees (ls - tar_pos.ra)
  if 180 < ha then ha - 360 else ha

def Gem.tn_ac (ls : ℚ) (tar_pos : Equ) : Int :=
  toCounts ((hourAngle sky ls tar_pos - g.haZero) * g.haCpd)

def Gem.tn_dc (tar_pos : Equ) : Int :=
  toCounts ((tar_pos.dec - g.decZero) * g.decCpd)

/-- Half a turn of the right ascension axis away. -/
def Gem.tf_ac (ls : ℚ) (tar_pos : Equ) : Int :=
  g.tn_ac sky ls tar_pos - toCounts (|g.haCpd * 360| / 2)

/-- As far behind the pole as the target is before it. -/
def Gem.tf_dc (tar_pos : Equ) : Int :=
  g.tn_dc tar_pos + toCounts ((90 - tar_pos.dec) * 2 * g.decCpd)

/-- The flipped coordinates of the target, for the model. -/
def Gem.flippedPos (pos : Equ) : Equ :=
  ⟨sky.rangeDegrees (pos.ra + 180),
    if 0 < g.telLatitude then 180 - pos.dec else -180 - pos.dec⟩

/-- Normalisation and, where it succeeds, the correction of the pointing model. -/
def Gem.candidate (ask : Ask) (lim : Limits) (ls : ℚ) (hrz : Hrz) (t_ac t_dc : Int) (pos : Equ) :
    Option Candidate := do
  let (ret, ac, dc) ←
    g.normalizeCountValues sky lim ask.ac ask.dc t_ac t_dc (ask.utc1 + ask.utc2)
  if ret = 0 then
    let tt_pos : Equ := ⟨ls - (ac / g.haCpd + g.haZero), dc / g.decCpd + g.decZero⟩
    let change := sky.applyModel pos hrz tt_pos ask.utc1 ask.utc2
    some ⟨ret, ac + toCounts (change.ra * g.haCpd), dc - toCounts (change.dec * g.decCpd), pos,
      change⟩
  else some ⟨ret, ac, dc, pos, ⟨0, 0⟩⟩

def Candidate.outside (c : Candidate) (lim : Limits) : Bool :=
  lim.outsideDc c.dc || lim.outsideAc c.ac

/-! ## Flipping strategy -/

/-- `max (fabs (ac - t_ac), fabs (dc - t_dc))` -/
def Candidate.move (c : Candidate) (ask : Ask) : Int :=
  max |ask.ac - c.ac| |ask.dc - c.dc|

/-- `GEM::getHACWDAngle`, the angle from the counterweight down position. -/
def Gem.getHACWDAngle (ha_count : Int) : ℚ :=
  let haCpdSign : ℚ := if 0 < g.haCpd then 1 else -1
  if g.haZeroPos = 1 then
    -360 * ((ha_count + (g.haZero + haCpdSign * 90) * g.haCpd) / g.ra_ticks)
  else 360 * ((ha_count + (g.haZero - haCpdSign * 90) * g.haCpd) / g.ra_ticks)

def Gem.cwdDistance (ha_count : Int) : ℚ :=
  let diff := |fmod (g.getHACWDAngle ha_count) 360|
  if 180 < diff then 360 - diff else diff

/-- The `switch` over the strategies: the flip and the new `flip_longest_path`. -/
def Gem.strategy (ask : Ask) (n f : Candidate) : Bool × Int :=
  match ask.used_flipping with
  -- shortest
  | 0 => (f.move ask < n.move ask, ask.flip_longest_path)
  -- same, opposite
  | 1 => (g.flip_move_start = 1, ask.flip_longest_path)
  | 2 => (g.flip_move_start = 0, ask.flip_longest_path)
  -- west, east
  | 3 => (false, ask.flip_longest_path)
  | 4 => (true, ask.flip_longest_path)
  -- longest
  | 5 =>
    match ask.flip_longest_path with
    | 0 => (false, 0)
    | 1 => (true, 1)
    | _ => if n.move ask < f.move ask then (true, 1) else (false, 0)
  -- counterweight down, counterweight up
  | 6 => (g.cwdDistance f.ac < g.cwdDistance n.ac, ask.flip_longest_path)
  | 7 => (g.cwdDistance n.ac < g.cwdDistance f.ac, ask.flip_longest_path)
  | _ => (false, ask.flip_longest_path)

/-- A target that the sidereal motion would take over the limit soon is reached on the other
side. -/
def Gem.closeToMargin (ask : Ask) (lim : Limits) (t_margin : Int) : Bool :=
  0 < ask.haMargin &&
    if 0 < g.haCpd then decide (lim.acMax - ask.haMargin * g.haCpd < t_margin)
    else decide (t_margin < lim.acMin - ask.haMargin * g.haCpd)

def Gem.chooseFlip (ask : Ask) (lim : Limits) (n f : Candidate) : Bool × Int :=
  let (use_flipped, path) := g.strategy ask n f
  let t_margin := if use_flipped then f.ac else n.ac
  (if g.closeToMargin ask lim t_margin then !use_flipped else use_flipped, path)

/-! ## `sky2counts` -/

/-- `return -1`, after the driver was asked for the limits or before. -/
def Ask.fail (ask : Ask) (lim : Limits) : Answer :=
  ⟨-1, ask.ac, ask.dc, false, lim, ask.flip_longest_path, none⟩

/-- The counts of a candidate are handed out. -/
def Ask.handOut (ask : Ask) (lim : Limits) (tar_pos : Equ) (n f : Candidate)
    (flip : Bool × Int) : Answer :=
  if flip.1 then
    ⟨0, f.ac, f.dc, true, lim, flip.2,
      if ask.writeValues then
        some (⟨tar_pos.ra - f.model_change.ra, tar_pos.dec + f.model_change.dec⟩, f.pos)
      else none⟩
  else
    ⟨0, n.ac, n.dc, false, lim, flip.2,
      if ask.writeValues then
        some (⟨tar_pos.ra - n.model_change.ra, tar_pos.dec - n.model_change.dec⟩, n.pos)
      else none⟩

/-- What is done with the two candidates: a flipped one outside the limits sets `ret_n`. -/
def Gem.decideFlip (ask : Ask) (lim : Limits) (tar_pos : Equ) (n f : Candidate) : Answer :=
  let ret_n := if n.ret = 0 ∧ n.outside lim then -1 else n.ret
  let ret_n := if f.ret = 0 ∧ f.outside lim then -1 else ret_n
  if ret_n ≠ 0 ∧ f.ret ≠ 0 then ask.fail lim
  else if ret_n ≠ 0 ∧ f.ret = 0 then
    ask.handOut lim tar_pos n f (true, ask.flip_longest_path)
  else if ret_n = 0 ∧ f.ret = 0 then
    ask.handOut lim tar_pos n f (g.chooseFlip ask lim n f)
  else ask.handOut lim tar_pos n f (false, ask.flip_longest_path)

/-- A target the mount can try to point to: the sidereal time, the corrected target with its
horizontal coordinates, and the limits. -/
def Ask.start (ask : Ask) : Except Answer (Equ × ℚ × Equ × Hrz × Limits) :=
  match ask.ra, ask.dec with
  | some ra, some dec =>
    let (tar_pos, hrz) := sky.applyCorrections ⟨ra, dec⟩ ask.utc1 ask.utc2
    if hrz.alt < -5 then .error (ask.fail ask.limits)
    else
      let (ret, lim) := sky.updateLimits ask.limits
      if ret ≠ 0 then .error (ask.fail lim)
      else .ok (⟨ra, dec⟩, sky.getLstDeg ask.utc1 ask.utc2, tar_pos, hrz, lim)
  | _, _ => .error (ask.fail ask.limits)

/-- `GEM::sky2counts`; `none` is a division by zero. -/
def Gem.sky2counts (ask : Ask) : Option Answer :=
  match ask.start sky with
  | .error ans => some ans
  | .ok (pos, ls, tar_pos, hrz, lim) => do
    let n ← g.candidate sky ask lim ls hrz (g.tn_ac sky ls tar_pos) (g.tn_dc tar_pos) pos
    let f ← g.candidate sky ask lim ls hrz (g.tf_ac sky ls tar_pos) (g.tf_dc tar_pos)
      (g.flippedPos sky pos)
    some (g.decideFlip ask lim tar_pos n f)

/-! ## What is asked of an answer -/

/-- The counts of one of the two ways to point, with the limits they were checked against. -/
def Gem.position (ask : Ask) (flip : Bool) : Option (Limits × Candidate) :=
  match ask.start sky with
  | .error _ => none
  | .ok (pos, ls, tar_pos, hrz, lim) =>
    if flip then
      (g.candidate sky ask lim ls hrz (g.tf_ac sky ls tar_pos) (g.tf_dc tar_pos)
        (g.flippedPos sky pos)).map (lim, ·)
    else
      (g.candidate sky ask lim ls hrz (g.tn_ac sky ls tar_pos) (g.tn_dc tar_pos) pos).map (lim, ·)

/-- A success hands out counts inside the limits, with the flip of these counts; a failure
leaves the counts. -/
structure Answer.Lawful (ask : Ask) (ans : Answer) : Prop where
  inside : ans.ret = 0 →
    ans.limits.acMin ≤ ans.ac ∧ ans.ac ≤ ans.limits.acMax ∧
      ans.limits.dcMin ≤ ans.dc ∧ ans.dc ≤ ans.limits.dcMax
  flip : ans.ret = 0 → ∃ c, g.position sky ask ans.use_flipped = some (ans.limits, c) ∧
    (ans.ac, ans.dc) = (c.ac, c.dc)
  failed : ans.ret ≠ 0 → ans.ac = ask.ac ∧ ans.dc = ask.dc

/-- The correction of the model does not take an accepted flipped candidate over a limit. -/
def Gem.FlippedInside (ask : Ask) : Prop :=
  ∀ lim c, g.position sky ask true = some (lim, c) → c.ret = 0 → c.outside lim = false

/-! ## The defect, exactly -/

variable {g sky} {ask : Ask} {lim : Limits} {tar_pos : Equ} {n f c : Candidate}

theorem Candidate.inside_of_not_outside (h : c.outside lim = false) :
    lim.acMin ≤ c.ac ∧ c.ac ≤ lim.acMax ∧ lim.dcMin ≤ c.dc ∧ c.dc ≤ lim.dcMax := by
  simp only [Candidate.outside, Limits.outsideDc, Limits.outsideAc, Bool.or_eq_false_iff,
    decide_eq_false_iff_not, Int.not_lt] at h
  obtain ⟨⟨hdmin, hdmax⟩, hamin, hamax⟩ := h
  exact ⟨hamin, hamax, hdmin, hdmax⟩

/-- The division by zero does not depend on the point that is normalised. -/
theorem candidate_eq_none_iff {ls : ℚ} {hrz : Hrz} {t_ac t_dc : Int} {pos : Equ} :
    g.candidate sky ask lim ls hrz t_ac t_dc pos = none ↔ g.full_ac = 0 ∨ g.full_dc = 0 := by
  unfold Gem.candidate Gem.normalizeCountValues
  split
  · next hfull => simpa using hfull
  · next hfull =>
    simp only [hfull, iff_false]
    split
    · simp
    · split <;> simp

/-- What is handed out: a candidate that is accepted and inside the limits. -/
theorem decideFlip_cases (hf : f.ret = 0 → f.outside lim = false) :
    g.decideFlip ask lim tar_pos n f = ask.fail lim ∨
      (∃ path, g.decideFlip ask lim tar_pos n f = ask.handOut lim tar_pos n f (false, path) ∧
        n.ret = 0 ∧ n.outside lim = false) ∨
      (∃ path, g.decideFlip ask lim tar_pos n f = ask.handOut lim tar_pos n f (true, path) ∧
        f.ret = 0 ∧ f.outside lim = false) := by
  have hkept : ¬(f.ret = 0 ∧ f.outside lim = true) := fun h => by simp [hf h.1] at h
  unfold Gem.decideFlip
  simp only [if_neg hkept]
  by_cases hn : n.ret = 0 ∧ n.outside lim = true
  · simp only [if_pos hn]
    by_cases hfr : f.ret = 0
    · refine .inr (.inr ⟨ask.flip_longest_path, ?_, hfr, hf hfr⟩)
      simp [hfr]
    · exact .inl (by simp [hfr])
  · simp only [if_neg hn]
    by_cases hnr : n.ret = 0
    · have hin : n.outside lim = false := by simpa [hnr] using hn
      by_cases hfr : f.ret = 0
      · simp only [hnr, hfr]
        cases hchoice : g.chooseFlip ask lim n f with
        | mk flip path =>
          cases flip with
          | false => exact .inr (.inl ⟨path, by simp, trivial, hin⟩)
          | true => exact .inr (.inr ⟨path, by simp, trivial, hf hfr⟩)
      · exact .inr (.inl ⟨ask.flip_longest_path, by simp [hnr, hfr], hnr, hin⟩)
    · by_cases hfr : f.ret = 0
      · exact .inr (.inr ⟨ask.flip_longest_path, by simp [hnr, hfr], hfr, hf hfr⟩)
      · exact .inl (by simp [hnr, hfr])

theorem fail_lawful : (ask.fail lim).Lawful g sky ask where
  inside h := by simp [Ask.fail] at h
  flip h := by simp [Ask.fail] at h
  failed _ := ⟨rfl, rfl⟩

theorem handOut_lawful {flip : Bool} {path : Int}
    (hpos : g.position sky ask flip = some (lim, if flip then f else n))
    (hin : (if flip then f else n).outside lim = false) :
    (ask.handOut lim tar_pos n f (flip, path)).Lawful g sky ask := by
  have hinside := Candidate.inside_of_not_outside hin
  cases flip with
  | false => exact ⟨fun _ => hinside, fun _ => ⟨n, hpos, rfl⟩, fun h => absurd rfl h⟩
  | true => exact ⟨fun _ => hinside, fun _ => ⟨f, hpos, rfl⟩, fun h => absurd rfl h⟩

/-- What ends `sky2counts` before the candidates are looked at is a failure. -/
theorem start_error {ans : Answer} (h : ask.start sky = .error ans) : ∃ lim, ans = ask.fail lim := by
  unfold Ask.start at h
  split at h
  · dsimp only at h
    split at h
    · exact ⟨_, (Except.error.inj h).symm⟩
    · split at h
      · exact ⟨_, (Except.error.inj h).symm⟩
      · cases h
  · exact ⟨_, (Except.error.inj h).symm⟩

/-- A flipped candidate outside the limits is handed out whatever the non-flipped one is. -/
theorem decideFlip_outside (hret : f.ret = 0) (hout : f.outside lim = true) :
    g.decideFlip ask lim tar_pos n f =
      ask.handOut lim tar_pos n f (true, ask.flip_longest_path) := by
  simp [Gem.decideFlip, hret, hout]

/-- **The limits.** What `sky2counts` answers is lawful exactly when the correction of the
model leaves an accepted flipped candidate inside the limits. -/
theorem sky2counts_lawful_iff (g : Gem) (sky : Sky) (ask : Ask) :
    (∀ ans, g.sky2counts sky ask = some ans → ans.Lawful g sky ask) ↔
      g.FlippedInside sky ask := by
  cases hstart : ask.start sky with
  | error ans =>
    obtain ⟨lim, rfl⟩ := start_error hstart
    have hnone : g.position sky ask true = none := by simp [Gem.position, hstart]
    have hfail : g.sky2counts sky ask = some (ask.fail lim) := by simp [Gem.sky2counts, hstart]
    refine iff_of_true (fun ans h => ?_) (fun lim' c h => ?_)
    · rw [hfail] at h
      cases h
      exact fail_lawful
    · rw [hnone] at h
      cases h
  | ok t =>
    obtain ⟨pos, ls, tar_pos, hrz, lim⟩ := t
    cases hn : g.candidate sky ask lim ls hrz (g.tn_ac sky ls tar_pos) (g.tn_dc tar_pos) pos with
    | none =>
      -- no counts in a circle: the program ends before it answers
      have hf : g.candidate sky ask lim ls hrz (g.tf_ac sky ls tar_pos) (g.tf_dc tar_pos)
          (g.flippedPos sky pos) = none := candidate_eq_none_iff.mpr (candidate_eq_none_iff.mp hn)
      refine iff_of_true (fun ans h => ?_) (fun lim' c h => ?_)
      · simp [Gem.sky2counts, hstart, hn] at h
      · simp [Gem.position, hstart, hf] at h
    | some n =>
      cases hf : g.candidate sky ask lim ls hrz (g.tf_ac sky ls tar_pos) (g.tf_dc tar_pos)
          (g.flippedPos sky pos) with
      | none =>
        rw [candidate_eq_none_iff.mpr (candidate_eq_none_iff.mp hf)] at hn
        cases hn
      | some f =>
        have hpn : g.position sky ask false = some (lim, n) := by
          simp [Gem.position, hstart, hn]
        have hpf : g.position sky ask true = some (lim, f) := by
          simp [Gem.position, hstart, hf]
        have hans : g.sky2counts sky ask = some (g.decideFlip ask lim tar_pos n f) := by
          simp [Gem.sky2counts, hstart, hn, hf]
        constructor
        · intro hlaw lim' c hc hret
          rw [hpf] at hc
          cases hc
          by_contra hout
          rw [Bool.not_eq_false] at hout
          have hin := (hlaw _ hans).inside
          rw [decideFlip_outside hret hout] at hin
          obtain ⟨hamin, hamax, hdmin, hdmax⟩ := hin rfl
          simp only [Ask.handOut, if_true] at hamin hamax hdmin hdmax
          simp only [Candidate.outside, Limits.outsideDc, Limits.outsideAc, Bool.or_eq_true,
            decide_eq_true_eq] at hout
          omega
        · intro hflip ans h
          rw [hans] at h
          cases h
          rcases decideFlip_cases (hflip lim f hpf) with he | ⟨path, he, -, hin⟩ | ⟨path, he, -, hin⟩
          · rw [he]
            exact fail_lawful
          · rw [he]
            exact handOut_lawful (by simpa using hpn) (by simpa using hin)
          · rw [he]
            exact handOut_lawful (by simpa using hpf) (by simpa using hin)

end

/-! ### A mount at its target is sent over the limit -/

/-- A hundred counts a degree, half a turn to both sides. -/
def hundredGem : Gem :=
  { haZeroPos := 0, haZero := 0, decZero := 0, haCpd := 100, decCpd := 100, acMargin := 0,
    ra_ticks := 36000, telLatitude := 50, telLongitude := 15, flip_move_start := 0 }

/-- A model that lowers what is behind the pole by two degrees. -/
def sagSky : Sky :=
  { getLstDeg := fun _ _ => 0
    applyCorrections := fun pos _ _ => (pos, ⟨180, 45⟩)
    applyModel := fun pos _ _ _ _ => if 90 < |pos.dec| then ⟨0, -2⟩ else ⟨0, 0⟩
    updateLimits := fun lim => (0, lim)
    rangeDegrees := fun x => x - 360 * ⌊x / 360⌋
    hrzFromEqu := fun _ _ _ _ => ⟨180, 45⟩ }

/-- The mount stands where the non-flipped counts of the target are. -/
def askTarget : Ask :=
  { ra := some 350, dec := some 50, ac := 1000, dc := 5000, utc1 := 0, utc2 := 0,
    used_flipping := 0, writeValues := false, haMargin := 0,
    limits := ⟨-18000, 18000, -13000, 13000⟩, flip_longest_path := -1 }

theorem handed_out_over_the_limit :
    hundredGem.sky2counts sagSky askTarget =
        some ⟨0, -17000, 13200, true, askTarget.limits, -1, none⟩ ∧
      ¬ ∀ ans, hundredGem.sky2counts sagSky askTarget = some ans →
        ans.Lawful hundredGem sagSky askTarget := by
  have hans : hundredGem.sky2counts sagSky askTarget =
      some ⟨0, -17000, 13200, true, askTarget.limits, -1, none⟩ := by decide +kernel
  refine ⟨hans, fun hlaw => ?_⟩
  obtain ⟨-, -, -, hmax⟩ := (hlaw _ hans).inside rfl
  exact absurd hmax (by decide)

end Rts2.Teld
