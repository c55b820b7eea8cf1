import Rts2.Teld.Telescope

/-! # A move that is refused

`startResyncMove` computes the target of a move before it looks whether the telescope may
move: what waits is applied, the move is counted and the coordinates are published. Nothing of
that is taken back when the move is refused. -/
namespace Rts2.Teld
open Rts2.Values
open Rts2.Status
open LnRangeDegrees (lnRangeDegrees)

variable {K : Type} [Field K] [LinearOrder K]

/-! ## The target of a move -/

/-- A right ascension and a declination. -/
abbrev Coords (K : Type) : Type := Option K × Option K

def RaDec.coords {b : Bool} (v : RaDec K b) : Coords K := (v.ra, v.dec)

/-- What libnova and the limit of the corrections answer: a position brought from its epoch to
J2000, a position with the computed corrections for a proper motion, and whether two positions
are farther apart than the limit. -/
structure Heavens (K : Type) where
  precessed : K → Coords K → Coords K
  applyCorrections : Coords K → Coords K → Coords K
  aboveLimit : Coords K → Coords K → Bool

/-- The telescope with the coordinates that a move publishes. -/
structure Pointed (K : Type) where
  tel : Telescope K
  oriEpoch : K
  pmRaDec : RaDec K false
  gOffsRaDec : RaDec K true
  total_offsets : RaDec K true
  objRaDec : RaDec K false
  tarRaDec : RaDec K false
  telTargetRaDec : RaDec K false
  modelRaDec : RaDec K false

variable [LnRangeDegrees K]

namespace Telescope
variable (s : Telescope K) (a : Answers K)

/-- The target moves on an orbit. -/
def onOrbit : Bool := s.mpec.isSet || (!s.tle_freeze && s.tle_l1.isSet && s.tle_l2.isSet)

/-- The movement is blocked, the mount is parking or it could not be stopped. -/
def refuses : Bool :=
  s.blockMove || (s.parkingBlockMove && s.moving = telParking) ||
    ((s.moving = telMoving || s.correcting) && a.stopMove ≠ 0)

end Telescope

namespace Pointed
variable (s : Pointed K) (h : Heavens K) (a : Answers K)

/-- `setOri` of a computed position. -/
def computeTarget : Pointed K :=
  if s.tel.onOrbit then
    { s with
      tel := s.tel.computeTarget a
      oriEpoch := 2000
      pmRaDec := s.pmRaDec.setValueRaDec (some 0) (some 0) }
  else s

/-- `incMoveNum` of another target. -/
def countMove : Pointed K :=
  if s.tel.newTarget then
    { s with tel := s.tel.countMove, gOffsRaDec := .zero, modelRaDec := .zero }
  else s

/-- What waits is applied. -/
def applyWaiting : Pointed K := { s with tel := s.tel.applyCorrection.applyOffset }

/-- `Telescope::applyOffsets` -/
def applyOffsets (pos : Coords K) : Coords K :=
  let pos := if s.oriEpoch ≠ 2000 then h.precessed s.oriEpoch pos else pos
  (RaDec.plus pos.1 (RaDec.plus s.tel.offsRaDec.ra s.gOffsRaDec.ra),
    RaDec.plus pos.2 (RaDec.plus s.tel.offsRaDec.dec s.gOffsRaDec.dec))

/-- `Telescope::applyCorrRaDec`; a correction above the limit is ignored. -/
def applyCorrRaDec (pos : Coords K) : Coords K :=
  let decCoeff : K := if pos.2.any fun dec => 90 < |dec| then -1 else 1
  let pos2 : Coords K := ((RaDec.plus pos.1 s.tel.corrRaDec.ra).map lnRangeDegrees,
    RaDec.plus pos.2 (s.tel.corrRaDec.dec.map (decCoeff * ·)))
  if h.aboveLimit pos2 pos then pos else pos2

/-- The offsets without the corrections. -/
def totalOffsets : Coords K :=
  (RaDec.plus s.tel.offsRaDec.ra (s.tel.corrRaDec.ra.map (-·)),
    RaDec.plus s.tel.offsRaDec.dec (s.tel.corrRaDec.dec.map (-·)))

def object : Coords K :=
  let pos := s.applyOffsets h s.tel.oriRaDec.coords
  (pos.1.map lnRangeDegrees, pos.2)

def target : Coords K := h.applyCorrections s.pmRaDec.coords (s.object h)

def telTarget : Coords K := s.applyCorrRaDec h (s.target h)

/-- The coordinates of the target are published. -/
def aim : Pointed K :=
  { s with
    total_offsets := s.total_offsets.setValueRaDec s.totalOffsets.1 s.totalOffsets.2
    objRaDec := s.objRaDec.setValueRaDec (s.object h).1 (s.object h).2
    tarRaDec := s.tarRaDec.setValueRaDec (s.target h).1 (s.target h).2
    telTargetRaDec := s.telTargetRaDec.setValueRaDec (s.telTarget h).1 (s.telTarget h).2
    modelRaDec := s.modelRaDec.setValueRaDec (some 0) (some 0) }

/-- The checks of `startResyncMove`, once the target is known. -/
def checkedMove (correction : Int) : Int × Pointed K :=
  if s.tel.refuses a then (-1, s)
  else if !a.good || a.decViolated then
    (-1, { s with
      tel := s.tel.cannotMove
      objRaDec := s.objRaDec.setValueRaDec none none
      tarRaDec := s.tarRaDec.setValueRaDec none none })
  else
    let r := s.tel.launch correction a
    if r.1 = 0 then
      (0, { s with
        tel := r.2
        tarRaDec := s.tarRaDec.resetValueChanged
        telTargetRaDec := s.telTargetRaDec.resetValueChanged })
    else (r.1, { s with tel := r.2 })

/-- `Telescope::startResyncMove` -/
def startResyncMove (correction : Int) : Int × Pointed K :=
  let s := s.computeTarget a
  if s.tel.nullTarget then (-1, s)
  else (s.countMove.applyWaiting.aim h).checkedMove a correction

end Pointed

/-! ## The telescope underneath -/

/-- Only the coordinates of the target are computed. -/
theorem Telescope.computeTarget_eq (s : Telescope K) (a : Answers K) :
    ∃ ori, s.computeTarget a = { s with oriRaDec := ori } := by
  unfold Telescope.computeTarget
  by_cases hmpec : s.mpec.isSet = true
  · simp only [hmpec, if_true]
    split
    · exact ⟨_, rfl⟩
    · exact ⟨_, rfl⟩
  · simp only [hmpec, Bool.false_eq_true, if_false]
    split
    · exact ⟨_, rfl⟩
    · exact ⟨_, rfl⟩

theorem Telescope.computeTarget_of_fixed {s : Telescope K} {a : Answers K}
    (h : s.onOrbit = false) : s.computeTarget a = s := by
  unfold Telescope.onOrbit at h
  unfold Telescope.computeTarget
  simp only [Bool.or_eq_false_iff, Bool.and_eq_false_iff, Bool.not_eq_false'] at h
  simp only [h.1, Bool.false_eq_true, if_false]
  rw [if_neg]
  rintro ⟨hfreeze, h1, h2⟩
  simp [hfreeze, h1, h2] at h

omit [Field K] [LinearOrder K] [LnRangeDegrees K] in
theorem Telescope.refuses_iff (s : Telescope K) (a : Answers K) :
    s.refuses a = true ↔ s.blockMove = true ∨ (s.parkingBlockMove = true ∧ s.moving = telParking) ∨
      ((s.moving = telMoving ∨ s.correcting = true) ∧ a.stopMove ≠ 0) := by
  unfold Telescope.refuses
  simp only [Bool.or_eq_true, Bool.and_eq_true, decide_eq_true_eq, or_assoc]

theorem Telescope.checkedMove_eq (s : Telescope K) (a : Answers K) (correction : Int) :
    s.checkedMove correction a =
      if s.refuses a then (-1, s)
      else if !a.good || a.decViolated then (-1, s.cannotMove)
      else s.launch correction a := by
  unfold Telescope.checkedMove
  by_cases hrefuses : s.refuses a = true
  · rw [if_pos hrefuses]
    rcases (s.refuses_iff a).mp hrefuses with hblock | hpark | hstop
    · rw [if_pos hblock]
    · rw [if_pos hpark, ite_self]
    · rw [if_pos hstop, ite_self, ite_self]
  · rw [if_neg hrefuses]
    rw [s.refuses_iff a, not_or, not_or] at hrefuses
    rw [if_neg hrefuses.1, if_neg hrefuses.2.1, if_neg hrefuses.2.2]
    cases a.good <;> cases a.decViolated <;> rfl

namespace Pointed
variable (s : Pointed K) (h : Heavens K) (a : Answers K)

theorem computeTarget_tel : (s.computeTarget a).tel = s.tel.computeTarget a := by
  unfold Pointed.computeTarget
  split
  · rfl
  · rename_i horbit
    exact (Telescope.computeTarget_of_fixed (Bool.not_eq_true _ ▸ horbit)).symm

omit [LinearOrder K] [LnRangeDegrees K] in
theorem countMove_tel : s.countMove.tel = s.tel.countMove := by
  unfold Pointed.countMove Telescope.countMove
  split <;> rfl

theorem checkedMove_fst (correction : Int) :
    (s.checkedMove a correction).1 = (s.tel.checkedMove correction a).1 := by
  unfold Pointed.checkedMove
  rw [Telescope.checkedMove_eq]
  split
  · rfl
  · split
    · rfl
    · simp only
      split
      · rename_i hzero
        exact hzero.symm
      · rfl

theorem checkedMove_tel (correction : Int) :
    (s.checkedMove a correction).2.tel = (s.tel.checkedMove correction a).2 := by
  unfold Pointed.checkedMove
  rw [Telescope.checkedMove_eq]
  split
  · rfl
  · split
    · rfl
    · simp only
      split <;> rfl

/-- The coordinates do not change what the telescope does. -/
theorem startResyncMove_tel (correction : Int) :
    (s.startResyncMove h a correction).1 = (s.tel.startResyncMove correction a).1 ∧
      (s.startResyncMove h a correction).2.tel = (s.tel.startResyncMove correction a).2 := by
  unfold Pointed.startResyncMove Telescope.startResyncMove
  simp only [computeTarget_tel]
  split
  · exact ⟨rfl, computeTarget_tel s a⟩
  · have haim : ((s.computeTarget a).countMove.applyWaiting.aim h).tel =
        (s.tel.computeTarget a).countMove.applyCorrection.applyOffset := by
      rw [← computeTarget_tel, ← countMove_tel]
      rfl
    rw [← haim]
    exact ⟨checkedMove_fst _ a correction, checkedMove_tel _ a correction⟩

end Pointed

/-! ## What a refused move leaves -/

/-- What later tracking uses and clients are told: the offsets and corrections in force, the
image and the observation they are from, the number of the move, and the coordinates. -/
structure Pointing (K : Type) where
  offs : Coords K
  corr : Coords K
  gOffs : Coords K
  total : Coords K
  corrImgId : Int
  corrObsId : Int
  moveNum : Int
  obj : Coords K
  tar : Coords K
  telTarget : Coords K
  deriving DecidableEq

/-- The coordinates as a value keeps them. -/
def Coords.kept (b : Bool) (c : Coords K) : Coords K :=
  (c.1.map (stored b), c.2.map (stored b))

namespace Pointed

def pointing (s : Pointed K) : Pointing K where
  offs := s.tel.offsRaDec.coords
  corr := s.tel.corrRaDec.coords
  gOffs := s.gOffsRaDec.coords
  total := s.total_offsets.coords
  corrImgId := s.tel.corrImgId
  corrObsId := s.tel.corrObsId
  moveNum := s.tel.moveNum
  obj := s.objRaDec.coords
  tar := s.tarRaDec.coords
  telTarget := s.telTargetRaDec.coords

variable (s : Pointed K) (h : Heavens K) (a : Answers K)

/-- A move has nothing new to publish: the target is counted, what waits is what is in force,
and the coordinates are those of the target. -/
structure UpToDate : Prop where
  counted : s.tel.newTarget = false
  correction : s.tel.wcorrRaDec.changed = true →
    (s.tel.corrRaDec.incValueRaDec s.tel.wcorrRaDec.ra s.tel.wcorrRaDec.dec).coords =
        s.tel.corrRaDec.coords ∧
      s.tel.wCorrImgId = s.tel.corrImgId ∧ s.tel.wCorrObsId = s.tel.corrObsId
  offset : s.tel.woffsRaDec.changed = true →
    Coords.kept true s.tel.woffsRaDec.coords = s.tel.offsRaDec.coords
  total : s.total_offsets.coords = Coords.kept true s.totalOffsets
  obj : s.objRaDec.coords = Coords.kept false (s.object h)
  tar : s.tarRaDec.coords = Coords.kept false (s.target h)
  telTarget : s.telTargetRaDec.coords = Coords.kept false (s.telTarget h)

/-- What is applied: the offset, and the correction with its image and observation. -/
theorem applyWaiting_tel : s.applyWaiting.tel =
    { s.tel with
      offsRaDec := if s.tel.woffsRaDec.changed then
          s.tel.offsRaDec.setValueRaDec s.tel.woffsRaDec.ra s.tel.woffsRaDec.dec
        else s.tel.offsRaDec
      corrRaDec := if s.tel.wcorrRaDec.changed then
          s.tel.corrRaDec.incValueRaDec s.tel.wcorrRaDec.ra s.tel.wcorrRaDec.dec
        else s.tel.corrRaDec
      corrImgId := if s.tel.wcorrRaDec.changed then s.tel.wCorrImgId else s.tel.corrImgId
      corrObsId := if s.tel.wcorrRaDec.changed then s.tel.wCorrObsId else s.tel.corrObsId } := by
  unfold Pointed.applyWaiting Telescope.applyOffset Telescope.applyCorrection
  by_cases hcorr : s.tel.wcorrRaDec.changed = true
  · simp only [hcorr, if_true]
    split <;> rfl
  · simp only [hcorr, Bool.false_eq_true, if_false]
    split <;> rfl

/-- The coordinates depend on the offsets and corrections in force only. -/
theorem aim_congr {s t : Pointed K} (h : Heavens K)
    (hoffs : s.tel.offsRaDec.coords = t.tel.offsRaDec.coords)
    (hcorr : s.tel.corrRaDec.coords = t.tel.corrRaDec.coords)
    (hori : s.tel.oriRaDec = t.tel.oriRaDec) (hgOffs : s.gOffsRaDec = t.gOffsRaDec)
    (hepoch : s.oriEpoch = t.oriEpoch) (hpm : s.pmRaDec = t.pmRaDec) :
    s.totalOffsets = t.totalOffsets ∧ s.object h = t.object h ∧ s.target h = t.target h ∧
      s.telTarget h = t.telTarget h := by
  obtain ⟨hoffsRa, hoffsDec⟩ := Prod.mk.inj hoffs
  obtain ⟨hcorrRa, hcorrDec⟩ := Prod.mk.inj hcorr
  have hobject : s.object h = t.object h := by
    simp only [Pointed.object, Pointed.applyOffsets, hoffsRa, hoffsDec, hori, hgOffs, hepoch]
  have htarget : s.target h = t.target h := by
    simp only [Pointed.target, hobject, hpm]
  refine ⟨?_, hobject, htarget, ?_⟩
  · simp only [Pointed.totalOffsets, hoffsRa, hoffsDec, hcorrRa, hcorrDec]
  · simp only [Pointed.telTarget, Pointed.applyCorrRaDec, htarget, hcorrRa, hcorrDec]

/-- The pointing after the target of a counted move is computed. -/
theorem pointing_aim : (s.applyWaiting.aim h).pointing =
    { offs := s.applyWaiting.tel.offsRaDec.coords
      corr := s.applyWaiting.tel.corrRaDec.coords
      gOffs := s.gOffsRaDec.coords
      total := Coords.kept true s.applyWaiting.totalOffsets
      corrImgId := s.applyWaiting.tel.corrImgId
      corrObsId := s.applyWaiting.tel.corrObsId
      moveNum := s.tel.moveNum
      obj := Coords.kept false (s.applyWaiting.object h)
      tar := Coords.kept false (s.applyWaiting.target h)
      telTarget := Coords.kept false (s.applyWaiting.telTarget h) } := by
  have hnum : s.applyWaiting.tel.moveNum = s.tel.moveNum := by rw [applyWaiting_tel]
  rw [← hnum]
  rfl

theorem pointing_aim_iff (hcounted : s.tel.newTarget = false) :
    (s.applyWaiting.aim h).pointing = s.pointing ↔ s.UpToDate h := by
  have hsame (hoffs : s.applyWaiting.tel.offsRaDec.coords = s.tel.offsRaDec.coords)
      (hcorr : s.applyWaiting.tel.corrRaDec.coords = s.tel.corrRaDec.coords) :=
    aim_congr h hoffs hcorr (by rw [applyWaiting_tel]) rfl rfl rfl
  rw [pointing_aim, Pointed.pointing, Pointing.mk.injEq]
  constructor
  · rintro ⟨hoffs, hcorr, -, htotal, himg, hobs, -, hobj, htar, htel⟩
    obtain ⟨e1, e2, e3, e4⟩ := hsame hoffs hcorr
    rw [applyWaiting_tel] at hoffs hcorr himg hobs
    simp only at hoffs hcorr himg hobs
    refine ⟨hcounted, fun hw => ?_, fun hw => ?_, ?_, ?_, ?_, ?_⟩
    · rw [if_pos hw] at hcorr himg hobs
      exact ⟨hcorr, himg, hobs⟩
    · rw [if_pos hw] at hoffs
      exact hoffs
    · rw [← htotal, e1]
    · rw [← hobj, e2]
    · rw [← htar, e3]
    · rw [← htel, e4]
  · rintro ⟨-, hcorr, hoffs, htotal, hobj, htar, htel⟩
    have hoffs' : s.applyWaiting.tel.offsRaDec.coords = s.tel.offsRaDec.coords := by
      rw [applyWaiting_tel]
      simp only
      split
      · rename_i hw
        exact hoffs hw
      · rfl
    have hcorr' : s.applyWaiting.tel.corrRaDec.coords = s.tel.corrRaDec.coords := by
      rw [applyWaiting_tel]
      simp only
      split
      · rename_i hw
        exact (hcorr hw).1
      · rfl
    obtain ⟨e1, e2, e3, e4⟩ := hsame hoffs' hcorr'
    refine ⟨hoffs', hcorr', rfl, ?_, ?_, ?_, rfl, ?_, ?_, ?_⟩
    · rw [htotal, e1]
    · rw [applyWaiting_tel]
      simp only
      split
      · rename_i hw
        exact (hcorr hw).2.1
      · rfl
    · rw [applyWaiting_tel]
      simp only
      split
      · rename_i hw
        exact (hcorr hw).2.2
      · rfl
    · rw [hobj, e2]
    · rw [htar, e3]
    · rw [htel, e4]

theorem refuses_computeTarget : (s.tel.computeTarget a).refuses a = s.tel.refuses a := by
  obtain ⟨ori, hori⟩ := s.tel.computeTarget_eq a
  rw [hori]
  rfl

omit [LinearOrder K] [LnRangeDegrees K] in
theorem refuses_countMove : s.countMove.tel.refuses a = s.tel.refuses a := by
  unfold Pointed.countMove
  split
  · unfold Telescope.countMove
    split <;> rfl
  · rfl

theorem refuses_aim : (s.applyWaiting.aim h).tel.refuses a = s.tel.refuses a := by
  have htel : (s.applyWaiting.aim h).tel = s.applyWaiting.tel := rfl
  rw [htel, applyWaiting_tel]
  rfl

/-- A refused move keeps what was prepared. -/
theorem startResyncMove_refused (correction : Int)
    (hobject : (s.tel.computeTarget a).nullTarget = false)
    (hrefuses : s.tel.refuses a = true) :
    s.startResyncMove h a correction =
      (-1, (s.computeTarget a).countMove.applyWaiting.aim h) := by
  have href : ((s.computeTarget a).countMove.applyWaiting.aim h).tel.refuses a = true := by
    rw [refuses_aim, refuses_countMove, computeTarget_tel, refuses_computeTarget, hrefuses]
  unfold Pointed.startResyncMove
  simp only [computeTarget_tel, hobject, Bool.false_eq_true, if_false]
  unfold Pointed.checkedMove
  rw [if_pos href]

theorem pointing_computeTarget : (s.computeTarget a).pointing = s.pointing := by
  unfold Pointed.computeTarget
  split
  · obtain ⟨ori, hori⟩ := s.tel.computeTarget_eq a
    simp only [hori]
    rfl
  · rfl

theorem moveNum_of_newTarget (hnew : s.tel.newTarget = true) :
    (s.countMove.applyWaiting.aim h).pointing.moveNum = s.pointing.moveNum + 1 := by
  rw [pointing_aim]
  unfold Pointed.countMove
  rw [if_pos hnew]
  unfold Telescope.countMove
  rw [if_pos hnew]
  rfl

/-- **Refused moves**: a move that is refused because the movement is blocked, the mount is
parking or it could not be stopped leaves the pointing as it was if and only if there was
nothing to publish. -/
theorem startResyncMove_refused_iff (correction : Int)
    (hobject : (s.tel.computeTarget a).nullTarget = false)
    (hrefuses : s.tel.refuses a = true) :
    (s.startResyncMove h a correction).1 = -1 ∧
      ((s.startResyncMove h a correction).2.pointing = s.pointing ↔
        (s.computeTarget a).UpToDate h) := by
  rw [startResyncMove_refused s h a correction hobject hrefuses]
  refine ⟨rfl, ?_⟩
  rw [← pointing_computeTarget s a]
  by_cases hnew : (s.computeTarget a).tel.newTarget = true
  · constructor
    · intro hsame
      have hnum := moveNum_of_newTarget (s.computeTarget a) h hnew
      rw [hsame] at hnum
      omega
    · intro hdate
      rw [hdate.counted] at hnew
      cases hnew
  · have hcounted : (s.computeTarget a).tel.newTarget = false := by
      simpa only [Bool.not_eq_true] using hnew
    have hcount : (s.computeTarget a).countMove = s.computeTarget a := by
      unfold Pointed.countMove
      rw [if_neg hnew]
    rw [hcount]
    exact pointing_aim_iff _ h hcounted

/-- A sky without precession, aberration and refraction, and no limit of the corrections. -/
def plainHeavens : Heavens ℚ where
  precessed := fun _ pos => pos
  applyCorrections := fun _ pos => pos
  aboveLimit := fun _ _ => false

/-- A blocked telescope that points to its target. -/
def blockedTelescope (wcorrRaDec : RaDec ℚ true) (wCorrImgId : Int) : Pointed ℚ where
  tel := { Telescope.newTelescope true none with
    oriRaDec := ⟨some 10, some 20, false⟩
    moveNum := 1
    wcorrRaDec := wcorrRaDec
    wCorrImgId := wCorrImgId }
  oriEpoch := 2000
  pmRaDec := .zero
  gOffsRaDec := .zero
  total_offsets := .zero
  objRaDec := ⟨some 10, some 20, false⟩
  tarRaDec := ⟨some 10, some 20, false⟩
  telTargetRaDec := ⟨some 10, some 20, false⟩
  modelRaDec := .zero

/-- Nothing waits, and nothing changes. -/
theorem startResyncMove_refused_iff_blocked :
    ((blockedTelescope .zero 0).startResyncMove plainHeavens Telescope.fairAnswers 0).2.pointing =
      (blockedTelescope .zero 0).pointing :=
  (startResyncMove_refused_iff _ _ _ _ (by decide +kernel) (by decide +kernel)).2.mpr
    ⟨by decide +kernel, fun h => absurd h (by decide +kernel), fun h => absurd h (by decide +kernel),
      by decide +kernel, by decide +kernel, by decide +kernel, by decide +kernel⟩

/-- A correction of one degree waits: every refused move adds it again. -/
theorem refused_correction :
    (blockedTelescope ⟨some 1, some 0, true⟩ 7).tel.blockMove = true ∧
    ((blockedTelescope ⟨some 1, some 0, true⟩ 7).startResyncMove plainHeavens
      Telescope.fairAnswers 0).1 = -1 ∧
    ((blockedTelescope ⟨some 1, some 0, true⟩ 7).startResyncMove plainHeavens
      Telescope.fairAnswers 0).2.pointing ≠
        (blockedTelescope ⟨some 1, some 0, true⟩ 7).pointing ∧
    (blockedTelescope ⟨some 1, some 0, true⟩ 7).pointing.corr = (some 0, some 0) ∧
    ((blockedTelescope ⟨some 1, some 0, true⟩ 7).startResyncMove plainHeavens
      Telescope.fairAnswers 0).2.pointing.corr = (some 1, some 0) ∧
    (((blockedTelescope ⟨some 1, some 0, true⟩ 7).startResyncMove plainHeavens
      Telescope.fairAnswers 0).2.startResyncMove plainHeavens
      Telescope.fairAnswers 0).2.pointing.corr = (some 2, some 0) := by
  decide +kernel

end Pointed

end Rts2.Teld
