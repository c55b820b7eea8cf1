import Rts2.Lib.Run
import Rts2.Teld.Telescope

/-! # Corrections of the telescope

A correction waits until a move carries it out. The ledger is kept from what was
answered and from the moves that were made. -/
namespace Rts2.Teld
open Rts2.Lib
open Rts2.MasterState (ConnId)
open Rts2.Status
open Rts2.Values

/-! ## The ledger -/

variable {K : Type}

/-- A correction in right ascension and declination. -/
abbrev Correction (K : Type) : Type := Option K × Option K

/-- The correction that waits, and those that were carried out. -/
structure Ledger (K : Type) where
  pending : Option (Correction K)
  carried : List (Correction K)

section
variable [Field K]

namespace Ledger

/-- What a move would carry out. -/
def next (l : Ledger K) : Correction K := l.pending.getD (some 0, some 0)

/-- A later correction takes the place of one that waits; a move carries out the one that
waits; a reset forgets them all. -/
def step (l : Ledger K) : CorrEvent K → Ledger K
  | .accepted ra dec => { l with pending := some (ra, dec) }
  | .carried => ⟨none, l.carried ++ [l.next]⟩
  | .reset => ⟨none, []⟩

/-- The sum of one coordinate. -/
def sum (l : Ledger K) (coordinate : Correction K → Option K) : Option K :=
  l.carried.foldl (fun t c => RaDec.plus t (coordinate c)) (some 0)

theorem sum_carried (l : Ledger K) (coordinate : Correction K → Option K) :
    (l.step .carried).sum coordinate = RaDec.plus (l.sum coordinate) (coordinate l.next) := by
  simp [sum, step, List.foldl_append]

end Ledger

/-- The ledger of what happened. -/
def ledger (history : List (CorrEvent K)) : Ledger K := history.foldl Ledger.step ⟨none, []⟩

theorem ledger_append (history : List (CorrEvent K)) (e : CorrEvent K) :
    ledger (history ++ [e]) = (ledger history).step e := by
  simp [ledger, List.foldl_append]

end

/-! ## What leaves the corrections -/

namespace Telescope
variable {s s' s'' : Telescope K}

/-- The corrections and the ledger stay. -/
structure Keeps (s s' : Telescope K) : Prop where
  ra : s'.corrRaDec.ra = s.corrRaDec.ra
  dec : s'.corrRaDec.dec = s.corrRaDec.dec
  wcorr : s'.wcorrRaDec = s.wcorrRaDec
  history : s'.history = s.history

theorem Keeps.of_eq (hcorr : s'.corrRaDec = s.corrRaDec) (hwcorr : s'.wcorrRaDec = s.wcorrRaDec)
    (hhistory : s'.history = s.history) : Keeps s s' :=
  ⟨congrArg RaDec.ra hcorr, congrArg RaDec.dec hcorr, hwcorr, hhistory⟩

theorem Keeps.refl (s : Telescope K) : Keeps s s := .of_eq rfl rfl rfl

theorem Keeps.trans (h : Keeps s s') (h' : Keeps s' s'') : Keeps s s'' :=
  ⟨h'.ra.trans h.ra, h'.dec.trans h.dec, h'.wcorr.trans h.wcorr, h'.history.trans h.history⟩

theorem keeps_setTracking (track : Int) (stopMsg : Bool) : Keeps s (s.setTracking track stopMsg) := by
  unfold setTracking
  split
  · exact .refl s
  · split
    · exact .of_eq rfl rfl rfl
    · split <;> exact .of_eq rfl rfl rfl

theorem keeps_startTracking (check : Bool) : Keeps s (s.startTracking check) := by
  unfold startTracking
  split
  · exact .refl s
  · exact keeps_setTracking _ _

theorem keeps_startState (correction : Int) : Keeps s (s.startState correction) := by
  unfold startState
  split
  · exact .of_eq rfl rfl rfl
  · split <;> exact .of_eq rfl rfl rfl

end Telescope

/-! ## Degrees -/

variable [Field K] [LinearOrder K] [IsStrictOrderedRing K] [LnRangeDegrees K]

/-- Turns do not matter in a sum. -/
theorem degDist_add (x y : K) : degDist (degDist x + degDist y) = degDist (x + y) := by
  obtain ⟨hl, hu⟩ := degDist_bounds (x + y)
  obtain ⟨a, ha⟩ := degDist_turns x
  obtain ⟨b, hb⟩ := degDist_turns y
  obtain ⟨n, hn⟩ := degDist_turns (x + y)
  refine degDist_unique (n := n - a - b) hl hu ?_
  rw [hn, ha, hb]
  push_cast
  ring

theorem degDist_zero : degDist (0 : K) = 0 := by
  rw [degDist_eq_self_iff]
  constructor <;> norm_num

theorem plus_map_degDist (x y : Option K) :
    (RaDec.plus (x.map degDist) (y.map degDist)).map degDist =
      (RaDec.plus x y).map degDist := by
  cases x with
  | none => rfl
  | some x =>
    cases y with
    | none => rfl
    | some y => exact congrArg some (degDist_add x y)

/-- A coordinate between -180 and 180 degrees, and a zero. -/
theorem plus_zero_degDist (x : Option K) :
    (RaDec.plus (x.map degDist) (some 0)).map degDist = x.map degDist := by
  have hzero : (some 0 : Option K) = (some 0).map degDist := congrArg some degDist_zero.symm
  rw [hzero, plus_map_degDist]
  cases x with
  | none => rfl
  | some x => exact congrArg (fun y => some (degDist y)) (add_zero x)

namespace Telescope
variable {s s' : Telescope K} {a : Answers K}

/-! ## What is carried out once -/

/-- The checks of a move and the driver let it through. -/
def carriesOut (s : Telescope K) (a : Answers K) : Bool :=
  s.blockMove = false ∧ ¬(s.parkingBlockMove = true ∧ s.moving = telParking) ∧
    ¬((s.moving = telMoving ∨ s.correcting = true) ∧ a.stopMove ≠ 0) ∧
    a.good = true ∧ a.decViolated = false ∧ a.startResync = 0

/-- A move to the same object, with a correction waiting that is not zero, is carried out. -/
def MoveOk (s : Telescope K) (a : Answers K) : Prop :=
  (s.computeTarget a).nullTarget = false → (s.computeTarget a).newTarget = false →
    s.wcorrRaDec.changed = true → (s.wcorrRaDec.ra ≠ some 0 ∨ s.wcorrRaDec.dec ≠ some 0) →
    s.carriesOut a = true

/-- The state in which a step tries to move. -/
def attempt (s : Telescope K) : Op K × Answers K → Option (Telescope K)
  | (.fullBopState new_state, _) =>
    if s.isWaiting ∧ new_state &&& bopTelMove = 0 then some s else none
  | (.move ra dec, _) => some ((s.setOri ra dec).resetMpecTLE.startTracking true)
  | (.moveMpec str ok, _) =>
    if ok then
      some (startTracking { s with
        mpec := s.mpec.setValueString str
        tle_l1 := s.tle_l1.setValueString []
        tle_l2 := s.tle_l2.setValueString [] } true)
    else none
  | (.moveTle l1 l2 ok, _) => if ok then some ((s.setTLE l1 l2).startTracking true) else none
  | (.altAz target, _) =>
    target.map fun t => (s.resetMpecTLE.stopTracking true).setOri (some t.1) (some t.2)
  | (.resync ra dec, _) => some (s.setOri ra dec).resetMpecTLE
  | (.change ra dec, _) => some (s.changeOffset ra dec)
  | (.setOri ra dec, _) =>
    if s.oriRaDec.isEqual ra dec then none
    else some { s.setOri ra dec with mpec := s.mpec.setValueString [] }
  | (.setMpec str ok, _) =>
    if s.mpec.text ≠ str ∧ ok then some { s with mpec := s.mpec.setValueString str } else none
  | (.setOffs ra dec, _) =>
    if s.offsRaDec.isEqual ra dec then none
    else some { s with offsRaDec := s.offsRaDec.setValueRaDec ra dec }
  | (.setTarAltAz target, _) => target.map fun t => s.setOri (some t.1) (some t.2)
  | (.idle, a) =>
    if s.moving = telMoving ∧ a.isMoving = -2 ∧ a.endMove = 0 ∧
        (s.startTracking false).isWaiting then
      some (s.startTracking false)
    else none
  | _ => none

/-- A correction that is not answered with `DEVDEM_OK` does not wait: the driver does not take
it over, and it is not between the limits of `ignore_correction` and `small_correction`, but
for one that waits already. -/
def AnswerOk (s : Telescope K) (c : Correct K) : Prop :=
  c.fixed ≠ 0 ∧
  (s.upToDate c = true → less c.pos_err s.ignoreCorrection = false →
    less c.pos_err s.smallCorrection = true →
    s.wcorrRaDec.isEqual (c.total_cor_ra.map degDist) (c.total_cor_dec.map degDist) = true)

/-- What keeps the sum. -/
def CorrOk (s : Telescope K) (i : Op K × Answers K) : Prop :=
  (∀ s', s.attempt i = some s' → s'.MoveOk i.2) ∧
  match i.1 with
  | .correct c => s.AnswerOk c
  | _ => True

/-! ## The corrections and the ledger -/

/-- The correction is the sum of the ledger, and what waits is its next correction. -/
structure Books (s : Telescope K) : Prop where
  ra : s.corrRaDec.ra = ((ledger s.history).sum Prod.fst).map degDist
  dec : s.corrRaDec.dec = ((ledger s.history).sum Prod.snd).map degDist
  nextRa : s.wcorrRaDec.ra = (ledger s.history).next.1.map degDist
  nextDec : s.wcorrRaDec.dec = (ledger s.history).next.2.map degDist
  waits : s.wcorrRaDec.changed = false → s.wcorrRaDec.ra = some 0 ∧ s.wcorrRaDec.dec = some 0

omit [IsStrictOrderedRing K] in
theorem Books.keeps (h : Books s) (hk : Keeps s s') : Books s' := by
  obtain ⟨hra, hdec, hwcorr, hhistory⟩ := hk
  exact ⟨by rw [hra, hhistory, h.ra], by rw [hdec, hhistory, h.dec],
    by rw [hwcorr, hhistory, h.nextRa], by rw [hwcorr, hhistory, h.nextDec],
    by rw [hwcorr]; exact h.waits⟩

omit [IsStrictOrderedRing K] in
theorem keeps_computeTarget : Keeps s (s.computeTarget a) := by
  unfold computeTarget
  dsimp only
  split <;> split <;> exact .of_eq rfl rfl rfl

omit [IsStrictOrderedRing K] in
theorem keeps_cannotMove : Keeps s s.cannotMove := by
  have hstop := keeps_setTracking (s := s.setOri none none) 0 false
  exact ⟨hstop.ra, hstop.dec, hstop.wcorr, hstop.history⟩

/-! ## Moves -/

omit [IsStrictOrderedRing K] in
/-- A move that is carried out. -/
theorem checkedMove_carried (correction : Int) (h : s.carriesOut a = true) :
    ∃ t, Keeps s t ∧ (s.checkedMove correction a).2 = t.started := by
  simp only [carriesOut, decide_eq_true_eq] at h
  obtain ⟨hblock, hparking, hstop, hgood, hdec, hresync⟩ := h
  have hlaunch : (s.checkedMove correction a).2 =
      ((s.startState correction).issue .startResync).started := by
    simp only [checkedMove, hblock, if_neg hparking, if_neg hstop, hgood, hdec, launch, hresync]
    rfl
  refine ⟨(s.startState correction).issue .startResync, ?_, hlaunch⟩
  exact (keeps_startState correction).trans (.of_eq rfl rfl rfl)

omit [IsStrictOrderedRing K] in
/-- A move that is refused, or fails. -/
theorem checkedMove_failed (correction : Int) (h : s.carriesOut a = false) :
    Keeps s (s.checkedMove correction a).2 := by
  unfold checkedMove
  split
  · exact .refl s
  · rename_i hblock
    split
    · exact .refl s
    · rename_i hparking
      split
      · exact .refl s
      · rename_i hstop
        split
        · exact keeps_cannotMove
        · rename_i hgood
          split
          · exact keeps_cannotMove
          · rename_i hdec
            unfold launch
            dsimp only
            split
            · have hissue : Keeps s ((s.startState correction).issue .startResync) :=
                (keeps_startState correction).trans (.of_eq rfl rfl rfl)
              have hstopped := hissue.trans (keeps_setTracking 0 false)
              exact hstopped.trans (.of_eq rfl rfl rfl)
            · rename_i hresync
              simp only [carriesOut, decide_eq_false_iff_not] at h
              refine absurd ⟨?_, hparking, hstop, ?_, ?_, ?_⟩ h
              · simpa using hblock
              · simpa using hgood
              · simpa using hdec
              · simpa using hresync

/-- The correction that waits is added, also when it is zero. -/
theorem Books.applied (h : Books s) :
    s.applyCorrection.applyOffset.corrRaDec.ra =
      (RaDec.plus s.corrRaDec.ra s.wcorrRaDec.ra).map degDist ∧
    s.applyCorrection.applyOffset.corrRaDec.dec =
      (RaDec.plus s.corrRaDec.dec s.wcorrRaDec.dec).map degDist ∧
    s.applyCorrection.applyOffset.wcorrRaDec = s.wcorrRaDec ∧
    s.applyCorrection.applyOffset.history = s.history ∧
    s.applyCorrection.applyOffset.carriesOut a = s.carriesOut a := by
  have hoffset : ∀ t : Telescope K, t.applyOffset.corrRaDec = t.corrRaDec ∧
      t.applyOffset.wcorrRaDec = t.wcorrRaDec ∧ t.applyOffset.history = t.history ∧
      t.applyOffset.carriesOut a = t.carriesOut a := by
    intro t
    unfold applyOffset
    split <;> exact ⟨rfl, rfl, rfl, rfl⟩
  obtain ⟨hcorr, hwcorr, hhistory, hcarries⟩ := hoffset s.applyCorrection
  rw [hcorr, hwcorr, hhistory, hcarries]
  unfold applyCorrection
  split
  · exact ⟨rfl, rfl, rfl, rfl, rfl⟩
  · rename_i hchanged
    obtain ⟨hra, hdec⟩ := h.waits (Bool.not_eq_true _ ▸ hchanged)
    rw [hra, hdec, h.ra, h.dec, plus_zero_degDist, plus_zero_degDist]
    exact ⟨rfl, rfl, rfl, rfl, rfl⟩

/-- What waits is carried out, or is zero: the ledger has it once. -/
theorem Books.carry {correction : Int} (h : Books s)
    (hcarry : s.wcorrRaDec.changed = true →
      (s.wcorrRaDec.ra ≠ some 0 ∨ s.wcorrRaDec.dec ≠ some 0) → s.carriesOut a = true) :
    Books (s.applyCorrection.applyOffset.checkedMove correction a).2 := by
  obtain ⟨hra, hdec, hwcorr, hhistory, hcarries⟩ := h.applied (a := a)
  cases hout : s.carriesOut a with
  | true =>
    obtain ⟨t, hkeeps, hstarted⟩ := checkedMove_carried correction (hcarries.trans hout)
    have htw : t.wcorrRaDec = s.wcorrRaDec := hkeeps.wcorr.trans hwcorr
    have hth : t.history = s.history := hkeeps.history.trans hhistory
    rw [hstarted]
    have hnew : ledger t.started.history = (ledger s.history).step .carried := by
      rw [← ledger_append, ← hth]
      rfl
    have hnext : t.started.wcorrRaDec.ra = some 0 ∧ t.started.wcorrRaDec.dec = some 0 := by
      unfold started
      dsimp only
      split
      · exact ⟨rfl, rfl⟩
      · rename_i hchanged
        rw [htw] at hchanged ⊢
        exact h.waits (Bool.not_eq_true _ ▸ hchanged)
    have hzero : (some 0 : Option K) = (some (0 : K)).map degDist :=
      congrArg some degDist_zero.symm
    refine ⟨?_, ?_, ?_, ?_, fun _ => hnext⟩
    · rw [hnew, Ledger.sum_carried, ← plus_map_degDist, ← h.ra, ← h.nextRa, ← hra]
      exact hkeeps.ra
    · rw [hnew, Ledger.sum_carried, ← plus_map_degDist, ← h.dec, ← h.nextDec, ← hdec]
      exact hkeeps.dec
    · rw [hnew, hnext.1]
      exact hzero
    · rw [hnew, hnext.2]
      exact hzero
  | false =>
    have hkeeps := checkedMove_failed correction (hcarries.trans hout)
    have hw : s.wcorrRaDec.ra = some 0 ∧ s.wcorrRaDec.dec = some 0 := by
      by_contra hne
      cases hchanged : s.wcorrRaDec.changed with
      | false => exact hne (h.waits hchanged)
      | true =>
        have hcarried := hcarry hchanged (not_and_or.mp hne)
        rw [hout] at hcarried
        cases hcarried
    rw [hw.1, h.ra, plus_zero_degDist, ← h.ra] at hra
    rw [hw.2, h.dec, plus_zero_degDist, ← h.dec] at hdec
    exact h.keeps ⟨hkeeps.ra.trans hra, hkeeps.dec.trans hdec, hkeeps.wcorr.trans hwcorr,
      hkeeps.history.trans hhistory⟩

theorem books_incMoveNum : Books s.incMoveNum := by
  have hledger : ledger s.incMoveNum.history = ⟨none, []⟩ := by
    change ledger (s.history ++ [.reset]) = _
    rw [ledger_append]
    rfl
  have hzero : (some 0 : Option K) = (some (0 : K)).map degDist :=
    congrArg some degDist_zero.symm
  refine ⟨?_, ?_, ?_, ?_, fun _ => ⟨rfl, rfl⟩⟩ <;> rw [hledger] <;> exact hzero

theorem Books.startResyncMove {correction : Int} (h : Books s) (hok : s.MoveOk a) :
    Books (s.startResyncMove correction a).2 := by
  have htarget : Books (s.computeTarget a) := h.keeps keeps_computeTarget
  unfold Telescope.startResyncMove
  dsimp only
  split
  · exact htarget
  · rename_i hnull
    unfold countMove
    split
    · exact books_incMoveNum.carry fun hchanged => by cases hchanged
    · rename_i hnew
      refine htarget.carry fun hchanged hne => ?_
      have hcarries : (s.computeTarget a).carriesOut a = s.carriesOut a := by
        unfold computeTarget
        dsimp only
        split <;> split <;> rfl
      rw [keeps_computeTarget.wcorr] at hchanged hne
      rw [hcarries]
      exact hok (Bool.not_eq_true _ ▸ hnull) (Bool.not_eq_true _ ▸ hnew) hchanged hne

/-! ## Answers and other steps -/

theorem Books.moveAltAz {target : Option (K × K)} (h : Books s)
    (hok : ∀ t, target = some t → (s.setOri (some t.1) (some t.2)).MoveOk a) :
    Books (s.moveAltAz target a).2 := by
  unfold Telescope.moveAltAz
  split
  · exact h
  · rename_i ra dec
    have hset : Books (s.setOri (some ra) (some dec)) := h.keeps (.of_eq rfl rfl rfl)
    exact hset.startResyncMove (hok (ra, dec) rfl)

theorem Books.trackAndMove (h : Books s) (hok : (s.startTracking true).MoveOk a) :
    Books (s.trackAndMove a).2 := by
  have hmove : Books ((s.startTracking true).startResyncMove 0 a).2 :=
    (h.keeps (keeps_startTracking true)).startResyncMove hok
  unfold Telescope.trackAndMove
  dsimp only
  split
  · exact hmove.keeps (keeps_setTracking 0 true)
  · exact hmove

theorem Books.startPark (h : Books s) : Books (s.startPark a).2 := by
  have hbefore : Keeps s s.beforePark := .of_eq rfl rfl rfl
  unfold Telescope.startPark
  split
  · exact h
  · split
    · exact h
    · dsimp only
      split
      · exact h.keeps hbefore
      · have hstop := hbefore.trans (keeps_setTracking 0 true)
        split
        · exact h.keeps (hstop.trans (.of_eq rfl rfl rfl))
        · exact books_incMoveNum.keeps (.of_eq rfl rfl rfl)

omit [IsStrictOrderedRing K] in
/-- A value that is set to what it holds stays. -/
theorem setValueRaDec_equal {v : RaDec K true} {ra dec : Option K}
    (h : v.isEqual (ra.map degDist) (dec.map degDist) = true) : v.setValueRaDec ra dec = v := by
  simp only [RaDec.isEqual, Bool.not_eq_true', Bool.or_eq_false_iff] at h
  obtain ⟨hra, hdec⟩ := h
  have hequal : ∀ {x y : Option K}, RaDec.differs x y = false → y = x := by
    intro x y hxy
    simp only [RaDec.differs, Bool.or_eq_false_iff, decide_eq_false_iff_not, not_not] at hxy
    exact hxy.2.symm
  have hchanged : (v.setValueRaDec ra dec).changed = v.changed := by
    change (v.changed || RaDec.differs v.ra (ra.map degDist) ||
      RaDec.differs v.dec (dec.map degDist)) = v.changed
    rw [hra, hdec, Bool.or_false, Bool.or_false]
  cases v
  exact congr (congr (congrArg RaDec.mk (hequal hra)) (hequal hdec)) hchanged

omit [IsStrictOrderedRing K] in
/-- A correction that comes to wait in the place of another. -/
theorem waits_setWaiting {c : Correct K} (h : Books s) :
    (s.setWaiting c).wcorrRaDec.changed = false →
      (s.setWaiting c).wcorrRaDec.ra = some 0 ∧ (s.setWaiting c).wcorrRaDec.dec = some 0 := by
  intro hchanged
  simp only [setWaiting, RaDec.setValueRaDec, Bool.or_eq_false_iff] at hchanged ⊢
  obtain ⟨⟨hold, hra⟩, hdec⟩ := hchanged
  obtain ⟨hra0, hdec0⟩ := h.waits hold
  simp only [RaDec.differs, hra0, hdec0, Option.isNone_some, Bool.false_or, decide_eq_false_iff_not,
    not_not] at hra hdec
  exact ⟨hra.symm, hdec.symm⟩

omit [IsStrictOrderedRing K] in
theorem Books.correct {c : Correct K} (h : Books s) (hok : s.AnswerOk c) :
    Books (s.correct c).2 := by
  unfold Telescope.correct
  rw [if_neg hok.1]
  split
  · rename_i hdate
    split
    · exact h
    · rename_i hignore
      split
      · rename_i hsmall
        have hequal := hok.2 hdate (Bool.not_eq_true _ ▸ hignore) hsmall
        exact h.keeps ⟨rfl, rfl, setValueRaDec_equal hequal, rfl⟩
      · have hledger : ledger (s.history ++ [.accepted c.total_cor_ra c.total_cor_dec]) =
            { ledger s.history with pending := some (c.total_cor_ra, c.total_cor_dec) } :=
          ledger_append _ _
        refine ⟨?_, ?_, ?_, ?_, waits_setWaiting h⟩
        · exact h.ra.trans (by simp only [accept, maskState, setWaiting, hledger]; rfl)
        · exact h.dec.trans (by simp only [accept, maskState, setWaiting, hledger]; rfl)
        · simp only [accept, maskState, setWaiting, hledger]
          rfl
        · simp only [accept, maskState, setWaiting, hledger]
          rfl
  · exact h

theorem Books.synccorr (h : Books s) (ret : Int) : Books (s.synccorr ret) := by
  unfold Telescope.synccorr
  split
  · have hledger : ledger (s.history ++ [CorrEvent.reset]) = ⟨none, []⟩ := ledger_append _ _
    have hzero : (some 0 : Option K) = (some (0 : K)).map degDist :=
      congrArg some degDist_zero.symm
    refine ⟨?_, ?_, ?_, ?_, fun _ => ⟨hzero.symm, hzero.symm⟩⟩
    · simp only [hledger]
      rfl
    · simp only [hledger]
      rfl
    · simp only [hledger]
      rfl
    · simp only [hledger]
      rfl
  · exact h

theorem Books.checkMoves (h : Books s)
    (hok : ∀ s', s.attempt (.idle, a) = some s' → s'.MoveOk a) : Books (s.checkMoves a) := by
  have hmoving : Books (s.checkMoving a) := by
    unfold checkMoving
    split
    · rename_i hmoves
      split
      · exact h.keeps (.of_eq rfl rfl rfl)
      · split
        · rename_i hended
          have hstart : Books (s.startTracking false) := h.keeps (keeps_startTracking false)
          unfold moveEnded
          dsimp only
          split
          · exact hstart.keeps (.of_eq rfl rfl rfl)
          · rename_i hend
            split
            · rename_i hwaits
              refine hstart.startResyncMove (hok _ ?_)
              exact if_pos ⟨hmoves, hended, not_not.mp hend, hwaits⟩
            · exact hstart.keeps (.of_eq rfl rfl rfl)
        · exact h
    · split
      · split
        · exact h.keeps (.of_eq rfl rfl rfl)
        · split
          · unfold parkEnded
            split <;> exact h.keeps (.of_eq rfl rfl rfl)
          · exact h
      · exact h
  unfold Telescope.checkMoves
  dsimp only
  split
  · exact hmoving.keeps (.of_eq rfl rfl rfl)
  · exact hmoving

/-! ## Every run -/

theorem Books.changeMasterState {old new : Status} (h : Books s) :
    Books (s.changeMasterState old new a) := by
  have hstop : Books (s.stopOrGo old new) := by
    unfold stopOrGo
    split
    · have hset : Books (s.setBlockMove true) := h.keeps (.of_eq rfl rfl rfl)
      exact hset.keeps (keeps_setTracking 0 true)
    · split
      · exact h.keeps (.of_eq rfl rfl rfl)
      · exact h
  have hpark : Books ((s.stopOrGo old new).parkIfAsked new a) := by
    unfold parkIfAsked
    split
    · exact hstop.startPark
    · exact hstop
  unfold Telescope.changeMasterState standbyOrOn
  split
  · split
    · exact hpark.keeps (.of_eq rfl rfl rfl)
    · split
      · exact hpark.keeps (.of_eq rfl rfl rfl)
      · exact hpark
  · exact hpark

theorem Books.setMasterState {conn : ConnId} {new_state : Status} (h : Books s) :
    Books (s.setMasterState conn new_state a) := by
  have hfold : ∀ (es : List MasterState.Effect) {t : Telescope K}, Books t →
      Books (es.foldl (handle a) t) := by
    intro es
    induction es with
    | nil => exact fun ht => ht
    | cons e es ih =>
      intro t ht
      refine ih ?_
      cases e with
      | changeMasterState old new => exact ht.changeMasterState
      | logIgnoringStateChange => exact ht
      | bopStateChanged => exact ht
  exact hfold _ (h.keeps (.of_eq rfl rfl rfl))

/-- A step that `CorrOk` allows keeps the sum. -/
theorem Books.step {i : Op K × Answers K} (h : Books s) (hok : s.CorrOk i) :
    Books (s.step i) := by
  obtain ⟨o, a⟩ := i
  obtain ⟨hmove, hanswer⟩ := hok
  cases o with
  | masterState conn new_state => exact h.setMasterState
  | fullBopState new_state =>
    simp only [Telescope.step, setFullBopState]
    split
    · rename_i hwaits
      exact h.startResyncMove (hmove s (if_pos hwaits))
    · exact h
  | move ra dec =>
    have hset : Books (s.setOri ra dec).resetMpecTLE := h.keeps (.of_eq rfl rfl rfl)
    exact hset.trackAndMove (hmove _ rfl)
  | moveMpec str ok =>
    simp only [Telescope.step, moveMpec]
    split
    · rename_i hparsed
      have hset : Books { s with
          mpec := s.mpec.setValueString str
          tle_l1 := s.tle_l1.setValueString []
          tle_l2 := s.tle_l2.setValueString [] } := h.keeps (.of_eq rfl rfl rfl)
      exact hset.trackAndMove (hmove _ (if_pos hparsed))
    · exact h.keeps (.of_eq rfl rfl rfl)
  | moveTle l1 l2 ok =>
    simp only [Telescope.step]
    split
    · rename_i hparsed
      have hset : Books (s.setTLE l1 l2) := h.keeps (.of_eq rfl rfl rfl)
      exact (hset.keeps (keeps_startTracking true)).startResyncMove (hmove _ (if_pos hparsed))
    · exact h
  | altAz target =>
    have hset : Books s.resetMpecTLE := h.keeps (.of_eq rfl rfl rfl)
    refine (hset.keeps (keeps_setTracking 0 true)).moveAltAz fun t ht => hmove _ ?_
    rw [ht]
    rfl
  | resync ra dec =>
    have hset : Books (s.setOri ra dec).resetMpecTLE := h.keeps (.of_eq rfl rfl rfl)
    exact hset.startResyncMove (hmove _ rfl)
  | change ra dec =>
    have hset : Books (s.changeOffset ra dec) := h.keeps (.of_eq rfl rfl rfl)
    exact hset.startResyncMove (hmove _ rfl)
  | park => exact h.startPark
  | stop => exact h.keeps (keeps_setTracking 0 true)
  | wormStop => exact h.keeps (keeps_setTracking 0 true)
  | wormStart =>
    simp only [Telescope.step, wormStart]
    split
    · exact h
    · exact h.keeps (keeps_startTracking true)
  | synccorr ret => exact h.synccorr ret
  | correct c => exact h.correct hanswer
  | setTracking track =>
    simp only [Telescope.step, setTrackingValue]
    split
    · exact h
    · split
      · exact h
      · exact h.keeps (keeps_setTracking track true)
  | setDefaultTracking track => exact h.keeps (.of_eq rfl rfl rfl)
  | setBlockOnStandby block => exact h.keeps (.of_eq rfl rfl rfl)
  | setStandbyPark park => exact h.keeps (.of_eq rfl rfl rfl)
  | setOri ra dec =>
    simp only [Telescope.step, setOriValue]
    split
    · exact h
    · rename_i hnew
      have hset : Books { s.setOri ra dec with mpec := s.mpec.setValueString [] } :=
        h.keeps (.of_eq rfl rfl rfl)
      exact hset.startResyncMove (hmove _ (if_neg hnew))
  | setMpec str ok =>
    simp only [Telescope.step, setMpecValue]
    split
    · rename_i hparsed
      have hset : Books { s with mpec := s.mpec.setValueString str } :=
        h.keeps (.of_eq rfl rfl rfl)
      exact hset.startResyncMove (hmove _ (if_pos hparsed))
    · exact h
  | setOffs ra dec =>
    simp only [Telescope.step, setOffsValue]
    split
    · exact h
    · rename_i hnew
      have hset : Books { s with offsRaDec := s.offsRaDec.setValueRaDec ra dec } :=
        h.keeps (.of_eq rfl rfl rfl)
      exact hset.startResyncMove (hmove _ (if_neg hnew))
  | setWoffs ra dec =>
    simp only [Telescope.step, setWoffsValue]
    split
    · exact h
    · exact h.keeps (.of_eq rfl rfl rfl)
  | setTarAltAz target =>
    refine h.moveAltAz fun t ht => hmove _ ?_
    rw [ht]
    rfl
  | stopState stop => exact h.keeps (.of_eq rfl rfl rfl)
  | idle => exact h.checkMoves hmove

/-- **Corrections are added once**: in every run whose steps are `CorrOk`, from a telescope
without corrections, the correction is the sum of those that were accepted and carried out
since they were last reset. -/
theorem corrections_sum (s : Telescope K) (is : List (Op K × Answers K))
    (hcorr : s.corrRaDec.ra = some 0 ∧ s.corrRaDec.dec = some 0)
    (hwcorr : s.wcorrRaDec.ra = some 0 ∧ s.wcorrRaDec.dec = some 0)
    (hhistory : s.history = []) (hok : Along step CorrOk s is) :
    (run step s is).corrRaDec.ra =
        ((ledger (run step s is).history).sum Prod.fst).map degDist ∧
      (run step s is).corrRaDec.dec =
        ((ledger (run step s is).history).sum Prod.snd).map degDist := by
  have hzero : (some 0 : Option K) = (some (0 : K)).map degDist :=
    congrArg some degDist_zero.symm
  have hstart : Books s := by
    refine ⟨?_, ?_, ?_, ?_, fun _ => hwcorr⟩
    · rw [hcorr.1, hhistory]
      exact hzero
    · rw [hcorr.2, hhistory]
      exact hzero
    · rw [hwcorr.1, hhistory]
      exact hzero
    · rw [hwcorr.2, hhistory]
      exact hzero
  have hrun : Books (run step s is) := hok.invariant hstart fun _ _ hs hok => hs.step hok
  exact ⟨hrun.ra, hrun.dec⟩

/-- A telescope that observes, and a correction for it. -/
def observing : Telescope ℚ :=
  { newTelescope false (some 1) with oriRaDec := ⟨some 10, some 20, false⟩ }

def oneDegree : Correct ℚ where
  cor_mark := 0
  corr_img := 0
  corr_obs := 0
  img_id := 1
  obs_id := 1
  total_cor_ra := some 1
  total_cor_dec := some 0
  pos_err := some 1
  fixed := -1

/-- The correction is carried out when the exposure is over. -/
theorem corrections_sum_once :
    (run step observing [(.correct oneDegree, fairAnswers),
        (.fullBopState 0#32, fairAnswers)]).corrRaDec.ra =
      ((ledger (run step observing [(.correct oneDegree, fairAnswers),
        (.fullBopState 0#32, fairAnswers)]).history).sum Prod.fst).map degDist := by
  have hok : Along step CorrOk observing [(.correct oneDegree, fairAnswers),
      (.fullBopState 0#32, fairAnswers)] := by
    refine ⟨⟨fun s' hs' => ?_, by decide, by decide +kernel⟩, ⟨fun s' hs' => ?_, trivial⟩, trivial⟩
    · cases hs'
    · obtain rfl : observing.step (.correct oneDegree, fairAnswers) = s' :=
        Option.some.inj (.trans (if_pos (by decide +kernel)).symm hs')
      intro _ _ _ _
      decide +kernel
  exact (corrections_sum observing _ ⟨rfl, rfl⟩ ⟨rfl, rfl⟩ rfl hok).1

/-- The mount does not start, and then it does: the correction is added twice. -/
theorem correction_twice :
    (run step observing [(.correct oneDegree, fairAnswers),
      (.fullBopState 0#32, { fairAnswers with startResync := -1 }),
      (.fullBopState 0#32, fairAnswers)]).corrRaDec.ra = some 2 ∧
    (ledger (run step observing [(.correct oneDegree, fairAnswers),
      (.fullBopState 0#32, { fairAnswers with startResync := -1 }),
      (.fullBopState 0#32, fairAnswers)]).history).carried = [(some 1, some 0)] := by
  decide +kernel

end Telescope
end Rts2.Teld
