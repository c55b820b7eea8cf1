import Rts2.Domed.Dome

/-! # What the dome publishes

A movement masks the state with the bits it changes. Most transitions write where the dome
is, the block of exposures and both blocks of the sequence; the others leave some of them,
and what is left may not fit. -/
namespace Rts2.Domed
open Rts2.Lib Status

/-! ## What is asked -/

/-- `BOP_EXPOSURE` is set exactly while the dome opens, it blocks closing unless closed and
opening unless opened, and it is not stopped once a movement has started. -/
structure Consistent (s : Dome) : Prop where
  exposure : s.state &&& bopExposure ≠ 0#32 ↔ s.domeState = domeOpening
  blockClose : s.domeState ≠ domeClosed → s.state &&& deviceBlockClose ≠ 0#32
  blockOpen : s.domeState ≠ domeOpened → s.state &&& deviceBlockOpen ≠ 0#32
  stopped : s.moved = true → s.state &&& domeStoppedMask ≠ domeStopped

section
variable (s : Dome)

/-- A movement starts while `DOME_STOPPED` is not reported, which nothing clears. -/
def NotStopped : Prop := s.state &&& domeStoppedMask ≠ domeStopped

/-- The dome starts to open if it was not stopped. -/
def OpensClean (d : Driver) (centralds : Bool) : Prop :=
  d.isOpened ≠ -2 → s.isGoodWeather centralds = true → d.startOpen = 0 → NotStopped s

/-- A dome that is closed already does not open; a dome that waits for the equipment was not
at rest; and it starts to close if it was not stopped. -/
def ClosesClean (d : Driver) : Prop :=
  (d.isClosed = -2 → s.domeState ≠ domeOpening) ∧
  (d.isClosed ≠ -2 → 0 < d.startClose → s.domeState ≠ domeClosed ∧ s.domeState ≠ domeOpened) ∧
  (d.isClosed ≠ -2 → d.startClose = 0 → NotStopped s)

/-- What the transitions rely on, where the step opens or closes the dome. -/
def Clean : Input → Prop
  | .open d centralds => OpensClean s d centralds
  | .close d => ClosesClean s d
  | .closeFor next_good d => 0 ≤ next_good → ClosesClean s d
  | .retry d => s.retryDue = true → ClosesClean s d
  | .masterState newState fromMaster d centralds =>
    s.masterChanges newState fromMaster = true → s.autoClose = true →
      (s.masterCall s.masterState newState = .observing → OpensClean s d centralds) ∧
      (s.masterCall s.masterState newState ∈ [.standby, .off] → ClosesClean s d)
  | .idle check d centralds _ =>
    s.initialSettleTime ≤ s.now → s.isGoodWeather centralds = false →
      s.getIgnoreMeteo = false → s.autoClose = true → ClosesClean (s.checkOpening check) d
  | _ => True

instance NotStopped.decidable : Decidable (NotStopped s) :=
  inferInstanceAs (Decidable (_ ≠ _))

instance OpensClean.decidable (d : Driver) (centralds : Bool) :
    Decidable (OpensClean s d centralds) :=
  inferInstanceAs (Decidable (_ → _ → _ → _))

instance ClosesClean.decidable (d : Driver) : Decidable (ClosesClean s d) :=
  inferInstanceAs (Decidable (_ ∧ _ ∧ _))

instance Clean.decidable : ∀ input, Decidable (Clean s input)
  | .open d centralds => OpensClean.decidable s d centralds
  | .close d => ClosesClean.decidable s d
  | .closeFor _ _ => inferInstanceAs (Decidable (_ → _))
  | .retry _ => inferInstanceAs (Decidable (_ → _))
  | .masterState _ _ _ _ => inferInstanceAs (Decidable (_ → _ → _))
  | .idle _ _ _ _ => inferInstanceAs (Decidable (_ → _ → _ → _ → _))
  | .clock _ => .isTrue trivial
  | .stop _ => .isTrue trivial
  | .resetNext => .isTrue trivial
  | .setWeatherTimeout _ => .isTrue trivial
  | .setIgnoreTimeout _ => .isTrue trivial
  | .setValues _ _ _ _ => .isTrue trivial

end

/-! ## Fields -/

section
variable {mask new field : Status}

theorem field_masked (state mask new field : Status) : ((state &&& ~~~mask) ||| new) &&& field =
    ((state &&& field) &&& ~~~mask) ||| (new &&& field) := by
  apply BitVec.eq_of_getLsbD_eq
  intro i hi
  simp only [BitVec.getLsbD_and, BitVec.getLsbD_or, BitVec.getLsbD_not]
  cases state.getLsbD i <;> cases field.getLsbD i <;> simp

/-- A transition that does not mask a field leaves it. -/
theorem kept_maskState (s : Dome) (hmask : field &&& ~~~(deviceErrorMask ||| mask) = field)
    (hnew : new &&& field = 0#32) : (s.maskState mask new).state &&& field = s.state &&& field := by
  rw [Dome.maskState, field_masked, hnew, BitVec.or_zero, BitVec.and_assoc, hmask]

theorem written_maskState (s : Dome) (hmask : field &&& ~~~(deviceErrorMask ||| mask) = 0#32) :
    (s.maskState mask new).state &&& field = new &&& field := by
  rw [Dome.maskState, field_masked, BitVec.and_assoc, hmask, BitVec.and_zero, BitVec.zero_or]

end

variable {s : Dome} {d : Driver} {centralds : Bool}

/-! ## Transitions -/

theorem Consistent.congr {s' : Dome} (h : Consistent s) (hstate : s'.state = s.state)
    (hmoved : s'.moved = s.moved) : Consistent s' where
  exposure := by rw [Dome.domeState, hstate]; exact h.exposure
  blockClose := by rw [Dome.domeState, hstate]; exact h.blockClose
  blockOpen := by rw [Dome.domeState, hstate]; exact h.blockOpen
  stopped := by rw [hstate, hmoved]; exact h.stopped

theorem Consistent.move (h : Consistent s) (hstopped : NotStopped s) :
    Consistent { s with moved := true } :=
  ⟨h.exposure, h.blockClose, h.blockOpen, fun _ => hstopped⟩

theorem NotStopped.maskState {mask new : Status} (h : NotStopped s)
    (hmask : domeStoppedMask &&& ~~~(deviceErrorMask ||| mask) = domeStoppedMask)
    (hnew : new &&& domeStoppedMask = 0#32) : NotStopped (s.maskState mask new) := by
  rw [NotStopped, kept_maskState s hmask hnew]
  exact h

/-- A word that is consistent where it is written as a whole. -/
def Fits (word : Status) : Prop :=
  (word &&& bopExposure ≠ 0#32 ↔ word &&& domeDomeMask = domeOpening) ∧
  (word &&& domeDomeMask ≠ domeClosed → word &&& deviceBlockClose ≠ 0#32) ∧
  (word &&& domeDomeMask ≠ domeOpened → word &&& deviceBlockOpen ≠ 0#32) ∧
  word &&& domeStoppedMask = 0#32

instance Fits.decidable (word : Status) : Decidable (Fits word) :=
  inferInstanceAs (Decidable (_ ∧ _ ∧ _ ∧ _))

theorem Consistent.write {new : Status} (h : Consistent s) (hfits : Fits new) :
    Consistent (s.maskState
      (domeDomeMask ||| bopExposure ||| deviceBlockOpen ||| deviceBlockClose) new) := by
  obtain ⟨hexposure, hclose, hopen, hstopped⟩ := hfits
  constructor
  · rw [Dome.domeState, written_maskState s rfl, written_maskState s rfl]
    exact hexposure
  · rw [Dome.domeState, written_maskState s rfl, written_maskState s rfl]
    exact hclose
  · rw [Dome.domeState, written_maskState s rfl, written_maskState s rfl]
    exact hopen
  · exact fun hmoved => NotStopped.maskState (h.stopped hmoved) rfl hstopped

/-- The transition to a closed dome leaves the block of exposures. -/
theorem Consistent.closed (h : Consistent s) (hopening : s.domeState ≠ domeOpening) :
    Consistent (s.maskState (domeDomeMask ||| deviceBlockOpen ||| deviceBlockClose)
      (domeClosed ||| deviceBlockOpen)) where
  exposure := by
    rw [Dome.domeState, kept_maskState s rfl rfl, written_maskState s rfl]
    exact ⟨fun hexposure => absurd (h.exposure.mp hexposure) hopening,
      fun hclosed => absurd hclosed (by decide)⟩
  blockClose hclosed := absurd (written_maskState s rfl) hclosed
  blockOpen _ := by
    rw [written_maskState s rfl]
    decide
  stopped hmoved := NotStopped.maskState (h.stopped hmoved) rfl rfl

/-- The transition to a dome that waits leaves what it blocks of the sequence. -/
theorem Consistent.waitClosing (h : Consistent s)
    (hrest : s.domeState ≠ domeClosed ∧ s.domeState ≠ domeOpened) :
    Consistent (s.maskState (domeDomeMask ||| bopExposure) domeWaitClosing) where
  exposure := by
    rw [Dome.domeState, written_maskState s rfl, written_maskState s rfl]
    decide
  blockClose _ := by
    rw [kept_maskState s rfl rfl]
    exact h.blockClose hrest.1
  blockOpen _ := by
    rw [kept_maskState s rfl rfl]
    exact h.blockOpen hrest.2
  stopped hmoved := NotStopped.maskState (h.stopped hmoved) rfl rfl

theorem Consistent.stop (h : Consistent s) :
    Consistent { s.maskState domeStoppedMask domeStopped with moved := false } where
  exposure := by
    rw [Dome.domeState, kept_maskState s rfl rfl, kept_maskState s rfl rfl]
    exact h.exposure
  blockClose := by
    rw [Dome.domeState, kept_maskState s rfl rfl, kept_maskState s rfl rfl]
    exact h.blockClose
  blockOpen := by
    rw [Dome.domeState, kept_maskState s rfl rfl, kept_maskState s rfl rfl]
    exact h.blockOpen
  stopped hmoved := by cases hmoved

theorem Consistent.weather (h : Consistent s) (good : Bool) :
    Consistent (s.setWeatherState good) := by
  have hnew : ∀ field : Status, weatherMask &&& field = 0#32 →
      (if good then goodWeather else badWeather) &&& field = 0#32 := by
    intro field hfield
    cases good with
    | true => exact BitVec.zero_and
    | false => exact hfield
  constructor
  · rw [Dome.domeState, Dome.setWeatherState, kept_maskState s rfl (hnew _ rfl),
      kept_maskState s rfl (hnew _ rfl)]
    exact h.exposure
  · rw [Dome.domeState, Dome.setWeatherState, kept_maskState s rfl (hnew _ rfl),
      kept_maskState s rfl (hnew _ rfl)]
    exact h.blockClose
  · rw [Dome.domeState, Dome.setWeatherState, kept_maskState s rfl (hnew _ rfl),
      kept_maskState s rfl (hnew _ rfl)]
    exact h.blockOpen
  · exact fun hmoved => NotStopped.maskState (h.stopped hmoved) rfl (hnew _ rfl)

/-! ## Operations -/

theorem Consistent.domeOpenStart (h : Consistent s) (hclean : OpensClean s d centralds) :
    Consistent (s.domeOpenStart d centralds).2 := by
  have hretry : Consistent { s with retry := none } := h.congr rfl rfl
  unfold Dome.domeOpenStart
  dsimp only
  split
  · exact hretry.write (by decide)
  split
  · exact hretry
  split
  · exact hretry
  · rename_i hopened hweather hstart
    have hstopped : NotStopped s :=
      hclean hopened (eq_true_of_ne_false hweather) (Decidable.not_not.mp hstart)
    have hopening := hretry.write (show Fits
      (domeOpening ||| bopExposure ||| deviceBlockOpen ||| deviceBlockClose) by decide)
    exact hopening.move (NotStopped.maskState hstopped rfl rfl)

theorem Consistent.domeCloseStart (h : Consistent s) (hclean : ClosesClean s d) :
    Consistent (s.domeCloseStart d).2 := by
  obtain ⟨hclosed, hwaits, hstarts⟩ := hclean
  have hretry : Consistent { s with retry := none } := h.congr rfl rfl
  unfold Dome.domeCloseStart
  dsimp only
  split
  · rename_i his
    exact hretry.closed (hclosed his)
  rename_i his
  split
  · exact hretry
  split
  · rename_i hpos
    have hwaiting := hretry.waitClosing (hwaits his hpos)
    exact hwaiting.congr rfl rfl
  · rename_i hneg hpos
    have hstopped : NotStopped s := hstarts his (by omega)
    have hclosing := hretry.write (show Fits
      (domeClosing ||| deviceBlockOpen ||| deviceBlockClose) by decide)
    exact hclosing.move (NotStopped.maskState hstopped rfl rfl)

theorem Consistent.domeStop (h : Consistent s) : Consistent (s.domeStop d).2 := by
  have hretry : Consistent { s with retry := none } := h.congr rfl rfl
  unfold Dome.domeStop
  dsimp only
  split
  · exact hretry
  · exact hretry.stop

/-- The end of a movement clears the block of exposures before the dome closes. -/
theorem Consistent.checkOpening (h : Consistent s) : Consistent (s.checkOpening d) := by
  unfold Dome.checkOpening
  split
  · split
    exacts [h.write (by decide), h]
  split
  · rename_i hopening _
    split
    exacts [h.closed hopening, h]
  · exact h

theorem Consistent.setMasterStandby (h : Consistent s) : Consistent s.setMasterStandby := by
  unfold Dome.setMasterStandby
  split
  exacts [h.congr rfl rfl, h]

theorem Consistent.setMasterOn (h : Consistent s) : Consistent s.setMasterOn := by
  unfold Dome.setMasterOn
  split
  exacts [h.congr rfl rfl, h]

theorem Consistent.closeDomeWeather (h : Consistent s)
    (hclean : s.getIgnoreMeteo = false → s.autoClose = true → ClosesClean s d) :
    Consistent (s.closeDomeWeather d).2 := by
  unfold Dome.closeDomeWeather
  split
  · rename_i hignore
    split
    · rename_i hauto
      exact (h.domeCloseStart (hclean hignore hauto)).setMasterStandby
    · exact h.setMasterStandby
  · exact h

theorem Consistent.updateWeather (h : Consistent s) (allCentraldRunning : Bool) :
    Consistent (s.updateWeather allCentraldRunning) := by
  have hcontact : Consistent (s.contact allCentraldRunning) := by
    unfold Dome.contact
    split
    exacts [h.congr rfl rfl, h]
  unfold Dome.updateWeather
  dsimp only
  split
  · exact (hcontact.weather true).congr rfl rfl
  · exact hcontact.weather false

theorem Consistent.idle (h : Consistent s) {check : Driver} {allCentraldRunning : Bool}
    (hclean : s.initialSettleTime ≤ s.now → s.isGoodWeather centralds = false →
      s.getIgnoreMeteo = false → s.autoClose = true → ClosesClean (s.checkOpening check) d) :
    Consistent (s.idle check d centralds allCentraldRunning) := by
  have hcheck : Consistent (s.checkOpening check) := h.checkOpening
  have hsame : (s.checkOpening check).isGoodWeather centralds = s.isGoodWeather centralds ∧
      (s.checkOpening check).getIgnoreMeteo = s.getIgnoreMeteo ∧
      (s.checkOpening check).autoClose = s.autoClose := by
    unfold Dome.checkOpening
    repeat' split
    all_goals exact ⟨rfl, rfl, rfl⟩
  obtain ⟨hgood, hignore, hauto⟩ := hsame
  unfold Dome.idle
  split
  · exact h
  rename_i hsettled
  dsimp only
  refine Consistent.updateWeather ?_ allCentraldRunning
  split
  · split
    exacts [hcheck.setMasterOn, hcheck]
  · rename_i hweather
    refine hcheck.closeDomeWeather fun hi ha => ?_
    exact hclean (not_lt.mp hsettled) (hgood ▸ eq_false_of_ne_true hweather)
      (hignore ▸ hi) (hauto ▸ ha)

theorem Consistent.observing (h : Consistent s) (hclean : s.autoClose = true → OpensClean s d centralds) :
    Consistent (s.observing d centralds) := by
  unfold Dome.observing
  split
  · rename_i hauto
    exact h.domeOpenStart (hclean hauto)
  · exact h

theorem Consistent.standby (h : Consistent s) (hclean : s.autoClose = true → ClosesClean s d) :
    Consistent (s.standby d) := by
  have htimeout : Consistent { s with ignoreTimeout := s.now - 1 } := h.congr rfl rfl
  unfold Dome.standby
  dsimp only
  split
  · rename_i hauto
    exact htimeout.domeCloseStart (hclean hauto)
  · exact htimeout

theorem Consistent.setMasterState (h : Consistent s) {newState : Status} {fromMaster : Bool}
    (hclean : Clean s (.masterState newState fromMaster d centralds)) :
    Consistent (s.setMasterState newState fromMaster d centralds) := by
  have hstate : Consistent { s with masterState := newState } := h.congr rfl rfl
  unfold Dome.setMasterState
  dsimp only
  split
  · split
    · rename_i hchanges
      have hclean := hclean hchanges
      unfold Dome.changeMasterState
      split
      · exact hstate
      · rename_i hcall
        exact hstate.observing fun hauto => (hclean hauto).1 hcall
      · rename_i hcall
        exact hstate.standby fun hauto => (hclean hauto).2 (List.mem_cons.mpr (.inl hcall))
      · rename_i hcall
        exact hstate.standby fun hauto =>
          (hclean hauto).2 (List.mem_cons_of_mem _ (List.mem_singleton.mpr hcall))
    · exact hstate
  · exact h

/-! ## Runs -/

variable {unspecified : ℚ → Int}

theorem Consistent.step (h : Consistent s) (input : Input) (hclean : Clean s input) :
    Consistent (s.step unspecified input) := by
  cases input with
  | clock t => exact h.congr rfl rfl
  | «open» d centralds => exact h.domeOpenStart hclean
  | close d => exact h.domeCloseStart hclean
  | stop d => exact h.domeStop
  | closeFor next_good d =>
    unfold Dome.step Dome.closeFor
    dsimp only
    split
    · exact h
    · rename_i hpos
      have hrequest : Consistent { s with
          nextGoodWeather := s.now + next_good
          requested := (s.now + next_good) :: s.requested } := h.congr rfl rfl
      exact hrequest.domeCloseStart (hclean (not_lt.mp hpos))
  | resetNext => exact h.congr rfl rfl
  | retry d =>
    unfold Dome.step Dome.postRetry
    dsimp only
    split
    · rename_i hdue
      have hretry : Consistent { s with retry := none } := h.congr rfl rfl
      exact hretry.domeCloseStart (hclean hdue)
    · exact h
  | masterState newState fromMaster d centralds => exact h.setMasterState hclean
  | idle check d centralds allCentraldRunning => exact h.idle hclean
  | setWeatherTimeout wait_time =>
    have hrequest : Consistent { s with
        requested := ((s.now.floor + wait_time : ℤ) : ℚ) :: s.requested } := h.congr rfl rfl
    unfold Dome.step Dome.setWeatherTimeout
    dsimp only
    split
    · exact (hrequest.weather false).congr rfl rfl
    · exact hrequest
  | setIgnoreTimeout ignore_time => exact h.congr rfl rfl
  | setValues weatherOpensDome domeAutoClose ignoreTimeout closeRepeatTimeAfterPark =>
    exact h.congr rfl rfl

/-- A dome that starts consistent, and whose transitions find what they leave as they should,
publishes nothing else. -/
theorem published_consistent (unspecified : ℚ → Int) (o : Options) (now : ℚ) (state : Status)
    (inputs : List Input) (hinit : Consistent (Dome.create o now state))
    (hclean : Along (Dome.step unspecified) Clean (Dome.create o now state) inputs) :
    Consistent (run (Dome.step unspecified) (Dome.create o now state) inputs) :=
  hclean.invariant hinit fun _ input h hstep => h.step input hstep

def plain : Options where
  weatherOpens := false
  inhibitAutoClose := false
  ignoreTimeout := none
  donotclose := false

/-- The driver starts what it is asked for, and is still at it. -/
def moving : Driver where
  isOpened := 0
  isClosed := 0
  startOpen := 0
  startClose := 0
  stop := 0

/-- A closed dome, as its driver publishes it. -/
def closedDome : Dome := .create plain 0 (domeClosed ||| deviceBlockOpen)

def reached (inputs : List Input) : Dome := run (Dome.step fun _ => 0) closedDome inputs

def opensAt20 : List Input := [.clock 20, .open moving true]

/-- The dome opens, is opened, closes and is stopped. -/
def closesAndStops : List Input :=
  opensAt20 ++ [.idle { moving with isOpened := -2 } moving true true, .close moving, .stop moving]

theorem consistent_closedDome : Consistent closedDome :=
  ⟨by decide, fun hclosed => absurd rfl hclosed, fun _ => by decide, fun hmoved => by cases hmoved⟩

theorem published_consistent_closesAndStops : Consistent (reached closesAndStops) :=
  published_consistent (fun _ => 0) plain 0 (domeClosed ||| deviceBlockOpen) closesAndStops
    consistent_closedDome (by decide +kernel)

/-- A dome that is told to close before it has left its end switch. -/
def closedWhileOpening : List Input := opensAt20 ++ [.close { moving with isClosed := -2 }]

/-- An opened dome that waits for the equipment before it closes. -/
def waitsOpened : List Input :=
  opensAt20 ++ [.idle { moving with isOpened := -2 } moving true true,
    .close { moving with startClose := 1 }]

/-- A dome that was stopped and closes. -/
def closesAfterStop : List Input := opensAt20 ++ [.stop moving, .close moving]

theorem published_inconsistent :
    ¬ Consistent (reached closedWhileOpening) ∧ ¬ Consistent (reached waitsOpened) ∧
      ¬ Consistent (reached closesAfterStop) := by
  refine ⟨fun h => ?_, fun h => ?_, fun h => ?_⟩
  · have hclosed : (reached closedWhileOpening).domeState ≠ domeOpening := by decide +kernel
    exact hclosed (h.exposure.mp (by decide +kernel))
  · exact h.blockOpen (by decide +kernel) (by decide +kernel)
  · exact h.stopped (by decide +kernel) (by decide +kernel)

end Rts2.Domed
