import Mathlib.Tactic.Linarith
import Rts2.Domed.Dome

/-! # When the dome votes for good weather

`next_open` is the time before which the dome is not to open. A weather timeout moves it
forward only; `close_for` sets it, whatever it was, and `reset_next` ends the waiting. -/
namespace Rts2.Domed
open Rts2.Lib

/-- The command `close_for` asks for no less than what is left to wait, and the time of a
weather timeout can be compared and kept as an `int`. -/
def Lengthens (s : Dome) : Input → Prop
  | .closeFor next_good _ => 0 ≤ next_good → s.nextGoodWeather ≤ s.now + next_good
  | .setWeatherTimeout wait_time =>
    s.nextGoodWeather < 2147483648 ∧ s.now.floor + wait_time ≤ 2147483647
  | .resetNext => False
  | _ => True

instance Lengthens.decidable (s : Dome) : ∀ input, Decidable (Lengthens s input)
  | .closeFor _ _ => inferInstanceAs (Decidable (_ → _))
  | .setWeatherTimeout _ => inferInstanceAs (Decidable (_ ∧ _))
  | .resetNext => .isFalse id
  | .clock _ => .isTrue trivial
  | .open _ _ => .isTrue trivial
  | .close _ => .isTrue trivial
  | .stop _ => .isTrue trivial
  | .retry _ => .isTrue trivial
  | .masterState _ _ _ _ => .isTrue trivial
  | .idle _ _ _ _ => .isTrue trivial
  | .setIgnoreTimeout _ => .isTrue trivial
  | .setValues _ _ _ _ => .isTrue trivial

/-- No vote came before a time that had been requested, and none will. -/
structure Waits (s : Dome) : Prop where
  epoch : 0 ≤ s.nextGoodWeather
  requested : ∀ time ∈ s.requested, time ≤ s.nextGoodWeather
  votes : ∀ vote ∈ s.votes, ∀ time ∈ vote.requested, time ≤ vote.now

variable {unspecified : ℚ → Int} {s s' : Dome} {d : Driver} {centralds : Bool}

/-! ## What does not touch `next_open` -/

structure SameTimes (s s' : Dome) : Prop where
  nextGoodWeather : s'.nextGoodWeather = s.nextGoodWeather
  requested : s'.requested = s.requested
  votes : s'.votes = s.votes

theorem SameTimes.refl (s : Dome) : SameTimes s s := ⟨rfl, rfl, rfl⟩

theorem Waits.congr (h : Waits s) (hsame : SameTimes s s') : Waits s' where
  epoch := by rw [hsame.nextGoodWeather]; exact h.epoch
  requested := by rw [hsame.requested, hsame.nextGoodWeather]; exact h.requested
  votes := by rw [hsame.votes]; exact h.votes

theorem sameTimes_domeOpenStart (s : Dome) : SameTimes s (s.domeOpenStart d centralds).2 := by
  unfold Dome.domeOpenStart
  dsimp only
  split
  · exact ⟨rfl, rfl, rfl⟩
  split
  · exact ⟨rfl, rfl, rfl⟩
  split <;> exact ⟨rfl, rfl, rfl⟩

theorem sameTimes_domeCloseStart (s : Dome) : SameTimes s (s.domeCloseStart d).2 := by
  unfold Dome.domeCloseStart
  dsimp only
  split
  · exact ⟨rfl, rfl, rfl⟩
  split
  · exact ⟨rfl, rfl, rfl⟩
  split <;> exact ⟨rfl, rfl, rfl⟩

theorem sameTimes_domeStop (s : Dome) : SameTimes s (s.domeStop d).2 := by
  unfold Dome.domeStop
  dsimp only
  split <;> exact ⟨rfl, rfl, rfl⟩

theorem sameTimes_checkOpening (s : Dome) : SameTimes s (s.checkOpening d) := by
  unfold Dome.checkOpening
  split
  · split <;> exact ⟨rfl, rfl, rfl⟩
  split
  · split <;> exact ⟨rfl, rfl, rfl⟩
  · exact .refl s

theorem sameTimes_setMasterStandby (s : Dome) : SameTimes s s.setMasterStandby := by
  unfold Dome.setMasterStandby
  split <;> exact ⟨rfl, rfl, rfl⟩

theorem sameTimes_setMasterOn (s : Dome) : SameTimes s s.setMasterOn := by
  unfold Dome.setMasterOn
  split <;> exact ⟨rfl, rfl, rfl⟩

theorem Waits.closeDomeWeather (h : Waits s) : Waits (s.closeDomeWeather d).2 := by
  unfold Dome.closeDomeWeather
  split
  · split
    · exact (h.congr (sameTimes_domeCloseStart s)).congr (sameTimes_setMasterStandby _)
    · exact h.congr (sameTimes_setMasterStandby s)
  · exact h

theorem Waits.setMasterState (h : Waits s) {newState : Status} {fromMaster : Bool} :
    Waits (s.setMasterState newState fromMaster d centralds) := by
  have hstate : Waits { s with masterState := newState } := h.congr ⟨rfl, rfl, rfl⟩
  have hclose : ∀ {s : Dome}, Waits s → Waits (s.standby d) := by
    intro s h
    have htimeout : Waits { s with ignoreTimeout := s.now - 1 } := h.congr ⟨rfl, rfl, rfl⟩
    unfold Dome.standby
    dsimp only
    split
    exacts [htimeout.congr (sameTimes_domeCloseStart _), htimeout]
  unfold Dome.setMasterState
  dsimp only
  split
  · split
    · unfold Dome.changeMasterState
      split
      · exact hstate
      · unfold Dome.observing
        split
        exacts [hstate.congr (sameTimes_domeOpenStart _), hstate]
      · exact hclose hstate
      · exact hclose hstate
    · exact hstate
  · exact h

/-! ## The vote -/

/-- The dome votes for good weather only after `next_open`. -/
theorem Waits.updateWeather (h : Waits s) (allCentraldRunning : Bool) :
    Waits (s.updateWeather allCentraldRunning) := by
  have hcontact : Waits (s.contact allCentraldRunning) := by
    unfold Dome.contact
    split
    exacts [h.congr ⟨rfl, rfl, rfl⟩, h]
  unfold Dome.updateWeather
  dsimp only
  split
  · rename_i hvotes
    refine ⟨hcontact.epoch, hcontact.requested, fun vote hmem => ?_⟩
    rcases List.mem_cons.mp hmem with rfl | hmem
    · intro time htime
      exact le_trans (hcontact.requested time htime) (le_of_lt hvotes.2)
    · exact hcontact.votes vote hmem
  · exact hcontact.congr ⟨rfl, rfl, rfl⟩

theorem Waits.idle (h : Waits s) {check : Driver} {allCentraldRunning : Bool} :
    Waits (s.idle check d centralds allCentraldRunning) := by
  have hcheck : Waits (s.checkOpening check) := h.congr (sameTimes_checkOpening s)
  unfold Dome.idle
  split
  · exact h
  dsimp only
  refine Waits.updateWeather ?_ allCentraldRunning
  split
  · split
    exacts [hcheck.congr (sameTimes_setMasterOn _), hcheck]
  · exact hcheck.closeDomeWeather

/-! ## Requests -/

/-- A time in the range of an `int` loses its fraction only. -/
theorem getValueInteger_eq {value : ℚ} (hnonneg : 0 ≤ value) (hlt : value < 2147483648) :
    Dome.getValueInteger unspecified value = ⌊value⌋ := by
  have hrange : -2147483649 < value ∧ value < 2147483648 := ⟨by linarith, hlt⟩
  rw [Dome.getValueInteger, if_pos hrange,
    Int.tdiv_eq_ediv_of_nonneg (Rat.num_nonneg.mpr hnonneg), Rat.floor_def']

/-- A weather timeout that is not after `next_open` is kept by it; one that is takes its
place. -/
theorem Waits.setWeatherTimeout (h : Waits s) {wait_time : Int} (hlt : s.nextGoodWeather < 2147483648)
    (hint : s.now.floor + wait_time ≤ 2147483647) :
    Waits (s.setWeatherTimeout unspecified wait_time) := by
  have hvalue : Dome.getValueInteger unspecified s.nextGoodWeather = ⌊s.nextGoodWeather⌋ :=
    getValueInteger_eq h.epoch hlt
  unfold Dome.setWeatherTimeout
  dsimp only
  rw [hvalue]
  split
  · rename_i hafter
    have hpos : 0 ≤ ⌊s.nextGoodWeather⌋ := Int.floor_nonneg.mpr h.epoch
    have hkept : (s.now.floor + wait_time).bmod 4294967296 = s.now.floor + wait_time :=
      Int.bmod_eq_of_le (by omega) (by omega)
    have hlater : s.nextGoodWeather ≤ (s.now.floor + wait_time : ℤ) :=
      le_of_lt (Int.floor_lt.mp hafter)
    rw [hkept]
    refine ⟨le_trans h.epoch hlater, fun time hmem => ?_, h.votes⟩
    rcases List.mem_cons.mp hmem with rfl | hmem
    · exact le_refl _
    · exact le_trans (h.requested time hmem) hlater
  · rename_i hbefore
    refine ⟨h.epoch, fun time hmem => ?_, h.votes⟩
    rcases List.mem_cons.mp hmem with rfl | hmem
    · exact Int.le_floor.mp (not_lt.mp hbefore)
    · exact h.requested time hmem

theorem Waits.closeFor (h : Waits s) {next_good : ℚ}
    (hlonger : 0 ≤ next_good → s.nextGoodWeather ≤ s.now + next_good) :
    Waits (s.closeFor next_good d).2 := by
  unfold Dome.closeFor
  dsimp only
  split
  · exact h
  · rename_i hpos
    have hlater := hlonger (not_lt.mp hpos)
    have hrequest : Waits { s with
        nextGoodWeather := s.now + next_good
        requested := (s.now + next_good) :: s.requested } := by
      refine ⟨le_trans h.epoch hlater, fun time hmem => ?_, h.votes⟩
      rcases List.mem_cons.mp hmem with rfl | hmem
      · exact le_refl _
      · exact le_trans (h.requested time hmem) hlater
    exact hrequest.congr (sameTimes_domeCloseStart _)

/-! ## Runs -/

theorem Waits.step (h : Waits s) (input : Input) (hlonger : Lengthens s input) :
    Waits (s.step unspecified input) := by
  cases input with
  | clock t => exact h.congr ⟨rfl, rfl, rfl⟩
  | «open» d centralds => exact h.congr (sameTimes_domeOpenStart s)
  | close d => exact h.congr (sameTimes_domeCloseStart s)
  | stop d => exact h.congr (sameTimes_domeStop s)
  | closeFor next_good d => exact h.closeFor hlonger
  | resetNext => cases hlonger
  | retry d =>
    have hretry : Waits { s with retry := none } := h.congr ⟨rfl, rfl, rfl⟩
    unfold Dome.step Dome.postRetry
    dsimp only
    split
    exacts [hretry.congr (sameTimes_domeCloseStart _), h]
  | masterState newState fromMaster d centralds => exact h.setMasterState
  | idle check d centralds allCentraldRunning => exact h.idle
  | setWeatherTimeout wait_time => exact h.setWeatherTimeout hlonger.1 hlonger.2
  | setIgnoreTimeout ignore_time => exact h.congr ⟨rfl, rfl, rfl⟩
  | setValues weatherOpensDome domeAutoClose ignoreTimeout closeRepeatTimeAfterPark =>
    exact h.congr ⟨rfl, rfl, rfl⟩

/-- The clock starts after the epoch, where `notclose` looks back five minutes. -/
theorem Waits.create (o : Options) {now : ℚ} (hnow : 300 ≤ now) (state : Status) :
    Waits (Dome.create o now state) := by
  refine ⟨?_, fun time hmem => (by cases hmem), fun vote hmem => (by cases hmem)⟩
  unfold Dome.create
  dsimp only
  split <;> linarith

/-- Where no request ends before the one that runs, the dome votes for good weather only
after all of them. -/
theorem votes_after_requests (unspecified : ℚ → Int) (o : Options) (now : ℚ) (hnow : 300 ≤ now)
    (state : Status) (inputs : List Input)
    (hlonger : Along (Dome.step unspecified) Lengthens (Dome.create o now state) inputs) :
    ∀ vote ∈ (run (Dome.step unspecified) (Dome.create o now state) inputs).votes,
      ∀ time ∈ vote.requested, time ≤ vote.now :=
  (hlonger.invariant (Waits.create o hnow state) fun _ input h hstep => h.step input hstep).votes

/-- A dome nobody moves: it is closed, and its driver says so. -/
def atRest : Driver where
  isOpened := 0
  isClosed := -2
  startOpen := -1
  startClose := -1
  stop := -1

def following : Options where
  weatherOpens := true
  inhibitAutoClose := false
  ignoreTimeout := none
  donotclose := false

/-- A weather timeout of a minute, one of ten seconds in between, and `close_for` two minutes. -/
def longerRequests : List Input :=
  [.clock 2000, .setWeatherTimeout 60, .clock 2010, .setWeatherTimeout 10,
    .idle atRest atRest true true, .closeFor 120 atRest, .clock 2131,
    .idle atRest atRest true true]

theorem votes_after_requests_longerRequests :
    (run (Dome.step fun _ => 0) (Dome.create following 1000 0) longerRequests).votes =
        [⟨2131, [2130, 2020, 2060]⟩] ∧
      ∀ vote ∈ (run (Dome.step fun _ => 0) (Dome.create following 1000 0) longerRequests).votes,
        ∀ time ∈ vote.requested, time ≤ vote.now :=
  ⟨by decide +kernel,
    votes_after_requests (fun _ => 0) following 1000 (by decide +kernel) 0 longerRequests
      (by decide +kernel)⟩

/-- `close_for` an hour, and then for a minute: the dome votes for good weather after it. -/
def shorterRequest : List Input :=
  [.clock 2000, .closeFor 3600 atRest, .closeFor 60 atRest, .clock 2061,
    .idle atRest atRest true true]

theorem vote_before_request :
    ∃ vote ∈ (run (Dome.step fun _ => 0) (Dome.create following 1000 0) shorterRequest).votes,
      ∃ time ∈ vote.requested, vote.now < time := by
  have hvotes : (run (Dome.step fun _ => 0) (Dome.create following 1000 0) shorterRequest).votes =
      [⟨2061, [2060, 5600]⟩] := by decide +kernel
  refine ⟨⟨2061, [2060, 5600]⟩, by rw [hvotes]; exact List.mem_singleton.mpr rfl, 5600, ?_, ?_⟩
  · exact List.mem_cons_of_mem _ (List.mem_singleton.mpr rfl)
  · decide +kernel

end Rts2.Domed
