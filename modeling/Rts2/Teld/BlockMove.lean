import Rts2.Lib.Run
import Rts2.Teld.Telescope

/-! # Blocked movement

`block_move` has two reasons, a stop of everything and a master that is not on;
three branches set and clear it. -/
namespace Rts2.Teld
open Rts2.Lib
open Rts2.MasterState (ConnId Stop)
open Rts2.Status
open Rts2.Values (LnRangeDegrees)

variable {K : Type}

/-! ## Reasons -/

/-- The masters ask that nothing moves. -/
def Asks (masterState : Status) (blockOnStandby : Bool) : Prop :=
  Stop masterState ∨ (blockOnStandby = true ∧ masterState.onoff ≠ 0)

instance decidableAsks (masterState : Status) (b : Bool) : Decidable (Asks masterState b) :=
  inferInstanceAs (Decidable (_ ∨ _))

/-- The call was made while nothing should move. -/
def Issue.Unasked (i : Issue) : Prop := Asks i.masterState i.blockOnStandby

namespace Telescope
variable {s s' s'' : Telescope K} {a : Answers K}

def Reason (s : Telescope K) : Prop := Asks s.block.masterState s.blockOnStandby

/-- Tracking would start. -/
def starts (s : Telescope K) (check : Bool) : Bool :=
  match s.tracking with
  | none => false
  | some track => tracks (s.trackingFor check track)

/-! ## Calls to the driver -/

/-- The masters and the block stay, and the driver is called only where it may move. -/
structure Calls (s s' : Telescope K) : Prop where
  block : s'.block = s.block
  blockMove : s'.blockMove = s.blockMove
  blockOnStandby : s'.blockOnStandby = s.blockOnStandby
  issued : ∀ i ∈ s'.issued, i ∈ s.issued ∨ ¬ i.Unasked

theorem Calls.of_eq (hblock : s'.block = s.block) (hmove : s'.blockMove = s.blockMove)
    (hstandby : s'.blockOnStandby = s.blockOnStandby) (hissued : s'.issued = s.issued) :
    Calls s s' :=
  ⟨hblock, hmove, hstandby, fun _ hi => .inl (hissued ▸ hi)⟩

theorem Calls.refl (s : Telescope K) : Calls s s := .of_eq rfl rfl rfl rfl

theorem Calls.trans (h : Calls s s') (h' : Calls s' s'') : Calls s s'' := by
  refine ⟨h'.block.trans h.block, h'.blockMove.trans h.blockMove,
    h'.blockOnStandby.trans h.blockOnStandby, fun i hi => ?_⟩
  rcases h'.issued i hi with hold | hnew
  · exact h.issued i hold
  · exact .inr hnew

theorem Calls.reason_iff (h : Calls s s') : s'.Reason ↔ s.Reason := by
  unfold Reason
  rw [h.block, h.blockOnStandby]

theorem calls_maskState (mask newState : Status) : Calls s (s.maskState mask newState) :=
  .of_eq rfl rfl rfl rfl

theorem calls_issue (hs : ¬ s.Reason) (call : Call) : Calls s (s.issue call) := by
  refine ⟨rfl, rfl, rfl, fun i hi => ?_⟩
  rcases List.mem_append.mp hi with hold | hnew
  · exact .inl hold
  · obtain rfl := List.mem_singleton.mp hnew
    exact .inr hs

/-- What holds all along: a reason blocks, and the driver was called only without one. -/
structure Blocked (s : Telescope K) : Prop where
  blocks : s.Reason → s.blockMove = true
  issued : ∀ i ∈ s.issued, ¬ i.Unasked

theorem Blocked.calls (h : Blocked s) (hc : Calls s s') : Blocked s' := by
  refine ⟨fun hreason => ?_, fun i hi => ?_⟩
  · rw [hc.blockMove]
    exact h.blocks (hc.reason_iff.mp hreason)
  · rcases hc.issued i hi with hold | hnew
    · exact h.issued i hold
    · exact hnew

/-! ## Tracking -/

/-- Tracking starts only where the telescope may move. -/
theorem calls_setTracking {track : Int} {stopMsg : Bool}
    (hs : s.tracking ≠ none → tracks track = true → ¬ s.Reason) :
    Calls s (s.setTracking track stopMsg) := by
  have hset : Calls s { s with tracking := some track } := .of_eq rfl rfl rfl rfl
  unfold setTracking
  split
  · exact .refl s
  · rename_i t ht
    split
    · rename_i htracks
      have hreason : ¬ s.Reason := hs (by simp [ht]) htracks
      have hissue := calls_issue (s := { s with tracking := some track }) hreason
      exact (hset.trans (hissue (.startTracking track))).trans (calls_maskState _ _)
    · split
      · exact hset.trans (calls_maskState _ _)
      · exact hset

theorem calls_stopTracking (stopMsg : Bool) : Calls s (s.stopTracking stopMsg) :=
  calls_setTracking fun _ htracks => absurd htracks (by decide)

theorem calls_startTracking {check : Bool} (hs : s.starts check = true → ¬ s.Reason) :
    Calls s (s.startTracking check) := by
  unfold startTracking
  split
  · exact .refl s
  · rename_i track htrack
    refine calls_setTracking fun _ htracks => hs ?_
    rw [starts, htrack]
    exact htracks

variable [Field K] [LinearOrder K] [LnRangeDegrees K]

/-! ## Operations that keep the block -/

/-- A change of the master state: the telescope itself asks for no stop, or is blocked
already; a master that is on again has no stop left; and what standby begins with is no
parking. -/
def ChangeOk (s : Telescope K) (old new : Status) (a : Answers K) : Prop :=
  (Stop new → Stop s.state → s.blockMove = true) ∧
  (s.blockOnStandby = true → old.onoff ≠ 0 → new.onoff = 0 → ¬ Stop new) ∧
  (s.blockOnStandby = true → new.onoff ≠ 0 → (s.stopOrGo old new).blockMove = false →
    (s.stopOrGo old new).parks new = false ∨ (s.stopOrGo old new).beforePark.stopFails a = true)

/-- What keeps the block. While nothing should move, a request starts no tracking: the
tracking it would set is off, or the mount has none. -/
def BlockOk (s : Telescope K) : Op K × Answers K → Prop
  | (.masterState conn new_state, a) =>
    ∀ old new, .changeMasterState old new ∈
      (MasterState.setMasterState s.block conn new_state).2 →
      ({ s with block := (MasterState.setMasterState s.block conn new_state).1 } :
        Telescope K).ChangeOk old new a
  | (.setBlockOnStandby block, _) =>
    block = true → s.block.masterState.onoff ≠ 0 → s.blockMove = true
  | (.move _ _, _) => s.Reason → s.starts true = false
  | (.moveMpec _ ok, _) => ok = true → s.Reason → s.starts true = false
  | (.moveTle _ _ ok, _) => ok = true → s.Reason → s.starts true = false
  | (.setTracking track, _) => s.Reason → s.tracking ≠ none → s.tracking ≠ some track →
    track ≠ 2 ∧ track ≠ 3
  | (.idle, a) => s.Reason → s.moving = telMoving → a.isMoving = -2 → s.starts false = false
  | _ => True

/-! ## Moves -/

theorem calls_computeTarget : Calls s (s.computeTarget a) := by
  unfold computeTarget
  dsimp only
  split <;> split <;> exact .of_eq rfl rfl rfl rfl

theorem calls_applied : Calls s s.countMove.applyCorrection.applyOffset := by
  have hcount : Calls s s.countMove := by
    unfold countMove
    split <;> exact .of_eq rfl rfl rfl rfl
  have hcorrection : Calls s.countMove s.countMove.applyCorrection := by
    unfold applyCorrection
    split <;> exact .of_eq rfl rfl rfl rfl
  have hoffset : Calls s.countMove.applyCorrection s.countMove.applyCorrection.applyOffset := by
    unfold applyOffset
    split <;> exact .of_eq rfl rfl rfl rfl
  exact (hcount.trans hcorrection).trans hoffset

theorem calls_cannotMove : Calls s s.cannotMove := by
  have hori : Calls s (s.setOri none none) := .of_eq rfl rfl rfl rfl
  exact (hori.trans (calls_stopTracking false)).trans (calls_maskState _ _)

omit [Field K] [LinearOrder K] [LnRangeDegrees K] in
theorem calls_startState (correction : Int) : Calls s (s.startState correction) := by
  unfold startState
  split
  · exact calls_maskState _ _
  · split <;> exact .of_eq rfl rfl rfl rfl

omit [LinearOrder K] [LnRangeDegrees K] in
theorem calls_launch {correction : Int} (hs : ¬ s.Reason) :
    Calls s (s.launch correction a).2 := by
  have hissue : Calls s ((s.startState correction).issue .startResync) :=
    (calls_startState correction).trans
      (calls_issue (mt (calls_startState correction).reason_iff.mp hs) _)
  unfold launch
  dsimp only
  split
  · exact (hissue.trans (calls_stopTracking false)).trans (calls_maskState _ _)
  · exact hissue.trans (.of_eq rfl rfl rfl rfl)

theorem calls_checkedMove {correction : Int} (hs : s.Reason → s.blockMove = true) :
    Calls s (s.checkedMove correction a).2 := by
  unfold checkedMove
  split
  · exact .refl s
  · rename_i hblock
    split
    · exact .refl s
    · split
      · exact .refl s
      · split
        · exact calls_cannotMove
        · split
          · exact calls_cannotMove
          · exact calls_launch fun hreason => hblock (hs hreason)

/-- A telescope that may not move is not sent anywhere. -/
theorem calls_startResyncMove {correction : Int} (hs : s.Reason → s.blockMove = true) :
    Calls s (s.startResyncMove correction a).2 := by
  unfold startResyncMove
  dsimp only
  split
  · exact calls_computeTarget
  · have happlied := (calls_computeTarget (s := s) (a := a)).trans calls_applied
    refine happlied.trans (calls_checkedMove fun hreason => ?_)
    rw [happlied.blockMove]
    exact hs (happlied.reason_iff.mp hreason)

theorem calls_moveAltAz {target : Option (K × K)} (hs : s.Reason → s.blockMove = true) :
    Calls s (s.moveAltAz target a).2 := by
  unfold moveAltAz
  split
  · exact .refl s
  · rename_i ra dec
    have hori : Calls s (s.setOri (some ra) (some dec)) := .of_eq rfl rfl rfl rfl
    exact hori.trans (calls_startResyncMove hs)

theorem calls_trackAndMove (hs : s.Reason → s.blockMove = true)
    (htrack : s.Reason → s.starts true = false) : Calls s (s.trackAndMove a).2 := by
  have hstart : Calls s (s.startTracking true) := calls_startTracking fun hstarts hreason => by
    rw [htrack hreason] at hstarts
    cases hstarts
  have hmove : Calls s ((s.startTracking true).startResyncMove 0 a).2 :=
    hstart.trans (calls_startResyncMove fun hreason => by
      rw [hstart.blockMove]
      exact hs (hstart.reason_iff.mp hreason))
  unfold trackAndMove
  dsimp only
  split
  · exact hmove.trans (calls_stopTracking true)
  · exact hmove

/-! ## Parking -/

omit [LinearOrder K] [LnRangeDegrees K] in
/-- The mount is parked only where it may move, or the driver does not stop it. -/
theorem calls_startPark (hs : s.blockMove = false → s.Reason → s.beforePark.stopFails a = true) :
    Calls s (s.startPark a).2 := by
  have hbefore : Calls s s.beforePark := .of_eq rfl rfl rfl rfl
  unfold startPark
  split
  · exact .refl s
  · split
    · exact .refl s
    · rename_i hblock
      dsimp only
      split
      · exact hbefore
      · rename_i hstops
        have hstop := hbefore.trans (calls_stopTracking true)
        have hreason : ¬ (s.beforePark.stopTracking true).Reason := fun hreason =>
          hstops (hs (Bool.not_eq_true _ ▸ hblock) (hstop.reason_iff.mp hreason))
        have hissue := hstop.trans (calls_issue hreason .startPark)
        split
        · exact hissue
        · refine hissue.trans ?_
          unfold parked
          split <;> exact .of_eq rfl rfl rfl rfl

/-! ## Idle -/

theorem calls_moveEnded (hs : s.Reason → s.blockMove = true)
    (htrack : s.Reason → s.starts false = false) : Calls s (s.moveEnded a) := by
  have hstart : Calls s (s.startTracking false) := calls_startTracking fun hstarts hreason => by
    rw [htrack hreason] at hstarts
    cases hstarts
  unfold moveEnded
  dsimp only
  split
  · exact hstart.trans (calls_maskState _ _)
  · split
    · refine hstart.trans (calls_startResyncMove fun hreason => ?_)
      rw [hstart.blockMove]
      exact hs (hstart.reason_iff.mp hreason)
    · exact hstart.trans (calls_maskState _ _)

omit [Field K] [LinearOrder K] [LnRangeDegrees K] in
theorem calls_parkEnded : Calls s (s.parkEnded a) := by
  unfold parkEnded
  split <;> exact calls_maskState _ _

theorem calls_checkMoving (hs : s.Reason → s.blockMove = true)
    (htrack : s.Reason → s.moving = telMoving → a.isMoving = -2 → s.starts false = false) :
    Calls s (s.checkMoving a) := by
  unfold checkMoving
  split
  · rename_i hmoving
    split
    · exact calls_maskState _ _
    · split
      · rename_i hended
        exact calls_moveEnded hs fun hreason => htrack hreason hmoving hended
      · exact .refl s
  · split
    · split
      · exact calls_maskState _ _
      · split
        · exact calls_parkEnded
        · exact .refl s
    · exact .refl s

theorem calls_checkMoves (hs : s.Reason → s.blockMove = true)
    (htrack : s.Reason → s.moving = telMoving → a.isMoving = -2 → s.starts false = false) :
    Calls s (s.checkMoves a) := by
  unfold checkMoves
  dsimp only
  split
  · exact (calls_checkMoving hs htrack).trans (calls_maskState _ _)
  · exact calls_checkMoving hs htrack

/-! ## Master states -/

/-- A part of a state that has no bit of the block of exposures. -/
theorem and_of_bop {old new mask : Status} (hmask : ~~~bopMask &&& mask = mask)
    (h : old &&& ~~~bopMask = new &&& ~~~bopMask) : old &&& mask = new &&& mask := by
  rw [← hmask, ← BitVec.and_assoc, ← BitVec.and_assoc, h]

theorem asks_of_bop {old new : Status} {b : Bool}
    (h : old &&& ~~~bopMask = new &&& ~~~bopMask) : Asks new b ↔ Asks old b := by
  have hstop : old &&& stopMask = new &&& stopMask := and_of_bop (by decide) h
  have honoff : old.onoff = new.onoff := and_of_bop (by decide) h
  simp only [Asks, Stop, hstop, honoff]

omit [LinearOrder K] in
theorem foldl_changeEffects (old new : Status) :
    (MasterState.changeEffects old new).foldl (handle a) s =
      if old &&& ~~~bopMask ≠ new &&& ~~~bopMask then s.changeMasterState old new a else s := by
  unfold MasterState.changeEffects
  split <;> split <;> rfl

omit [LinearOrder K] [LnRangeDegrees K] in
/-- A state from a master changes the telescope, or only the block of exposures, or nothing. -/
theorem setMasterState_cases (b : MasterState.Block) (conn : ConnId) (new : Status) :
    (MasterState.Effect.changeMasterState b.masterState new ∈
        (MasterState.setMasterState b conn new).2 ∧
      (MasterState.setMasterState b conn new).1.masterState = new ∧
      ∀ (a : Answers K) (s : Telescope K),
        (MasterState.setMasterState b conn new).2.foldl (handle a) s =
          s.changeMasterState b.masterState new a) ∨
    ((∀ c, Asks (MasterState.setMasterState b conn new).1.masterState c ↔
        Asks b.masterState c) ∧
      ∀ (a : Answers K) (s : Telescope K),
        (MasterState.setMasterState b conn new).2.foldl (handle a) s = s) := by
  have hset : (MasterState.Effect.changeMasterState b.masterState new ∈
        MasterState.changeEffects b.masterState new ∧ new = new ∧
      ∀ (a : Answers K) (s : Telescope K),
        (MasterState.changeEffects b.masterState new).foldl (handle a) s =
          s.changeMasterState b.masterState new a) ∨
      ((∀ c, Asks new c ↔ Asks b.masterState c) ∧
      ∀ (a : Answers K) (s : Telescope K),
        (MasterState.changeEffects b.masterState new).foldl (handle a) s = s) := by
    by_cases hbop : b.masterState &&& ~~~bopMask = new &&& ~~~bopMask
    · right
      refine ⟨fun c => asks_of_bop hbop, fun a s => ?_⟩
      rw [foldl_changeEffects, if_neg (not_not.mpr hbop)]
    · left
      refine ⟨?_, rfl, fun a s => ?_⟩
      · simp [MasterState.changeEffects, hbop]
      · rw [foldl_changeEffects, if_pos hbop]
  unfold MasterState.setMasterState
  dsimp only
  split
  · split
    · right
      refine ⟨fun c => Iff.rfl, fun a s => ?_⟩
      split <;> rfl
    · split
      · exact .inr ⟨fun c => Iff.rfl, fun a s => rfl⟩
      · exact hset
  · exact hset

omit [Field K] [LinearOrder K] [LnRangeDegrees K] in
/-- The block after a stop, or after the stop is over. -/
theorem stopOrGo_blockMove {old new : Status} (hown : Stop new → Stop s.state → s.blockMove = true)
    (hstop : Stop new) : (s.stopOrGo old new).blockMove = true := by
  unfold stopOrGo
  split
  · exact ((calls_stopTracking (s := s.setBlockMove true) true).blockMove).trans rfl
  · rename_i hnot
    rw [if_neg fun hgo => hgo.2 hstop]
    refine hown hstop ?_
    by_contra hstate
    exact hnot ⟨hstate, hstop⟩

omit [Field K] [LinearOrder K] [LnRangeDegrees K] in
/-- `stopOrGo` calls nothing. -/
theorem stopOrGo_silent (old new : Status) : (s.stopOrGo old new).block = s.block ∧
    (s.stopOrGo old new).blockOnStandby = s.blockOnStandby ∧
    ∀ i ∈ (s.stopOrGo old new).issued, i ∈ s.issued ∨ ¬ i.Unasked := by
  unfold stopOrGo
  split
  · have hstop := calls_stopTracking (s := s.setBlockMove true) true
    exact ⟨hstop.block, hstop.blockOnStandby, hstop.issued⟩
  · split <;> exact ⟨rfl, rfl, fun i hi => .inl hi⟩

omit [LinearOrder K] [LnRangeDegrees K] in
/-- A change of the master state keeps the block. -/
theorem blocked_changeMasterState {old new : Status} (hnew : s.block.masterState = new)
    (hissued : ∀ i ∈ s.issued, ¬ i.Unasked) (hok : s.ChangeOk old new a) :
    Blocked (s.changeMasterState old new a) := by
  obtain ⟨hown, hon, hpark⟩ := hok
  obtain ⟨hblock, hstandby, hsilent⟩ := stopOrGo_silent (s := s) old new
  have hpasses : Calls (s.stopOrGo old new) ((s.stopOrGo old new).parkIfAsked new a) := by
    unfold parkIfAsked
    split
    · rename_i hparks
      refine calls_startPark fun hfree hreason => ?_
      unfold Reason at hreason
      rw [hblock, hstandby, hnew] at hreason
      rcases hreason with hstop | ⟨hb, honoff⟩
      · rw [stopOrGo_blockMove hown hstop] at hfree
        cases hfree
      · rcases hpark hb honoff hfree with hno | hfails
        · rw [hno] at hparks
          cases hparks
        · exact hfails
    · exact .refl _
  have hissues : ∀ i ∈ ((s.stopOrGo old new).parkIfAsked new a).issued, ¬ i.Unasked := by
    intro i hi
    rcases hpasses.issued i hi with hold | hfree
    · rcases hsilent i hold with hold | hfree
      · exact hissued i hold
      · exact hfree
    · exact hfree
  have hreason : ∀ b, ({ (s.stopOrGo old new).parkIfAsked new a with blockMove := b } :
      Telescope K).Reason ↔ Stop new ∨ (s.blockOnStandby = true ∧ new.onoff ≠ 0) := by
    intro b
    change Asks _ _ ↔ _
    rw [hpasses.block, hblock, hpasses.blockOnStandby, hstandby, hnew]
    rfl
  have hbos : ((s.stopOrGo old new).parkIfAsked new a).blockOnStandby = s.blockOnStandby :=
    hpasses.blockOnStandby.trans hstandby
  have hstopped : Stop new → ((s.stopOrGo old new).parkIfAsked new a).blockMove = true :=
    fun hstop => hpasses.blockMove.trans (stopOrGo_blockMove hown hstop)
  unfold changeMasterState standbyOrOn
  rw [hbos]
  split
  · rename_i hb
    split
    · exact ⟨fun _ => rfl, hissues⟩
    · rename_i honoff
      split
      · rename_i hold
        refine ⟨fun h => ?_, hissues⟩
        rcases (hreason false).mp h with hstop | ⟨-, hoff⟩
        · exact absurd hstop (hon hb hold (not_not.mp honoff))
        · exact absurd hoff honoff
      · refine ⟨fun h => ?_, hissues⟩
        rcases (hreason _).mp h with hstop | ⟨-, hoff⟩
        · exact hstopped hstop
        · exact absurd hoff honoff
  · rename_i hb
    refine ⟨fun h => ?_, hissues⟩
    rcases (hreason _).mp h with hstop | ⟨hb', -⟩
    · exact hstopped hstop
    · exact absurd hb' hb

omit [LinearOrder K] in
theorem Blocked.setMasterState {conn : ConnId} {new_state : Status} (h : Blocked s)
    (hok : s.BlockOk (.masterState conn new_state, a)) :
    Blocked (s.setMasterState conn new_state a) := by
  unfold Telescope.setMasterState
  dsimp only
  rcases setMasterState_cases (K := K) s.block conn new_state with
    ⟨hmem, hmaster, hfold⟩ | ⟨hasks, hfold⟩
  · rw [hfold]
    exact blocked_changeMasterState hmaster h.issued (hok _ _ hmem)
  · rw [hfold]
    exact ⟨fun hreason => h.blocks ((hasks _).mp hreason), h.issued⟩

/-! ## Every run -/

omit [Field K] [LinearOrder K] [LnRangeDegrees K] in
theorem blocked_setTrackingValue {track : Int} (h : Blocked s)
    (hok : s.BlockOk (.setTracking track, a)) : Blocked (s.setTrackingValue track) := by
  unfold setTrackingValue
  split
  · exact h
  · rename_i hchanged
    split
    · exact h
    · rename_i hrefused
      refine h.calls (calls_setTracking fun hset htracks hreason => ?_)
      obtain ⟨htwo, hthree⟩ := hok hreason hset hchanged
      have hone : track ≠ 1 := fun hone => hrefused ⟨hone, .inl (h.blocks hreason)⟩
      simp [tracks, hone, htwo, hthree] at htracks

omit [Field K] [LinearOrder K] [LnRangeDegrees K] in
theorem blocked_wormStart (h : Blocked s) : Blocked s.wormStart := by
  unfold wormStart
  split
  · exact h
  · rename_i hrefused
    exact h.calls (calls_startTracking fun _ hreason => hrefused (.inl (h.blocks hreason)))

theorem calls_synccorr (ret : Int) : Calls s (s.synccorr ret) := by
  unfold synccorr
  split
  · exact .of_eq rfl rfl rfl rfl
  · exact .refl s

/-- Corrections start nothing. -/
theorem calls_correct (c : Correct K) : Calls s (s.correct c).2 := by
  unfold Telescope.correct
  split
  · exact .of_eq rfl rfl rfl rfl
  · split
    · split
      · exact .refl s
      · split <;> exact .of_eq rfl rfl rfl rfl
    · exact .refl s

/-- A step that `BlockOk` allows keeps the block. -/
theorem Blocked.step {i : Op K × Answers K} (h : Blocked s) (hok : s.BlockOk i) :
    Blocked (s.step i) := by
  obtain ⟨o, a⟩ := i
  have hmove : ∀ {s' : Telescope K} {correction : Int}, Calls s s' →
      Blocked (s'.startResyncMove correction a).2 := fun hc =>
    (h.calls hc).calls (calls_startResyncMove (h.calls hc).blocks)
  cases o with
  | masterState conn new_state => exact h.setMasterState hok
  | fullBopState new_state =>
    simp only [Telescope.step, setFullBopState]
    split
    · exact hmove (.refl s)
    · exact h
  | move ra dec =>
    have hset : Calls s (s.setOri ra dec).resetMpecTLE := .of_eq rfl rfl rfl rfl
    exact (h.calls hset).calls (calls_trackAndMove (h.calls hset).blocks hok)
  | moveMpec str ok =>
    simp only [Telescope.step, moveMpec]
    split
    · rename_i hparsed
      have hset : Calls s { s with
          mpec := s.mpec.setValueString str
          tle_l1 := s.tle_l1.setValueString []
          tle_l2 := s.tle_l2.setValueString [] } := .of_eq rfl rfl rfl rfl
      exact (h.calls hset).calls (calls_trackAndMove (h.calls hset).blocks (hok hparsed))
    · exact h.calls (.of_eq rfl rfl rfl rfl)
  | moveTle l1 l2 ok =>
    simp only [Telescope.step]
    split
    · rename_i hparsed
      have hset : Calls s (s.setTLE l1 l2) := .of_eq rfl rfl rfl rfl
      refine hmove (hset.trans (calls_startTracking fun hstarts hreason => ?_))
      have hno : (s.setTLE l1 l2).starts true = false := hok hparsed hreason
      rw [hno] at hstarts
      cases hstarts
    · exact h
  | altAz target =>
    have hreset : Calls s s.resetMpecTLE := .of_eq rfl rfl rfl rfl
    have hset := hreset.trans (calls_stopTracking true)
    exact (h.calls hset).calls (calls_moveAltAz (h.calls hset).blocks)
  | resync ra dec => exact hmove (.of_eq rfl rfl rfl rfl)
  | change ra dec => exact hmove (.of_eq rfl rfl rfl rfl)
  | park =>
    refine h.calls (calls_startPark fun hfree hreason => ?_)
    rw [h.blocks hreason] at hfree
    cases hfree
  | stop => exact h.calls (calls_stopTracking true)
  | wormStop => exact h.calls (calls_stopTracking true)
  | wormStart => exact blocked_wormStart h
  | synccorr ret => exact h.calls (calls_synccorr ret)
  | correct c => exact h.calls (calls_correct c)
  | setTracking track => exact blocked_setTrackingValue (a := a) h hok
  | setDefaultTracking track => exact h.calls (.of_eq rfl rfl rfl rfl)
  | setBlockOnStandby block =>
    refine ⟨fun hreason => ?_, h.issued⟩
    rcases hreason with hstop | ⟨hb, honoff⟩
    · exact h.blocks (.inl hstop)
    · exact hok hb honoff
  | setStandbyPark park => exact h.calls (.of_eq rfl rfl rfl rfl)
  | setOri ra dec =>
    simp only [Telescope.step, setOriValue]
    split
    · exact h
    · exact hmove (.of_eq rfl rfl rfl rfl)
  | setMpec str ok =>
    simp only [Telescope.step, setMpecValue]
    split
    · exact hmove (.of_eq rfl rfl rfl rfl)
    · exact h
  | setOffs ra dec =>
    simp only [Telescope.step, setOffsValue]
    split
    · exact h
    · exact hmove (.of_eq rfl rfl rfl rfl)
  | setWoffs ra dec =>
    simp only [Telescope.step, setWoffsValue]
    split
    · exact h
    · exact h.calls (.of_eq rfl rfl rfl rfl)
  | setTarAltAz target => exact h.calls (calls_moveAltAz h.blocks)
  | stopState stop => exact h.calls (calls_maskState _ _)
  | idle => exact h.calls (calls_checkMoves h.blocks hok)

/-- **Blocked movement**: in every run whose steps are `BlockOk`, from a telescope that is
blocked if it has to be, `block_move` is set whenever a master asks for a stop or, with
`block_on_standby`, is not on; and nothing is started then. -/
theorem block_move_kept (s : Telescope K) (is : List (Op K × Answers K))
    (hs : s.Reason → s.blockMove = true) (hissued : s.issued = [])
    (hok : Along step BlockOk s is) :
    ((Stop (run step s is).block.masterState ∨ ((run step s is).blockOnStandby = true ∧
        (run step s is).block.masterState.onoff ≠ serverdOn)) →
      (run step s is).blockMove = true) ∧
    ∀ i ∈ (run step s is).issued,
      ¬(Stop i.masterState ∨ (i.blockOnStandby = true ∧ i.masterState.onoff ≠ serverdOn)) := by
  have hstart : Blocked s := ⟨hs, fun i hi => by
    rw [hissued] at hi
    cases hi⟩
  have hrun : Blocked (run step s is) :=
    hok.invariant hstart fun _ _ hs hok => hs.step hok
  exact ⟨hrun.blocks, hrun.issued⟩

/-- A mount that does not track, blocked before the first state of the master. -/
theorem block_move_kept_move :
    (run step (newTelescope true none) [(.setBlockOnStandby true, fairAnswers),
      (.move (some 10) (some 20), fairAnswers), (.park, fairAnswers)]).blockMove = true := by
  have hok : Along step BlockOk (newTelescope true none) [(.setBlockOnStandby true, fairAnswers),
      (.move (some 10) (some 20), fairAnswers), (.park, fairAnswers)] :=
    ⟨fun _ _ => rfl, fun _ => rfl, trivial, trivial⟩
  exact (block_move_kept _ _ (fun _ => rfl) rfl hok).1 (by decide +kernel)

/-- The master is on again after standby, and its stop lasts: the block is gone. And under a
stop the tracking is set to sidereal. -/
theorem block_cleared :
    Stop (run step (newTelescope false (some 0)) [(.masterState 0 serverdOn, fairAnswers),
      (.setBlockOnStandby true, fairAnswers),
      (.masterState 0 (stopEverything ||| serverdStandby), fairAnswers),
      (.masterState 0 (stopEverything ||| serverdOn), fairAnswers)]).block.masterState ∧
    (run step (newTelescope false (some 0)) [(.masterState 0 serverdOn, fairAnswers),
      (.setBlockOnStandby true, fairAnswers),
      (.masterState 0 (stopEverything ||| serverdStandby), fairAnswers),
      (.masterState 0 (stopEverything ||| serverdOn), fairAnswers)]).blockMove = false ∧
    ∃ i ∈ (run step (newTelescope false (some 0)) [(.masterState 0 stopEverything, fairAnswers),
      (.setTracking 2, fairAnswers)]).issued, Stop i.masterState := by
  refine ⟨by decide +kernel, by decide +kernel, ⟨.startTracking 2, stopEverything, false⟩, ?_, rfl⟩
  exact List.mem_singleton.mpr rfl

end Telescope
end Rts2.Teld
