import Rts2.Block.MasterState
import Rts2.Values.Operators

/-! # The telescope daemon

Moves, parking, tracking and corrections of a `Telescope`, the states they set
and the master states it follows. What the driver and the sky answer is given
to every operation; coordinates are exact numbers or `NAN`. -/
namespace Rts2.Teld
open Rts2.MasterState (ConnId)
open Rts2.Values
open Rts2.Status

variable {K : Type} [Field K] [LinearOrder K] [LnRangeDegrees K]

/-! ## Values -/

/-- `ValueRaDec`; `NAN` is none. -/
structure RaDec (K : Type) (degDist180 : Bool) where
  ra : Option K
  dec : Option K
  changed : Bool
  deriving DecidableEq

namespace RaDec
variable {b : Bool} (v : RaDec K b)

/-- A coordinate takes another value; `NAN` differs from everything. -/
def differs (old new : Option K) : Bool := old.isNone || old ≠ new

/-- `isEqual`. -/
def isEqual (ra dec : Option K) : Bool := !(differs v.ra ra || differs v.dec dec)

def setValueRaDec (ra dec : Option K) : RaDec K b where
  ra := ra.map (stored b)
  dec := dec.map (stored b)
  changed := v.changed || differs v.ra (ra.map (stored b)) || differs v.dec (dec.map (stored b))

def plus (x y : Option K) : Option K := do return (← x) + (← y)

def incValueRaDec (ra dec : Option K) : RaDec K b := v.setValueRaDec (plus v.ra ra) (plus v.dec dec)

def resetValueChanged : RaDec K b := { v with changed := false }

/-- A value after `setValueRaDec (0, 0)` and `resetValueChanged`. -/
def zero : RaDec K b := ⟨some 0, some 0, false⟩

end RaDec

/-- `ValueString`. -/
structure StringValue where
  text : List Char
  changed : Bool

def StringValue.setValueString (v : StringValue) (text : List Char) : StringValue where
  text := text
  changed := v.changed || v.text ≠ text

/-- `length () > 0`. -/
def StringValue.isSet (v : StringValue) : Bool := v.text ≠ []

/-- What the mount is told to do. -/
inductive Call where
  | startResync
  | startPark
  | startTracking (track : Int)

/-- A call, and what the master asked for when it was made. -/
structure Issue where
  call : Call
  masterState : Status
  blockOnStandby : Bool

/-- What becomes of corrections: a command accepted one, a move carried out what was waiting,
or all were reset. -/
inductive CorrEvent (K : Type) where
  | accepted (ra dec : Option K)
  | carried
  | reset

/-- What the driver and the sky answer: the positions of an orbit, whether the target is above
the horizon and within the declination limit, and the return values of the driver. -/
structure Answers (K : Type) where
  mpecPosition : Option K × Option K
  tlePosition : Option K × Option K
  stopMove : Int
  good : Bool
  decViolated : Bool
  startResync : Int
  startPark : Int
  isMoving : Int
  endMove : Int
  isParking : Int
  endPark : Int
  isOffseting : Int

structure Telescope (K : Type) where
  block : MasterState.Block
  state : Status
  blockMove : Bool
  blockOnStandby : Bool
  standbyPark : Int
  parkingBlockMove : Bool
  tracking : Option Int
  defaultTracking : Int
  oriRaDec : RaDec K false
  mpec : StringValue
  tle_l1 : StringValue
  tle_l2 : StringValue
  tle_freeze : Bool
  offsRaDec : RaDec K true
  woffsRaDec : RaDec K true
  corrRaDec : RaDec K true
  wcorrRaDec : RaDec K true
  corrImgId : Int
  corrObsId : Int
  wCorrImgId : Int
  wCorrObsId : Int
  moveNum : Int
  ignoreCorrection : Option K
  defIgnoreCorrection : Option K
  smallCorrection : Option K
  issued : List Issue
  history : List (CorrEvent K)

namespace Telescope
variable (s : Telescope K)

/-! ## State -/

/-- `Daemon::maskState`; errors do not outlast a change of the state. -/
def maskState (mask newState : Status) : Telescope K :=
  { s with state := (s.state &&& ~~~(deviceErrorMask ||| mask)) ||| newState }

def moving : Status := s.state &&& telMaskMoving

def correcting : Bool := s.state &&& telMaskCorrecting = telCorrecting

/-- The driver is called. -/
def issue (call : Call) : Telescope K :=
  { s with issued := s.issued ++ [⟨call, s.block.masterState, s.blockOnStandby⟩] }

/-! ## Tracking -/

/-- `track == 1 || track == 2 || track == 3`. -/
def tracks (track : Int) : Bool := track = 1 ∨ track = 2 ∨ track = 3

/-- `Telescope::setTracking`; `stopMsg` is whether there is a message. -/
def setTracking (track : Int) (stopMsg : Bool) : Telescope K :=
  match s.tracking with
  | none => s
  | some _ =>
    let s := { s with tracking := some track }
    if tracks track then (s.issue (.startTracking track)).maskState telMaskTrack telTracking
    else if stopMsg then s.maskState telMaskTrack telNotrack
    else s

/-- What `startTracking` sets. -/
def trackingFor (check : Bool) (track : Int) : Int :=
  if check ∧ track = 0 then s.defaultTracking else track

def startTracking (check : Bool) : Telescope K :=
  match s.tracking with
  | none => s
  | some track => s.setTracking (s.trackingFor check track) true

def stopTracking (stopMsg : Bool) : Telescope K := s.setTracking 0 stopMsg

/-! ## Moves -/

def setOri (ra dec : Option K) : Telescope K :=
  { s with oriRaDec := s.oriRaDec.setValueRaDec ra dec }

def resetMpecTLE : Telescope K :=
  { s with
    mpec := s.mpec.setValueString []
    tle_l1 := s.tle_l1.setValueString []
    tle_l2 := s.tle_l2.setValueString [] }

/-- `Telescope::incMoveNum`. -/
def incMoveNum : Telescope K :=
  { s with
    tle_freeze := false
    offsRaDec := .zero
    woffsRaDec := .zero
    corrRaDec := .zero
    wcorrRaDec := .zero
    moveNum := s.moveNum + 1
    ignoreCorrection := s.defIgnoreCorrection
    corrImgId := 0
    corrObsId := 0
    wCorrImgId := 0
    wCorrObsId := 0
    history := s.history ++ [.reset] }

/-- The target of an orbit or a satellite. -/
def computeTarget (a : Answers K) : Telescope K :=
  let s := if s.mpec.isSet then s.setOri a.mpecPosition.1 a.mpecPosition.2 else s
  if s.tle_freeze = false ∧ s.tle_l1.isSet ∧ s.tle_l2.isSet then
    s.setOri a.tlePosition.1 a.tlePosition.2
  else s

/-- The object was not specified. -/
def nullTarget : Bool := s.oriRaDec.ra.isNone || s.oriRaDec.dec.isNone

/-- The object changed from the last move. -/
def newTarget : Bool :=
  if s.mpec.isSet then s.mpec.changed
  else if s.tle_l1.isSet then s.tle_l1.changed || s.tle_l2.changed
  else s.oriRaDec.changed

def countMove : Telescope K := if s.newTarget then s.incMoveNum else s

/-- The correction that is waiting is added. -/
def applyCorrection : Telescope K :=
  if s.wcorrRaDec.changed then
    { s with
      corrRaDec := s.corrRaDec.incValueRaDec s.wcorrRaDec.ra s.wcorrRaDec.dec
      corrImgId := s.wCorrImgId
      corrObsId := s.wCorrObsId }
  else s

def applyOffset : Telescope K :=
  if s.woffsRaDec.changed then
    { s with offsRaDec := s.offsRaDec.setValueRaDec s.woffsRaDec.ra s.woffsRaDec.dec }
  else s

/-- The move is not possible, and the object is forgotten. -/
def cannotMove : Telescope K :=
  ((s.setOri none none).stopTracking false).maskState
    (telMaskCorrecting ||| telMaskMoving ||| bopExposure ||| telMaskTrack)
    (telNotCorrecting ||| telObserving ||| telNotrack)

/-- The state of a move that starts. -/
def startState (correction : Int) : Telescope K :=
  if correction ≠ 0 then
    s.maskState (telMaskCorrecting ||| telMaskMoving ||| telMaskNeedStop ||| bopExposure)
      (telCorrecting ||| telMoving ||| bopExposure)
  else
    let s := if s.state &&& telMaskCorrecting ≠ 0 then
        s.maskState (telMaskMoving ||| telMaskCorrecting) 0
      else s
    s.maskState (telMaskMoving ||| telMaskCorrecting ||| telMaskNeedStop ||| telMaskTrack |||
      bopExposure) (telMoving ||| bopExposure)

/-- The move was started: nothing waits any more. -/
def started : Telescope K :=
  { s with
    oriRaDec := s.oriRaDec.resetValueChanged
    offsRaDec := s.offsRaDec.resetValueChanged
    corrRaDec := s.corrRaDec.resetValueChanged
    mpec := { s.mpec with changed := false }
    tle_l1 := { s.tle_l1 with changed := false }
    tle_l2 := { s.tle_l2 with changed := false }
    woffsRaDec := s.woffsRaDec.resetValueChanged
    wcorrRaDec := if s.wcorrRaDec.changed then .zero else s.wcorrRaDec
    history := s.history ++ [.carried] }

/-- The mount is sent to the target. -/
def launch (correction : Int) (a : Answers K) : Int × Telescope K :=
  let s := (s.startState correction).issue .startResync
  if a.startResync ≠ 0 then
    (-1, (s.stopTracking false).maskState
      (telMaskCorrecting ||| telMaskMoving ||| bopExposure ||| telMaskTrack)
      (telNotCorrecting ||| telObserving))
  else (0, s.started)

/-- The checks of `startResyncMove`, once the target is known. -/
def checkedMove (correction : Int) (a : Answers K) : Int × Telescope K :=
  if s.blockMove then (-1, s)
  else if s.parkingBlockMove ∧ s.moving = telParking then (-1, s)
  else if (s.moving = telMoving ∨ s.correcting) ∧ a.stopMove ≠ 0 then (-1, s)
  else if !a.good then (-1, s.cannotMove)
  else if a.decViolated then (-1, s.cannotMove)
  else s.launch correction a

/-- `Telescope::startResyncMove`. -/
def startResyncMove (correction : Int) (a : Answers K) : Int × Telescope K :=
  let s := s.computeTarget a
  if s.nullTarget then (-1, s)
  else s.countMove.applyCorrection.applyOffset.checkedMove correction a

/-- `(woffsRaDec->wasChanged () ? 1 : 0) | (wcorrRaDec->wasChanged () ? 2 : 0)`. -/
def waiting : Int :=
  (if s.woffsRaDec.changed then 1 else 0) + (if s.wcorrRaDec.changed then 2 else 0)

/-- Something waits to be applied. -/
def isWaiting : Bool := s.woffsRaDec.changed || s.wcorrRaDec.changed

/-- `Telescope::moveAltAz`, to a position in the sky; `NAN` is refused. -/
def moveAltAz (target : Option (K × K)) (a : Answers K) : Int × Telescope K :=
  match target with
  | none => (-1, s)
  | some (ra, dec) => (s.setOri (some ra) (some dec)).startResyncMove 0 a

/-- A command that tracks and moves: the tracking is stopped if the move is not possible. -/
def trackAndMove (a : Answers K) : Int × Telescope K :=
  let r := (s.startTracking true).startResyncMove 0 a
  if r.1 ≠ 0 then (r.1, r.2.stopTracking true) else r

/-! ## Parking -/

/-- The coordinates are forgotten, unless the driver keeps them. -/
def parked (a : Answers K) : Telescope K :=
  if a.startPark = 0 then { s with oriRaDec := ⟨none, none, false⟩ } else s

/-- The telescope does not track while it is being parked. -/
def beforePark : Telescope K :=
  s.resetMpecTLE.maskState (telMaskTrack ||| telMaskOffseting ||| telMaskUnstable)
    (telNotrack ||| telNoOffseting ||| telStable)

/-- The telescope moves, and the driver does not stop it. -/
def stopFails (a : Answers K) : Bool := s.moving = telMoving ∧ a.stopMove ≠ 0

/-- `Telescope::startPark`. -/
def startPark (a : Answers K) : Int × Telescope K :=
  if s.moving = telParking then (0, s)
  else if s.blockMove then (-1, s)
  else
    let s := s.beforePark
    if s.stopFails a then (-1, s)
    else
      let s := (s.stopTracking true).issue .startPark
      if a.startPark < 0 then (-1, s)
      else (0, (s.parked a).incMoveNum.maskState
        (telMaskMoving ||| telMaskTrack ||| telMaskNeedStop) telParking)

/-! ## Master states -/

def setBlockMove (blockMove : Bool) : Telescope K := { s with blockMove }

/-- The telescope is to be parked during the day and when it is not on. -/
def parks (new_state : Status) : Bool :=
  (new_state &&& serverdStatusMask = serverdDay ∨ new_state.onoff ≠ 0) ∧ s.standbyPark ≠ 0 ∧
    (s.standbyPark = 2 ∨ ¬(new_state &&& serverdStatusMask = serverdNight ∨
      new_state &&& serverdStatusMask = serverdDusk ∨
      new_state &&& serverdStatusMask = serverdDawn)) ∧
    s.moving ≠ telParked ∧ s.moving ≠ telParking

/-- The first part of `changeMasterState`: stop, or go on. -/
def stopOrGo (old_state new_state : Status) : Telescope K :=
  if s.state &&& stopMask ≠ stopEverything ∧ new_state &&& stopMask = stopEverything then
    (s.setBlockMove true).stopTracking true
  else if old_state &&& stopMask = stopEverything ∧ new_state &&& stopMask ≠ stopEverything then
    s.setBlockMove false
  else s

def parkIfAsked (new_state : Status) (a : Answers K) : Telescope K :=
  if s.parks new_state then (s.startPark a).2 else s

/-- The last part of `changeMasterState`: standby, or on. -/
def standbyOrOn (old_state new_state : Status) : Telescope K :=
  if s.blockOnStandby then
    if new_state.onoff ≠ 0 then s.setBlockMove true
    else if old_state.onoff ≠ 0 then s.setBlockMove false
    else s
  else s

/-- `Telescope::changeMasterState`. -/
def changeMasterState (old_state new_state : Status) (a : Answers K) : Telescope K :=
  ((s.stopOrGo old_state new_state).parkIfAsked new_state a).standbyOrOn old_state new_state

/-- What the block calls when a master changed its state. -/
def handle (a : Answers K) (s : Telescope K) : MasterState.Effect → Telescope K
  | .changeMasterState old new => s.changeMasterState old new a
  | .logIgnoringStateChange => s
  | .bopStateChanged => s

/-- `Block::setMasterState`. -/
def setMasterState (conn : ConnId) (new_state : Status) (a : Answers K) : Telescope K :=
  let r := MasterState.setMasterState s.block conn new_state
  r.2.foldl (handle a) { s with block := r.1 }

/-- `Telescope::setFullBopState`. -/
def setFullBopState (new_state : Status) (a : Answers K) : Telescope K :=
  if s.isWaiting ∧ new_state &&& bopTelMove = 0 then (s.startResyncMove s.waiting a).2 else s

/-! ## Idle -/

/-- The state of a move that ended. -/
def endState (mask newState : Status) : Telescope K :=
  s.maskState (mask ||| telMaskCorrecting ||| telMaskMoving ||| bopExposure)
    (newState ||| telNotCorrecting ||| telObserving)

/-- A move ended: the tracking goes on, and what waits is applied. -/
def moveEnded (a : Answers K) : Telescope K :=
  let s := s.startTracking false
  if a.endMove ≠ 0 then s.endState deviceErrorMask deviceErrorHw
  else if s.isWaiting then (s.startResyncMove s.waiting a).2
  else s.endState 0 0

def parkState (mask newState : Status) : Telescope K :=
  s.maskState (mask ||| telMaskMoving ||| bopExposure) (newState ||| telParked)

def parkEnded (a : Answers K) : Telescope K :=
  if a.endPark ≠ 0 then s.parkState deviceErrorMask deviceErrorHw else s.parkState 0 0

def checkMoving (a : Answers K) : Telescope K :=
  if s.moving = telMoving then
    if a.isMoving = -1 then s.endState deviceErrorMask deviceErrorHw
    else if a.isMoving = -2 then s.moveEnded a
    else s
  else if s.moving = telParking then
    if a.isParking = -1 then s.parkState deviceErrorMask deviceErrorHw
    else if a.isParking = -2 then s.parkEnded a
    else s
  else s

/-- `Telescope::checkMoves`. -/
def checkMoves (a : Answers K) : Telescope K :=
  let s := s.checkMoving a
  if s.state &&& telMaskOffseting = telOffseting ∧ a.isOffseting < 0 then
    s.maskState telMaskOffseting telNoOffseting
  else s

/-! ## Corrections -/

/-- The parameters of `correct`, and what the driver's `applyCorrectionsFixed` returns. -/
structure Correct (K : Type) where
  cor_mark : Int
  corr_img : Int
  corr_obs : Int
  img_id : Int
  obs_id : Int
  total_cor_ra : Option K
  total_cor_dec : Option K
  pos_err : Option K
  fixed : Int

/-- The comparison of C: false for `NAN`. -/
def less (x y : Option K) : Bool :=
  match x, y with
  | some x, some y => x < y
  | _, _ => false

/-- The correction is for this move and for images that were not corrected. -/
def upToDate (c : Correct K) : Bool :=
  c.cor_mark = s.moveNum ∧ c.corr_img = s.corrImgId ∧ c.corr_obs = s.corrObsId ∧
    (s.wCorrObsId < c.obs_id ∨ s.wCorrImgId < c.img_id)

def setWaiting (c : Correct K) : Telescope K :=
  { s with
    wcorrRaDec := s.wcorrRaDec.setValueRaDec c.total_cor_ra c.total_cor_dec
    wCorrImgId := c.img_id
    wCorrObsId := c.obs_id }

/-- A correction was answered with `DEVDEM_OK`. -/
def accept (c : Correct K) : Telescope K :=
  { s with history := s.history ++ [.accepted c.total_cor_ra c.total_cor_dec] }

/-- The command `correct`. -/
def correct (c : Correct K) : Int × Telescope K :=
  if c.fixed = 0 then (0, s.accept c)
  else if s.upToDate c then
    if less c.pos_err s.ignoreCorrection then (-1, s)
    else if less c.pos_err s.smallCorrection then (-1, s.setWaiting c)
    else (0, ((s.setWaiting c).accept c).maskState bopExposure bopExposure)
  else (-1, s)

/-- The command `synccorr`, when the driver's `setTo` returns `ret`. -/
def synccorr (ret : Int) : Telescope K :=
  if ret = 0 then
    { s with
      corrRaDec := s.corrRaDec.setValueRaDec (some 0) (some 0)
      wcorrRaDec := s.wcorrRaDec.setValueRaDec (some 0) (some 0)
      history := s.history ++ [.reset] }
  else s

/-! ## Requests -/

/-- The message a telescope gets; `move` is any of the commands for fixed coordinates, `X`
lines are named by their value. -/
inductive Op (K : Type) where
  | masterState (conn : ConnId) (new_state : Status)
  | fullBopState (new_state : Status)
  | move (ra dec : Option K)
  | moveMpec (str : List Char) (ok : Bool)
  | moveTle (l1 l2 : List Char) (ok : Bool)
  | altAz (target : Option (K × K))
  | resync (ra dec : Option K)
  | change (ra dec : Option K)
  | park
  | stop
  | wormStop
  | wormStart
  | synccorr (ret : Int)
  | correct (c : Correct K)
  | setTracking (track : Int)
  | setDefaultTracking (track : Int)
  | setBlockOnStandby (block : Bool)
  | setStandbyPark (park : Int)
  | setOri (ra dec : Option K)
  | setMpec (str : List Char) (ok : Bool)
  | setOffs (ra dec : Option K)
  | setWoffs (ra dec : Option K)
  | setTarAltAz (target : Option (K × K))
  | stopState (stop : Bool)
  | idle

/-- `Telescope::setValue` of the tracking. The new value, 0 to 3, is taken for a boolean. -/
def setTrackingValue (track : Int) : Telescope K :=
  if s.tracking = some track then s
  else if track = 1 ∧ (s.blockMove = true ∨ s.moving = telParking ∨ s.moving = telParked) then s
  else s.setTracking track true

def wormStart : Telescope K :=
  if s.blockMove = true ∨ s.moving = telParking ∨ s.moving = telParked then s
  else s.startTracking true

/-- The lines of a satellite. -/
def setTLE (l1 l2 : List Char) : Telescope K :=
  { s with
    tle_freeze := false
    mpec := s.mpec.setValueString []
    tle_l1 := s.tle_l1.setValueString l1
    tle_l2 := s.tle_l2.setValueString l2 }

def changeOffset (ra dec : Option K) : Telescope K :=
  { s with
    offsRaDec := s.offsRaDec.incValueRaDec ra dec
    woffsRaDec := s.woffsRaDec.incValueRaDec ra dec }

/-- The command `move_mpec`; the string is kept although it is no orbit. -/
def moveMpec (str : List Char) (ok : Bool) (a : Answers K) : Telescope K :=
  let s := { s with mpec := s.mpec.setValueString str }
  if ok then
    (trackAndMove { s with
      tle_l1 := s.tle_l1.setValueString []
      tle_l2 := s.tle_l2.setValueString [] } a).2
  else s

/-- The orbit of an `X` line. -/
def setMpecValue (str : List Char) (ok : Bool) (a : Answers K) : Telescope K :=
  if s.mpec.text ≠ str ∧ ok then
    (startResyncMove { s with mpec := s.mpec.setValueString str } 0 a).2
  else s

/-- The coordinates of an `X` line. -/
def setOriValue (ra dec : Option K) (a : Answers K) : Telescope K :=
  if s.oriRaDec.isEqual ra dec then s
  else (startResyncMove { s.setOri ra dec with mpec := s.mpec.setValueString [] } 0 a).2

/-- The offset of an `X` line. -/
def setOffsValue (ra dec : Option K) (a : Answers K) : Telescope K :=
  if s.offsRaDec.isEqual ra dec then s
  else (startResyncMove { s with offsRaDec := s.offsRaDec.setValueRaDec ra dec } 0 a).2

/-- The offset that is to wait, of an `X` line. -/
def setWoffsValue (ra dec : Option K) : Telescope K :=
  if s.woffsRaDec.isEqual ra dec then s
  else maskState { s with woffsRaDec := s.woffsRaDec.setValueRaDec ra dec } bopExposure bopExposure

def step (s : Telescope K) : Op K × Answers K → Telescope K
  | (.masterState conn new_state, a) => s.setMasterState conn new_state a
  | (.fullBopState new_state, a) => s.setFullBopState new_state a
  | (.move ra dec, a) => ((s.setOri ra dec).resetMpecTLE.trackAndMove a).2
  | (.moveMpec str ok, a) => s.moveMpec str ok a
  | (.moveTle l1 l2 ok, a) =>
    if ok then (((s.setTLE l1 l2).startTracking true).startResyncMove 0 a).2 else s
  | (.altAz target, a) => ((s.resetMpecTLE.stopTracking true).moveAltAz target a).2
  | (.resync ra dec, a) => ((s.setOri ra dec).resetMpecTLE.startResyncMove 0 a).2
  | (.change ra dec, a) => ((s.changeOffset ra dec).startResyncMove 1 a).2
  | (.park, a) => (s.startPark a).2
  | (.stop, _) => s.stopTracking true
  | (.wormStop, _) => s.stopTracking true
  | (.wormStart, _) => s.wormStart
  | (.synccorr ret, _) => s.synccorr ret
  | (.correct c, _) => (s.correct c).2
  | (.setTracking track, _) => s.setTrackingValue track
  | (.setDefaultTracking track, _) => { s with defaultTracking := track }
  | (.setBlockOnStandby block, _) => { s with blockOnStandby := block }
  | (.setStandbyPark park, _) => { s with standbyPark := park }
  | (.setOri ra dec, a) => s.setOriValue ra dec a
  | (.setMpec str ok, a) => s.setMpecValue str ok a
  | (.setOffs ra dec, a) => s.setOffsValue ra dec a
  | (.setWoffs ra dec, _) => s.setWoffsValue ra dec
  | (.setTarAltAz target, a) => (s.moveAltAz target a).2
  | (.stopState stop, _) => s.maskState stopMask (if stop then stopEverything else canMove)
  | (.idle, a) => s.checkMoves a

/-! ## A telescope -/

/-- A driver and a sky without troubles. -/
def fairAnswers : Answers ℚ where
  mpecPosition := (none, none)
  tlePosition := (none, none)
  stopMove := 0
  good := true
  decViolated := false
  startResync := 0
  startPark := 0
  isMoving := -2
  endMove := 0
  isParking := -2
  endPark := 0
  isOffseting := -1

/-- A telescope as it starts, under the master 0. -/
def newTelescope (blockMove : Bool) (tracking : Option Int) : Telescope ℚ where
  block := .start 0
  state := 0#32
  blockMove := blockMove
  blockOnStandby := false
  standbyPark := 0
  parkingBlockMove := true
  tracking := tracking
  defaultTracking := 1
  oriRaDec := ⟨none, none, false⟩
  mpec := ⟨[], false⟩
  tle_l1 := ⟨[], false⟩
  tle_l2 := ⟨[], false⟩
  tle_freeze := false
  offsRaDec := .zero
  woffsRaDec := .zero
  corrRaDec := .zero
  wcorrRaDec := .zero
  corrImgId := 0
  corrObsId := 0
  wCorrImgId := 0
  wCorrObsId := 0
  moveNum := 0
  ignoreCorrection := some 0
  defIgnoreCorrection := some 0
  smallCorrection := some 0
  issued := []
  history := []

end Telescope
end Rts2.Teld
