import Rts2.Lib.Run
import Rts2.Status

/-! # Exposures of a camera

Expose requests come while the chip is exposed or read out, while values wait to be
changed, while filter wheels and the focuser move and while other devices block
exposures. The camera counts the requests it cannot start in `que_exp_num`. -/
namespace Rts2.Status

def camMaskChip : Status := 0x0ff#32
def camMaskExpose : Status := 0x011#32
def camExposing : Status := 0x001#32
def camExposingNoim : Status := 0x010#32
def camShift : Status := 0x020#32
def camMaskShifting : Status := 0x020#32
def camMaskReading : Status := 0x002#32
def camReading : Status := 0x002#32
def camMaskFt : Status := 0x004#32
def camFt : Status := 0x004#32
def camMaskHasImage : Status := 0x008#32
def camHasImage : Status := 0x008#32

/-- One of the bits of `mask` is set. -/
def has (s mask : Status) : Bool := s &&& mask ≠ 0#32

end Rts2.Status

namespace Rts2.Camd
open Rts2.Lib Status

/-! ## The camera -/

/-- What the driver of the camera does: whether an exposure may begin while the one
before is read out, and what `startExposure` returns for an exposure. -/
structure Driver where
  supportFrameTransfer : Bool
  startExposure : Nat → Int

/-- A change of a value: the device states it has to wait for, and what moves when it is
carried out. -/
structure Change where
  condition : Status
  wheel : Option Nat
  focuser : Bool
  deriving DecidableEq

/-- An expose command: the connection, and whether blocks are cared for. -/
structure Request where
  conn : Nat
  careBlock : Bool
  deriving DecidableEq, Repr

/-- What an exposure finds when the driver starts it, and the request it is for. -/
structure Start where
  request : Option Request
  light : Bool
  filterMoving : Bool
  focuserMoving : Bool
  blocked : Bool
  deriving DecidableEq, Repr

/-- The fields of `Camera` an exposure depends on. `bopState` is the BOP state the
connection to the central daemon was told last; `light` is `!expType` or a SHUTTER of
0. `requests` and `starts` are kept as a record: the expose commands that were neither
started nor cleared, in their order, and the exposures. -/
structure Camera where
  state : Status
  fullBopState : Status
  bopState : Status
  masterState : Status
  queValues : List Change
  quedExpNumber : Int
  waitingForEmptyQue : Bool
  waitingForNotBop : Bool
  exposureConn : Option Nat
  lastCareBlock : Bool
  moving : List Nat
  focuserMoving : Bool
  light : Bool
  exposureNumber : Nat
  requests : List Request
  starts : List Start

/-- A camera nothing was asked of. -/
def Camera.start : Camera where
  state := 0#32
  fullBopState := 0#32
  bopState := 0#32
  masterState := 0#32
  queValues := []
  quedExpNumber := 0
  waitingForEmptyQue := false
  waitingForNotBop := false
  exposureConn := none
  lastCareBlock := true
  moving := []
  focuserMoving := false
  light := true
  exposureNumber := 0
  requests := []
  starts := []

/-- `Camera::filterMoving` -/
def Camera.filterMoving (s : Camera) : Bool := !s.moving.isEmpty

/-- BOP_EXPOSURE is set, by a device or by the central daemon. -/
def Camera.blocked (s : Camera) : Bool :=
  s.bopState.has bopExposure || s.masterState.has bopExposure

/-- The chip is in use: no exposure can begin. -/
def Driver.busy (d : Driver) (chipState : Status) : Bool :=
  chipState.has camExposing || chipState.has camExposingNoim ||
    (chipState.has camReading && !d.supportFrameTransfer)

/-! ## Changes of values -/

/-- `Daemon::queValueChange` -/
def Change.queValueChange (c : Change) (fakeState : Status) : Bool := c.condition.has fakeState

/-- `Camera::setValue`: a filter or the focuser begins to move. -/
def Change.carryOut (c : Change) (s : Camera) : Camera :=
  { s with
    moving := s.moving ++ c.wheel.toList
    focuserMoving := s.focuserMoving || c.focuser }

/-- The queued changes a state lets through are carried out, in their order. -/
def Camera.release (s : Camera) (fakeState : Status) : Camera :=
  (s.queValues.filter fun c => !c.queValueChange fakeState).foldl (fun s c => c.carryOut s)
    { s with queValues := s.queValues.filter (·.queValueChange fakeState) }

/-- `Camera::maskQueValueBopState`, for all queued changes. -/
def Camera.maskQueValueBopState (s : Camera) (newState : Status) : Status :=
  s.queValues.foldl (fun newState c =>
    newState ||| (if c.condition.has camExposing then bopExposure else 0#32) |||
      (if c.condition.has camReading then bopReadout else 0#32)) newState

/-! ## Bookkeeping -/

def Camera.inc (s : Camera) : Camera := { s with quedExpNumber := s.quedExpNumber + 1 }

def Camera.dec (s : Camera) : Camera := { s with quedExpNumber := s.quedExpNumber - 1 }

/-- An expose command arrives. -/
def Camera.ask (s : Camera) (r : Request) : Camera := { s with requests := s.requests ++ [r] }

/-- `incExposureNumber`: the exposure is for the request that waits longest. -/
def Camera.incExposureNumber (s : Camera) : Camera :=
  { s with exposureNumber := s.exposureNumber + 1, requests := s.requests.tail }

/-- The driver starts an exposure. -/
def Camera.exposed (s : Camera) (request : Option Request) : Camera :=
  { s with starts := s.starts ++
      [⟨request, s.light, s.filterMoving, s.focuserMoving, s.blocked⟩] }

/-- A kill or the end of a script clears the requests that are counted. -/
def Camera.clear (s : Camera) : Camera :=
  { s with requests := s.requests.drop s.quedExpNumber.toNat }

/-! ## States

Every change of the device state looks for queued changes it lets through, which may
start a waiting exposure, which changes the state. `chk` is that `checkQueChanges`. -/

/-- `masked_state`: errors do not outlast a change of the state. -/
def maskedState (state mask newState : Status) : Status :=
  (state &&& ~~~(deviceErrorMask ||| mask)) ||| newState

section
variable (d : Driver) (chk : Camera → Status → Camera)

/-- `Daemon::setState` with `Device::stateChanged`. -/
def Camera.setStateWith (s : Camera) (newState : Status) : Camera :=
  if s.state = newState then s else chk { s with state := newState } newState

/-- `Daemon::maskState` -/
def Camera.maskStateWith (s : Camera) (mask newState : Status) : Camera :=
  s.setStateWith chk (maskedState s.state mask newState)

/-- `Camera::camStartExposureWithoutCheck` -/
def Camera.camStartExposureWithoutCheckWith (s : Camera) : Int × Camera :=
  let request := s.requests.head?
  let s := s.incExposureNumber
  let s := s.maskStateWith chk bopTelMove bopTelMove
  let s := s.exposed request
  let ret := d.startExposure s.exposureNumber
  if ret = 0 ∨ ret = 1 then
    let exposing := if ret = 0 then camExposing else camExposing ||| camExposingNoim
    (0, s.maskStateWith chk (camMaskExpose ||| bopTelMove ||| bopWillExpose ||| camMaskHasImage)
      (exposing ||| bopTelMove))
  else (ret, s.maskStateWith chk bopTelMove 0#32)

/-- `Camera::setFullBopState` -/
def Camera.setFullBopStateWith (s : Camera) (newState : Status) : Camera :=
  let s := { s with fullBopState := s.maskQueValueBopState newState }
  if newState.has bopExposure = false ∧ 0 < s.quedExpNumber ∧ s.waitingForNotBop then
    if newState.has bopTrigExpose ∧ s.state.has bopWillExpose = false then
      s.maskStateWith chk bopWillExpose bopWillExpose
    -- do not start if already exposing
    else if s.state.has camExposing ∨ (d.supportFrameTransfer = false ∧ s.state.has camReading) then
      s
    else
      ({ s with waitingForNotBop := false }.dec.camStartExposureWithoutCheckWith d chk).2
  else s

end

/-- The end of `Camera::checkQueChanges`: the request that waited for an empty queue is
counted. -/
def Camera.endWaitingForEmptyQue (s : Camera) : Camera :=
  if s.queValues = [] ∧ s.waitingForEmptyQue then
    let s := { s with waitingForEmptyQue := false }
    if s.exposureConn.isSome then { s.inc with waitingForNotBop := true } else s
  else s

/-- `Camera::checkQueChanges` with `Device::checkQueChanges`, `bop` being
`setFullBopState`. -/
def Camera.checkQueChangesWith (bop : Camera → Status → Camera) (s : Camera)
    (fakeState : Status) : Camera :=
  if 0 < s.quedExpNumber ∧ fakeState.has (camExposing ||| camReading) then s
  else
    let fakeState := fakeState ||| (s.fullBopState &&& bopTrigExpose)
    let changed := s.queValues.any fun c => !c.queValueChange fakeState
    let s := s.release fakeState
    (if changed then bop s fakeState else s).endWaitingForEmptyQue

/-- A change that starts an exposure has left the queue, so that the queue is shorter
in the next turn. -/
def checkQueChangesFuel (d : Driver) : Nat → Camera → Status → Camera
  | 0, s, _ => s
  | n + 1, s, fakeState =>
    s.checkQueChangesWith (Camera.setFullBopStateWith d (checkQueChangesFuel d n)) fakeState

section
variable (d : Driver) (s : Camera)

/-- `Camera::checkQueChanges` -/
def Camera.checkQueChanges (fakeState : Status) : Camera :=
  checkQueChangesFuel d (s.queValues.length + 1) s fakeState

/-- `Daemon::maskState` -/
def Camera.maskState (mask newState : Status) : Camera :=
  s.maskStateWith (Camera.checkQueChanges d) mask newState

/-- `Camera::camStartExposureWithoutCheck` -/
def Camera.camStartExposureWithoutCheck : Int × Camera :=
  s.camStartExposureWithoutCheckWith d (Camera.checkQueChanges d)

/-- `Camera::setFullBopState` -/
def Camera.setFullBopState (newState : Status) : Camera :=
  s.setFullBopStateWith d (Camera.checkQueChanges d) newState

/-! ## Requests -/

/-- `Camera::camStartExposure` -/
def Camera.camStartExposure (careBlock : Bool) : Int × Camera :=
  let exposure := s.fullBopState.has bopExposure || s.masterState.has bopExposure
  let trig := s.fullBopState.has bopTrigExpose || s.masterState.has bopTrigExpose
  if careBlock ∧ s.light ∧ (exposure || trig || s.filterMoving || s.focuserMoving) then
    let s := { s.inc with waitingForNotBop := true }
    (0, if exposure = false ∧ trig then s.maskState d bopWillExpose bopWillExpose else s)
  else
    let s := if s.light = false ∧ trig then s.maskState d bopWillExpose bopWillExpose else s
    s.camStartExposureWithoutCheck d

/-- `Camera::camExpose` -/
def Camera.camExpose (conn : Option Nat) (chipState : Status) (fromQue careBlock : Bool) :
    Int × Camera :=
  if d.busy chipState ∨ (s.queValues ≠ [] ∧ fromQue = false) then
    if fromQue = false ∧ s.queValues = [] then (0, s.inc)
    -- need to wait to empty que of value changes
    else (-1, { s with waitingForEmptyQue := true })
  else
    let s := if 0 < s.quedExpNumber then s.dec else s
    { s with exposureConn := conn }.camStartExposure d careBlock

/-- `Camera::getStateChip (0)` -/
def Camera.getStateChip : Status := s.state &&& camMaskChip

/-- The chip is taken for free, and the next request from the queue. -/
def Camera.camExposeNext : Camera :=
  (s.camExpose d s.exposureConn (s.getStateChip &&& ~~~camMaskExpose) true s.lastCareBlock).2

/-- `Camera::checkQueuedExposures` -/
def Camera.checkQueuedExposures : Camera :=
  if 0 < s.quedExpNumber then
    (s.dec.camExpose d s.exposureConn s.getStateChip false s.lastCareBlock).2
  else s

/-- `Camera::stopExposure` -/
def Camera.stopExposure : Camera := { s with quedExpNumber := 0 }

/-! ## Ends of exposures and readouts -/

/-- `Camera::camReadout`; `opened` tells whether the data connection of the image could
be opened. -/
def Camera.camReadout (opened : Bool) : Camera :=
  let s :=
    if 0 < s.quedExpNumber ∧ s.exposureConn.isSome ∧ d.supportFrameTransfer then
      let s := s.checkQueChanges d (s.getStateChip &&& ~~~(camExposing ||| camExposingNoim))
      let s := s.maskState d (camMaskReading ||| camMaskFt) (camReading ||| camFt)
      if s.queValues = [] then s.camExposeNext d else s
    else s.maskState d (camMaskExpose ||| camMaskReading ||| bopTelMove) camReading
  if opened then s
  else s.maskState d (deviceErrorMask ||| camMaskShifting ||| camMaskReading) deviceErrorHw

/-- `Camera::endExposure` -/
def Camera.endExposure (ret : Int) (opened : Bool) : Camera :=
  if s.exposureConn.isSome then s.camReadout d opened
  else
    let used := s.getStateChip.has (camExposing ||| camExposingNoim ||| camShift)
    if used ∧ ret = -5 then s
    else
      let s := if used ∧ ret ≠ -4 then s.stopExposure else s
      s.stopExposure.maskState d (camMaskExpose ||| camMaskShifting ||| camMaskReading |||
        camMaskFt ||| bopTelMove ||| bopWillExpose) 0#32

/-- `Camera::checkExposures`; `ret` is what `isExposing` returned. -/
def Camera.checkExposures (ret : Int) (opened : Bool) : Camera :=
  let finished := camMaskExpose ||| camMaskFt ||| bopTelMove
  if s.getStateChip.has (camExposing ||| camExposingNoim) = false then s
  else if ret = -5 then (s.endExposure d ret opened).maskState d finished 0#32
  else if ret = -4 then
    let s := ({ s with exposureConn := none }.endExposure d ret opened).maskState d finished 0#32
    if 0 < s.quedExpNumber then s.camExposeNext d else s
  else if ret = -3 then { s with exposureConn := none }.endExposure d ret opened
  else if ret = -2 then
    let expNum := s.exposureNumber
    let s := s.endExposure d ret opened
    if expNum = s.exposureNumber then s.maskState d finished 0#32
    else s.maskState d camMaskFt 0#32
  else if ret = -1 then
    let s := (s.maskState d (deviceErrorMask ||| camMaskExpose ||| camMaskShifting |||
      camMaskReading ||| bopTelMove) deviceErrorHw).stopExposure
    if 0 < s.quedExpNumber then s.camExposeNext d else s
  else s

/-- `Camera::endReadout` -/
def Camera.endReadout : Camera :=
  if 0 < s.quedExpNumber ∧ s.exposureConn.isSome then
    (s.camExpose d s.exposureConn (s.getStateChip &&& camMaskExpose) true s.lastCareBlock).2
  else s

/-- `Camera::checkReadouts`; `ret` is what `doReadout` returned. -/
def Camera.checkReadouts (ret : Int) : Camera :=
  if s.getStateChip &&& camMaskReading ≠ camReading ∨ 0 ≤ ret then s
  else if ret = -2 then
    (s.endReadout d).maskState d (camMaskShifting ||| camMaskReading ||| camMaskHasImage)
      camHasImage
  else
    (s.endReadout d).maskState d (deviceErrorMask ||| camMaskShifting ||| camMaskReading)
      deviceErrorHw

/-! ## Kills -/

/-- `Camera::scriptEnds` -/
def Camera.scriptEnds : Camera := s.clear.stopExposure.maskState d deviceErrorKill 0#32

def camIdleMask : Status :=
  camMaskExpose ||| camMaskShifting ||| camMaskReading ||| camMaskFt ||| bopTelMove |||
    bopWillExpose ||| deviceErrorKill

/-- `Camera::killAll`, with `Device::killAll` -/
def Camera.killAll (callScriptEnds : Bool) : Camera :=
  let s := { s with
    waitingForNotBop := false
    waitingForEmptyQue := false
    moving := []
    requests := [] }
  let s := s.stopExposure.maskState d camIdleMask deviceErrorKill
  let s := { s with queValues := [] }
  let s := if callScriptEnds then s.scriptEnds d else s
  s.maskState d (deviceErrorKill ||| deviceErrorHw ||| deviceNotReady) deviceErrorKill

/-- The command `stopexpo` -/
def Camera.stopexpo : Camera :=
  s.clear.stopExposure.maskState d camIdleMask deviceErrorKill

end

/-! ## Runs -/

/-- What a camera is told: an expose command, with or without checks; the BOP state and
the master state; a change of a value, or of SHUTTER; a filter wheel or the focuser
that has arrived; the answers of the driver when `idle` asks it about the exposure and
the readout; kills, the end of a script, `stopexpo`, and a connection that goes. -/
inductive Event where
  | expose (conn : Nat) (careBlock : Bool)
  | bop (newState : Status)
  | master (newState : Status)
  | change (c : Change)
  | shutter (light : Bool)
  | filterMoveEnd (wheel : Nat)
  | focuserEndMove
  | exposing (ret : Int) (opened : Bool)
  | reading (ret : Int)
  | killAll (callScriptEnds : Bool)
  | scriptEnds
  | stopexpo
  | deleteConnection (conn : Nat)

def step (d : Driver) (s : Camera) : Event → Camera
  | .expose conn careBlock =>
    (({ s with lastCareBlock := careBlock }.ask ⟨conn, careBlock⟩).camExpose d (some conn)
      s.getStateChip false careBlock).2
  | .bop newState => { s with bopState := newState }.setFullBopState d newState
  | .master newState => { s with masterState := newState }
  | .change c =>
    if c.queValueChange s.state then { s with queValues := s.queValues ++ [c] } else c.carryOut s
  | .shutter light => { s with light := light }
  | .filterMoveEnd wheel =>
    let s := { s with moving := s.moving.filter (· ≠ wheel) }
    if s.filterMoving then s else s.checkQueuedExposures d
  | .focuserEndMove =>
    if s.focuserMoving then { s with focuserMoving := false }.checkQueuedExposures d else s
  | .exposing ret opened => s.checkExposures d ret opened
  | .reading ret => s.checkReadouts d ret
  | .killAll callScriptEnds => s.killAll d callScriptEnds
  | .scriptEnds => s.scriptEnds d
  | .stopexpo => s.stopexpo d
  | .deleteConnection conn =>
    if s.exposureConn = some conn then { s with exposureConn := none } else s

end Rts2.Camd
