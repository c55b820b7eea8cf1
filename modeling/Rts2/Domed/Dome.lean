import Mathlib.Data.Rat.Floor
import Mathlib.Order.Lattice
import Rts2.Lib.Run
import Rts2.Status

/-! # The dome

A dome opens and closes on commands, with the state of the master and with the weather. Its
driver says how far it is. It publishes where it is in its state, and it votes for good
weather once `next_open` has passed. Times are the doubles of the source as rationals. -/
namespace Rts2.Status

def domeDomeMask : Status := 0x01f#32
def domeUnknow : Status := 0x000#32
def domeClosed : Status := 0x001#32
def domeOpening : Status := 0x002#32
def domeOpened : Status := 0x004#32
def domeClosing : Status := 0x008#32
def domeWaitClosing : Status := 0x010#32

def domeStoppedMask : Status := 0x020#32
def domeStopped : Status := 0x020#32

def serverdUnknow : Status := 13#32

end Rts2.Status

namespace Rts2.Domed
open Rts2.Lib Status

/-! ## Data -/

/-- What the driver answers. -/
structure Driver where
  isOpened : Int
  isClosed : Int
  startOpen : Int
  startClose : Int
  stop : Int

/-- A command sent to the masters. -/
inductive ToMasters where
  | standby
  | on
  deriving DecidableEq

/-- A vote for good weather, with the times requested so far. -/
structure Vote where
  now : ℚ
  requested : List ℚ
  deriving DecidableEq

/-- `retry` is the time `EVENT_DOMECLOSE_RETRY` is due. The last four fields are records: the
commands to the masters, whether a movement has started since the dome was stopped, the
times before which it is not to open, and its votes for good weather. -/
structure Dome where
  now : ℚ
  state : Status
  masterState : Status
  weatherOpensDome : Bool
  domeAutoClose : Option Bool
  ignoreTimeout : ℚ
  nextGoodWeather : ℚ
  closeRepeatTimeAfterPark : ℚ
  centraldLastContactTime : ℚ
  initialSettleTime : ℚ
  retry : Option ℚ
  sent : List ToMasters
  moved : Bool
  requested : List ℚ
  votes : List Vote

/-- The options of the program, and what the driver passes to the constructor. -/
structure Options where
  weatherOpens : Bool
  inhibitAutoClose : Bool
  ignoreTimeout : Option Int
  donotclose : Bool

/-- The dome after `init`. The state is 0, unless `init` of the driver writes one. -/
def Dome.create (o : Options) (now : ℚ) (state : Status) : Dome where
  now := now
  state := state
  masterState := 0
  weatherOpensDome := o.weatherOpens
  domeAutoClose := if o.inhibitAutoClose then some false else none
  ignoreTimeout :=
    match o.ignoreTimeout with
    | some seconds => now + seconds
    | none => 0
  nextGoodWeather := if o.donotclose then now - 300 else now + 10
  closeRepeatTimeAfterPark := 3
  centraldLastContactTime := now
  initialSettleTime := now + 12
  retry := none
  sent := []
  moved := false
  requested := []
  votes := []

namespace Dome
variable (s : Dome)

/-! ## State -/

/-- `Daemon::maskState`; errors do not outlast a change of the state. -/
def maskState (mask newState : Status) : Dome :=
  { s with state := (s.state &&& ~~~(deviceErrorMask ||| mask)) ||| newState }

def setWeatherState (good : Bool) : Dome :=
  s.maskState weatherMask (if good then goodWeather else badWeather)

def domeState : Status := s.state &&& domeDomeMask

def getIgnoreMeteo : Bool := s.now < s.ignoreTimeout

/-- `centralds` is `Device::isGoodWeather`: all masters are connected and have good weather. -/
def isGoodWeather (centralds : Bool) : Bool :=
  s.getIgnoreMeteo || (centralds && !(s.now < s.nextGoodWeather))

/-- The dome follows the masters. -/
def autoClose : Bool := s.domeAutoClose.getD true

/-! ## Movements -/

def domeOpenStart (d : Driver) (centralds : Bool) : Int × Dome :=
  let s := { s with retry := none }
  if d.isOpened = -2 then
    (0, s.maskState (domeDomeMask ||| bopExposure ||| deviceBlockOpen ||| deviceBlockClose)
      (domeOpened ||| deviceBlockClose))
  else if s.isGoodWeather centralds = false then (-1, s)
  else if d.startOpen ≠ 0 then (-1, s)
  else
    (0, { s.maskState (domeDomeMask ||| bopExposure ||| deviceBlockOpen ||| deviceBlockClose)
        (domeOpening ||| bopExposure ||| deviceBlockOpen ||| deviceBlockClose) with
      moved := true })

def domeCloseStart (d : Driver) : Int × Dome :=
  let s := { s with retry := none }
  if d.isClosed = -2 then
    (0, s.maskState (domeDomeMask ||| deviceBlockOpen ||| deviceBlockClose)
      (domeClosed ||| deviceBlockOpen))
  else if d.startClose < 0 then (-1, s)
  else if 0 < d.startClose then
    (0, { s.maskState (domeDomeMask ||| bopExposure) domeWaitClosing with
      retry := some (s.now + s.closeRepeatTimeAfterPark) })
  else
    (0, { s.maskState (domeDomeMask ||| bopExposure ||| deviceBlockOpen ||| deviceBlockClose)
        (domeClosing ||| deviceBlockOpen ||| deviceBlockClose) with
      moved := true })

def domeStop (d : Driver) : Int × Dome :=
  let s := { s with retry := none }
  if d.stop < 0 then (-1, s)
  else (0, { s.maskState domeStoppedMask domeStopped with moved := false })

/-- Both ends of a movement are published alike, whether the driver reports success or not. -/
def checkOpening (d : Driver) : Dome :=
  if s.domeState = domeOpening then
    if d.isOpened = -1 ∨ d.isOpened = -2 then
      s.maskState (domeDomeMask ||| bopExposure ||| deviceBlockOpen ||| deviceBlockClose)
        (domeOpened ||| deviceBlockClose)
    else s
  else if s.domeState = domeClosing then
    if d.isClosed = -1 ∨ d.isClosed = -2 then
      s.maskState (domeDomeMask ||| deviceBlockOpen ||| deviceBlockClose)
        (domeClosed ||| deviceBlockOpen)
    else s
  else s

/-! ## The masters -/

def setMasterStandby : Dome :=
  if s.masterState.onoff = serverdOn ∧ s.masterState &&& serverdStatusMask ≠ serverdUnknow then
    { s with sent := .standby :: s.sent }
  else s

def setMasterOn : Dome :=
  if s.masterState.onoff = serverdStandby then { s with sent := .on :: s.sent } else s

def observing (d : Driver) (centralds : Bool) : Dome :=
  if s.autoClose then (s.domeOpenStart d centralds).2 else s

def standby (d : Driver) : Dome :=
  let s := { s with ignoreTimeout := s.now - 1 }
  if s.autoClose then (s.domeCloseStart d).2 else s

def off (d : Driver) : Dome :=
  let s := { s with ignoreTimeout := s.now - 1 }
  if s.autoClose then (s.domeCloseStart d).2 else s

/-- What `changeMasterState` calls. -/
inductive MasterCall where
  | ignored
  | observing
  | standby
  | off
  deriving DecidableEq

def masterCall (oldState newState : Status) : MasterCall :=
  if oldState &&& weatherMask = goodWeather ∧ newState &&& weatherMask = badWeather ∧
      s.getIgnoreMeteo then .ignored
  else
    let status := newState &&& serverdStatusMask
    if newState.onoff = serverdStandby then
      if status ∈ [serverdEvening, serverdDusk, serverdNight, serverdDawn] then .standby else .off
    else if newState.onoff ≠ serverdOn then .off
    else if status ∈ [serverdDusk, serverdNight, serverdDawn] then .observing
    else if status ∈ [serverdEvening, serverdMorning] then .standby
    else .off

def changeMasterState (oldState newState : Status) (d : Driver) (centralds : Bool) : Dome :=
  match s.masterCall oldState newState with
  | .ignored => s
  | .observing => s.observing d centralds
  | .standby => s.standby d
  | .off => s.off d

/-- The state comes from a connection which is not the one to the master. -/
def ignoresState (newState : Status) : Bool :=
  (newState.onoff ≠ serverdHardOff && newState &&& weatherMask ≠ badWeather &&
    newState.onoff ≠ serverdStandby) ||
  (s.masterState.onoff = serverdHardOff && newState.onoff = serverdStandby)

/-- The change of the master state calls `changeMasterState`: something besides the blocks of
operations changed. -/
def masterChanges (newState : Status) (fromMaster : Bool) : Bool :=
  (fromMaster || !s.ignoresState newState) && s.masterState &&& ~~~bopMask ≠ newState &&& ~~~bopMask

/-- `Block::setMasterState` -/
def setMasterState (newState : Status) (fromMaster : Bool) (d : Driver) (centralds : Bool) :
    Dome :=
  let oldState := s.masterState
  if fromMaster || !s.ignoresState newState then
    if s.masterChanges newState fromMaster then
      { s with masterState := newState }.changeMasterState oldState newState d centralds
    else { s with masterState := newState }
  else s

/-! ## Weather -/

def closeDomeWeather (d : Driver) : Int × Dome :=
  if s.getIgnoreMeteo = false then
    if s.autoClose then
      let (ret, s) := s.domeCloseStart d
      (ret, s.setMasterStandby)
    else (0, s.setMasterStandby)
  else (0, s)

def voteGood : Dome :=
  { s.setWeatherState true with votes := ⟨s.now, s.requested⟩ :: s.votes }

def contact (allCentraldRunning : Bool) : Dome :=
  if allCentraldRunning then { s with centraldLastContactTime := s.now } else s

/-- The last part of `idle`: the vote of the dome. -/
def updateWeather (allCentraldRunning : Bool) : Dome :=
  let s := s.contact allCentraldRunning
  if (allCentraldRunning ∨ s.now < s.centraldLastContactTime + 10) ∧ s.nextGoodWeather < s.now then
    s.voteGood
  else s.setWeatherState false

/-- `idle`, in one moment; `check` is what the driver answers to `checkOpening`. -/
def idle (check d : Driver) (centralds allCentraldRunning : Bool) : Dome :=
  if s.now < s.initialSettleTime then s
  else
    let s := s.checkOpening check
    let s :=
      if s.isGoodWeather centralds then
        if s.weatherOpensDome ∧ s.masterState.onoff = serverdStandby then s.setMasterOn else s
      else (s.closeDomeWeather d).2
    s.updateWeather allCentraldRunning

/-- `(int) value`; outside the range of an `int` the result is not specified. -/
def getValueInteger (unspecified : ℚ → Int) (value : ℚ) : Int :=
  if -2147483649 < value ∧ value < 2147483648 then value.num.tdiv value.den else unspecified value

/-- The time is kept as an `int`. -/
def setWeatherTimeout (unspecified : ℚ → Int) (wait_time : Int) : Dome :=
  let next := s.now.floor + wait_time
  let s := { s with requested := (next : ℚ) :: s.requested }
  if getValueInteger unspecified s.nextGoodWeather < next then
    { s.setWeatherState false with nextGoodWeather := (next.bmod 4294967296 : ℤ) }
  else s

/-- The command `close_for`. -/
def closeFor (next_good : ℚ) (d : Driver) : Int × Dome :=
  if next_good < 0 then (-2, s)
  else
    let s :=
      { s with
        nextGoodWeather := s.now + next_good
        requested := (s.now + next_good) :: s.requested }
    let (ret, s) := s.domeCloseStart d
    (if ret = 0 then 0 else -2, s)

/-! ## Steps -/

/-- The timer `EVENT_DOMECLOSE_RETRY` has run out. -/
def retryDue : Bool := s.retry.any fun due => due < s.now

def postRetry (d : Driver) : Dome :=
  if s.retryDue then ({ s with retry := none }.domeCloseStart d).2 else s

end Dome

/-- What comes to the dome. -/
inductive Input where
  | clock (t : ℚ)
  | open (d : Driver) (centralds : Bool)
  | close (d : Driver)
  | stop (d : Driver)
  | closeFor (next_good : ℚ) (d : Driver)
  | resetNext
  | retry (d : Driver)
  | masterState (newState : Status) (fromMaster : Bool) (d : Driver) (centralds : Bool)
  | idle (check d : Driver) (centralds allCentraldRunning : Bool)
  | setWeatherTimeout (wait_time : Int)
  | setIgnoreTimeout (ignore_time : Int)
  /-- The values that can be written. -/
  | setValues (weatherOpensDome domeAutoClose : Bool)
    (ignoreTimeout closeRepeatTimeAfterPark : ℚ)

variable (unspecified : ℚ → Int)

/-- One step. The clock does not go back. -/
def Dome.step (s : Dome) : Input → Dome
  | .clock t => { s with now := max s.now t }
  | .open d centralds => (s.domeOpenStart d centralds).2
  | .close d => (s.domeCloseStart d).2
  | .stop d => (s.domeStop d).2
  | .closeFor next_good d => (s.closeFor next_good d).2
  | .resetNext => { s with nextGoodWeather := s.now - 1 }
  | .retry d => s.postRetry d
  | .masterState newState fromMaster d centralds => s.setMasterState newState fromMaster d centralds
  | .idle check d centralds allCentraldRunning => s.idle check d centralds allCentraldRunning
  | .setWeatherTimeout wait_time => s.setWeatherTimeout unspecified wait_time
  | .setIgnoreTimeout ignore_time => { s with ignoreTimeout := s.now + ignore_time }
  | .setValues weatherOpensDome domeAutoClose ignoreTimeout closeRepeatTimeAfterPark =>
    { s with
      weatherOpensDome
      domeAutoClose := s.domeAutoClose.map fun _ => domeAutoClose
      ignoreTimeout
      closeRepeatTimeAfterPark }

end Rts2.Domed
