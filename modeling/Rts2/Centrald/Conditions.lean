import Rts2.Status
import Rts2.Lib.Run

/-! # The central daemon and the weather

`Centrald` keeps one connection for every client and device. Whenever a status
word that arrives changes the weather, the stop or the ready part, and whenever
a connection is gone, it decides anew from all connections and from the names in
`required_devices` whether the weather is good and the telescope may move. -/
namespace Rts2.Centrald
open Rts2.Lib

/-- `conn_type_t`, of the connections of `Centrald`. -/
inductive ConnType where
  | notDefinedServer
  | clientServer
  | deviceServer
  deriving DecidableEq, Repr

/-- `conn_state_t`, of the connections of `Centrald`. -/
inductive ConnState where
  | connConnected
  | connDelete
  deriving DecidableEq, Repr

/-- `ConnCentrald`. -/
structure ConnCentrald where
  centraldId : Nat
  type : ConnType
  name : String
  connState : ConnState
  serverState : Status
  deriving DecidableEq, Repr

/-- `new ConnCentrald`. -/
def ConnCentrald.new (centraldId : Nat) : ConnCentrald where
  centraldId := centraldId
  type := .notDefinedServer
  name := ""
  connState := .connConnected
  serverState := Status.deviceNotReady

def ConnCentrald.isGoodWeather (c : ConnCentrald) : Bool :=
  c.serverState &&& Status.weatherMask = Status.goodWeather

def ConnCentrald.canMove (c : ConnCentrald) : Bool :=
  c.serverState &&& Status.stopMask = Status.canMove

/-- One run of `weatherChanged`, for the record: what it decided from, and the
weather after it. -/
structure Check where
  requiredDevices : List String
  connections : List ConnCentrald
  goodWeather : Bool
  deriving DecidableEq, Repr

/-- `Centrald`. A socket just accepted waits in `connectionsAdded`. -/
structure Central where
  state : Status
  connNum : Nat
  connections : List ConnCentrald
  connectionsAdded : List ConnCentrald
  requiredDevices : List String
  badWeatherDevices : List String
  badWeatherReason : String
  badWeatherDevice : String
  checks : List Check
  deriving DecidableEq, Repr

def Central.start (state : Status) (requiredDevices : List String) : Central where
  state := state
  connNum := 0
  connections := []
  connectionsAdded := []
  requiredDevices := requiredDevices
  badWeatherDevices := []
  badWeatherReason := ""
  badWeatherDevice := ""
  checks := []

/-! ## Deciding -/

/-- One connection in the loop of `weatherChanged` and `stopChanged`: `failedArr`
starts with the required names, a connection in order takes its name out, and
one that is not puts its name in. -/
def checkConnection (inOrder : ConnCentrald → Bool) (failedArr : List String) (c : ConnCentrald) :
    List String :=
  if c.name ∈ failedArr then
    if inOrder c ∧ c.connState = .connConnected then failedArr.erase c.name else failedArr
  else if inOrder c = false then failedArr ++ [c.name]
  else failedArr

/-- `failedArr` after the loop. -/
def failedDevices (inOrder : ConnCentrald → Bool) (required : List String)
    (connections : List ConnCentrald) : List String :=
  connections.foldl (checkConnection inOrder) required

/-- `Daemon::maskState`. -/
def Central.maskState (s : Central) (mask new : Status) : Central :=
  { s with state := s.state &&& ~~~(Status.deviceErrorMask ||| mask) ||| new }

/-- `Daemon::setWeatherState`. -/
def Central.setWeatherState (s : Central) (goodWeather : Bool) : Central :=
  s.maskState Status.weatherMask (if goodWeather then Status.goodWeather else Status.badWeather)

/-- `Daemon::setStopState`. -/
def Central.setStopState (s : Central) (stopState : Bool) : Central :=
  s.maskState Status.stopMask (if stopState then Status.stopEverything else Status.canMove)

/-- The first bad weather is remembered with the device it came from. -/
def Central.recordReason (s : Central) (device : String) (msg : Option String) : Central :=
  if s.badWeatherReason = "" ∧ ∃ c ∈ s.connections, c.name = device ∧ c.isGoodWeather = false then
    { s with badWeatherReason := msg.getD "NULL", badWeatherDevice := device }
  else s

/-- `Centrald::weatherChanged`. -/
def Central.weatherChanged (s : Central) (device : String) (msg : Option String) : Central :=
  let failedArr := failedDevices ConnCentrald.isGoodWeather s.requiredDevices s.connections
  let s := { s.recordReason device msg with badWeatherDevices := failedArr }
  let s := s.setWeatherState failedArr.isEmpty
  let s := if failedArr = [] then { s with badWeatherReason := "", badWeatherDevice := "" } else s
  { s with checks := s.checks ++ [{
      requiredDevices := s.requiredDevices
      connections := s.connections
      goodWeather := decide (s.state &&& Status.weatherMask = Status.goodWeather) }] }

/-- `Centrald::stopChanged`. -/
def Central.stopChanged (s : Central) : Central :=
  let failedArr := failedDevices ConnCentrald.canMove s.requiredDevices s.connections
  s.setStopState !failedArr.isEmpty

/-- The part of `Centrald::bopMaskChanged` that stays: `bopState` is 0 when it is
masked in. -/
def Central.bopMaskChanged (s : Central) : Central := s.maskState Status.bopMask 0

/-! ## Connections -/

def Central.findConnection (s : Central) (id : Nat) : Option ConnCentrald :=
  s.connections.find? fun c => c.centraldId = id

/-- `Block::findName`. -/
def Central.findName (s : Central) (name : String) : Option ConnCentrald :=
  s.connections.find? fun c => c.name = name

def Central.setConnection (s : Central) (new : ConnCentrald) : Central :=
  { s with connections :=
      s.connections.map fun c => if c.centraldId = new.centraldId then new else c }

/-- `Daemon::addConnectionSock`. -/
def Central.addConnectionSock (s : Central) : Central :=
  { s with
    connNum := s.connNum + 1
    connectionsAdded := s.connectionsAdded ++ [.new (s.connNum + 1)] }

/-- The part of `Block::idle` that takes in the sockets accepted. -/
def Central.idle (s : Central) : Central :=
  { s with connections := s.connections ++ s.connectionsAdded, connectionsAdded := [] }

/-- The `login` command. -/
def Central.login (s : Central) (c : ConnCentrald) (name : String) : Central :=
  if c.type = .notDefinedServer then s.setConnection { c with name, type := .clientServer } else s

/-- The `register` command. -/
def Central.register (s : Central) (c : ConnCentrald) (regDevice : String) : Central :=
  if c.type = .notDefinedServer then
    if (s.findName regDevice).isSome then s
    else s.setConnection { c with name := regDevice, type := .deviceServer }
  else s

/-- `ServerState::maskValueChanged`. -/
def maskValueChanged (old new mask : Status) : Bool := new &&& mask ≠ old &&& mask

/-- `Centrald::deviceReady`. -/
def Central.deviceReady (s : Central) (name : String) : Central :=
  (s.weatherChanged name (some "device ready")).stopChanged

/-- `ConnCentrald::setState`. -/
def Central.setState (s : Central) (c : ConnCentrald) (value : Status) (msg : Option String) :
    Central :=
  let changed := maskValueChanged c.serverState value
  let s := s.setConnection { c with serverState := value }
  let s := if changed Status.deviceNotReady ∧ value &&& Status.deviceNotReady = 0 then
    s.deviceReady c.name else s
  let s := if changed Status.weatherMask then s.weatherChanged c.name msg else s
  let s := if changed Status.stopMask then s.stopChanged else s
  if changed Status.bopMask then s.bopMaskChanged else s

/-- `Connection::connectionError`. -/
def Central.connectionError (s : Central) (c : ConnCentrald) : Central :=
  s.setConnection { c with connState := .connDelete }

/-- `Block::deleteConnection` and `Centrald::connectionRemoved`. -/
def Central.removeConnection (s : Central) (c : ConnCentrald) : Central :=
  if c.connState = .connDelete then
    let s := { s with connections := s.connections.filter (·.centraldId ≠ c.centraldId) }
    ((s.weatherChanged c.name (some "connection removed")).stopChanged).bopMaskChanged
  else s

/-- `Centrald::weatherUpdate`, a command of devices. -/
def Central.weatherUpdate (s : Central) (c : ConnCentrald) (device update : String) : Central :=
  if c.type = .deviceServer ∧ device = s.badWeatherDevice then
    { s with badWeatherReason := update }
  else s

/-! ## Runs -/

/-- What a connection does. -/
inductive ConnEvent where
  | login (name : String)
  | register (regDevice : String)
  /-- an `S` line, or the state of a `B` or a progress line -/
  | status (value : Status) (msg : Option String)
  | weatherUpdate (device update : String)
  | connectionError
  | removed

inductive Event where
  | accept
  | idle
  | connection (id : Nat) (event : ConnEvent)
  /-- `required_devices` is written, or read from the configuration -/
  | requiredDevices (names : List String)
  /-- `maskCentralState`: the day goes on, or a user switches the system -/
  | maskState (mask new : Status)

def Central.connEvent (s : Central) (c : ConnCentrald) : ConnEvent → Central
  | .login name => s.login c name
  | .register regDevice => s.register c regDevice
  | .status value msg => s.setState c value msg
  | .weatherUpdate device update => s.weatherUpdate c device update
  | .connectionError => s.connectionError c
  | .removed => s.removeConnection c

def Central.step (s : Central) : Event → Central
  | .accept => s.addConnectionSock
  | .idle => s.idle
  | .connection id event =>
    match s.findConnection id with
    | none => s
    | some c => s.connEvent c event
  | .requiredDevices names => { s with requiredDevices := names }
  | .maskState mask new => s.maskState mask new

end Rts2.Centrald
