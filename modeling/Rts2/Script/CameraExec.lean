import Rts2.Connection.CommandQue
import Rts2.Script.DevScript

/-! # The camera that runs a script

`DevClientCameraExec` takes a command from the script, finds the connections it is for, and
keeps it as `nextComd` until the camera may get it. The calls of `DevScript` are those of
its machine; the calls of the camera stand between them on one stack. A connection is a
pointer, given by its number. -/
namespace Rts2.Script.Camera
open Rts2.CommandQue (bopWhileState)
open Rts2.Lib
open Rts2.Script.Dev (DevScript NextCommand Target Targets)

abbrev Name := List Char

/-! ## Commands and connections -/

/-- The masks the elements of a script set: a box, a center or a change of coordinates, a
value, a value with `!`, and an exposure. -/
def elementMasks : List Status :=
  [0#32, Status.bopTelMove, Status.bopTelMove ||| bopWhileState, Status.bopExposure]

/-- A command of the script, and the device it is for. -/
structure Command where
  bopMask : Status
  device : Name
  element : bopMask ∈ elementMasks

def has (mask bits : Status) : Bool := mask &&& bits ≠ 0#32

def Command.exposure (c : Command) : Bool := has c.bopMask Status.bopExposure

def Command.telMove (c : Command) : Bool := has c.bopMask Status.bopTelMove

def Command.whileState (c : Command) : Bool := has c.bopMask bopWhileState

structure Connection where
  number : Nat
  name : Name
  otherType : Nat
  deriving DecidableEq

def deviceTypeUnknow : Nat := 0
def deviceTypeMount : Nat := 2
def deviceTypeCcd : Nat := 3
def deviceTypeRotator : Nat := 5
def deviceTypePhot : Nat := 7
def deviceTypeFocus : Nat := 10
def deviceTypeMirror : Nat := 11
def deviceTypeFw : Nat := 16

/-- The type a name of two characters that ends with X stands for. -/
def typeOfLetter : Char → Nat
  | 'C' => deviceTypeCcd
  | 'T' => deviceTypeMount
  | 'F' => deviceTypeFocus
  | 'W' => deviceTypeFw
  | 'R' => deviceTypeRotator
  | 'P' => deviceTypePhot
  | 'M' => deviceTypeMirror
  | _ => deviceTypeUnknow

/-- The connections a name stands for. -/
def named (connections : List Connection) : Name → List Nat
  | [letter, 'X'] =>
    (connections.filter (·.otherType = typeOfLetter letter)).map (·.number)
  | device => ((connections.find? (·.name = device)).map (·.number)).toList

/-- `nextComd`, with the connections if it is for other devices. Those left from an earlier
command are not read. -/
structure NextComd where
  number : Nat
  command : Command
  cmdConns : List Nat

/-- The connection of the camera. -/
def ownConn : Nat := 0

def NextComd.targets (comd : NextComd) : List Nat :=
  if comd.cmdConns = [] then [ownConn] else comd.cmdConns

/-! ## What is observed -/

/-- A command the script gave, with the script it is from and the connections it is for. -/
structure Emission where
  number : Nat
  script : Int
  conns : List Nat

/-- A call of `queCommand`: whether the connection was still there, whether the target was
moved, and whether an exposure command waited for its exposure to start. -/
structure Queued where
  number : Nat
  conn : Nat
  bopMask : Status
  connected : Bool
  moved : Bool
  waiting : Bool

def Queued.exposure (q : Queued) : Bool := has q.bopMask Status.bopExposure

/-! ## The machine -/

inductive Event where
  /-- An event of `DevScript`. -/
  | script (event : Dev.Event)
  | commandOK (killCommand : Bool)
  /-- `EVENT_COMMAND_FAILED`, of the exposure command that waits or of another one. -/
  | commandFailed (waited : Bool)
  | triggered
  /-- `idle`, after `idle` of the script. -/
  | idle (next : Bool)
  | exposureStarted
  | exposureEnd
  | exposureFailed
  | readoutEnd
  | processImage
  | stateChanged
  | connected (name : Name) (otherType : Nat)
  | removed (conn : Nat)
  | moved (target : Target) (wasMoved : Bool)

/-- A call in progress, at the place where it goes on. -/
inductive Frame where
  | dev (frame : Dev.Frame)
  /-- The script gives its command. -/
  | scriptCommand
  /-- `doNextCommand`, with what `haveNextCommand` returned. -/
  | doNextCommand
  | triggered
  | idle
  /-- `exposureStarted`, after the command that is executed while the state lasts. -/
  | exposureStarted
  /-- `exposureEnd`, at the value change of another device. -/
  | exposureEnd
  | exposureEndNext
  | readoutEnd
  | stateChanged
  deriving DecidableEq

/-- An event, or `none` where a posted event is done; what the script gives; and what is read
from the connection of the camera. -/
structure Input where
  event : Option Event
  next : NextCommand
  command : Option Command
  /-- `getExecutedCount () == 0` -/
  notExecuted : Bool
  isLastCommand : Bool
  /-- `getFailedCount () > 0` -/
  failed : Bool
  isWaitMove : Bool
  waitForMetaData : Bool
  que_exp_num : Option Int
  /-- `queEmptyForOriginator` of the connection of the camera. -/
  queEmpty : Bool
  commandOriginatorPending : Bool
  state : Status
  bopState : Status
  fullBopState : Status
  /-- The state in a call of `stateChanged`. -/
  newState : Status
  /-- The sum of what `queCommand` returns is positive. -/
  waits : Bool

def camMaskExpose : Status := 0x011#32
def camExposing : Status := 0x001#32

def Input.isExposing (a : Input) : Bool := a.state &&& camMaskExpose = camExposing

def Input.canEndScript (a : Input) : Bool :=
  !(a.que_exp_num.any (· ≠ 0)) && !a.isExposing

/-- What `DevScript` asks of the camera. -/
def Input.dev (a : Input) (next : NextCommand) (command : Bool) : Dev.Input where
  event := none
  next := next
  command := command
  notExecuted := a.notExecuted
  failed := a.failed
  canEnd := a.queEmpty && a.canEndScript
  isWaitMove := a.isWaitMove
  sent := false
  again := false

structure CameraExec where
  name : Name
  dev : DevScript
  stack : List Frame
  nextComd : Option NextComd
  waitForExposure : Bool
  waitMetaData : Bool
  connections : List Connection
  connCount : Nat
  wasMoved : Target → Bool
  /-- The exposure command queued last waits for its exposure to start. -/
  waiting : Bool
  emitted : List Emission
  queued : List Queued

def CameraExec.create (name : Name) (obsId : Target → Int) : CameraExec where
  name := name
  dev := DevScript.create obsId
  stack := []
  nextComd := none
  waitForExposure := false
  waitMetaData := false
  connections := [⟨ownConn, name, deviceTypeCcd⟩]
  connCount := 1
  wasMoved := fun _ => false
  waiting := false
  emitted := []
  queued := []

namespace CameraExec
variable (T : Targets) (s : CameraExec)

def call (frames : List Frame) : CameraExec := { s with stack := frames ++ s.stack }

/-- A call of `DevScript`. What it calls goes on the stack, and a command it deletes is gone. -/
def runDev (f : DevScript → DevScript) : CameraExec :=
  let dev := f { s.dev with stack := [] }
  { s with
    dev := { dev with stack := [] }
    stack := dev.stack.map .dev ++ s.stack
    nextComd := if dev.nextComd then s.nextComd else none }

/-! ## Taking a command from the script -/

/-- The connections a command for this device is queued to. -/
def addressed (device : Name) : List Nat :=
  if device = s.name then [ownConn] else named s.connections device

/-- An element gives a command: `*new_command` is set, whatever it was. -/
def emit (command : Command) : CameraExec :=
  { s with
    nextComd := some ⟨s.emitted.length, command, []⟩
    emitted := s.emitted ++
      [⟨s.emitted.length, s.dev.scriptCount, s.addressed command.device⟩] }

/-- What `Script::nextCommand` leaves in `nextComd`. -/
def newCommand (a : Input) : CameraExec :=
  if a.next = .WAITING then { s with nextComd := none }
  else
    match a.command with
    | some command => s.emit command
    | none => s

/-- `nextPreparedCommand`, after `getNextCommand` returned. -/
def prepared (a : Input) : CameraExec :=
  { s with dev := { s.dev with nextComd := false } }.runDev
    (·.nextPreparedCommand T (a.dev a.next s.nextComd.isSome))

/-- `getNextCommand`: `Script::nextCommand` resets the command, and the elements may post
events before one gives it. -/
def getNextCommand : CameraExec :=
  { s with nextComd := none, dev := { s.dev with nextComd := false } }.call
    [.dev .master, .scriptCommand]

/-- `getNextCommand`, once the script gave a command: it finds the connections the command is
for, and takes the next one if there are none. -/
def findConnections (a : Input) : CameraExec :=
  match s.nextComd with
  | none => s.prepared T a
  | some comd =>
    if comd.command.device = s.name then
      { s with nextComd := some { comd with cmdConns := [] } }.prepared T a
    else
      let cmdConns := named s.connections comd.command.device
      if cmdConns = [] then s.getNextCommand
      else { s with nextComd := some { comd with cmdConns := cmdConns } }.prepared T a

/-- `nextPreparedCommand`; a command that is prepared already is kept. -/
def nextPreparedCommand (a : Input) : CameraExec :=
  match s.nextComd with
  | some _ => s.runDev (·.nextPreparedCommand T (a.dev a.next true))
  | none => s.getNextCommand

/-! ## Queueing a command -/

/-- The command `haveNextCommand` returns 1 for. -/
def next (a : Input) : Option NextComd :=
  if a.isWaitMove ∨ s.dev.waitScript ∈ [.WAIT_SLAVE, .WAIT_SIGNAL, .WAIT_MIRROR, .WAIT_SEARCH] then
    none
  else s.nextComd

/-- `currentTarget && !currentTarget->wasMoved ()` -/
def notMoved : Bool := s.dev.currentTarget.any fun target => !s.wasMoved target

/-- The checks -4 to -8. -/
def postponed (a : Input) (c : Command) : Bool :=
  if c.whileState then a.que_exp_num.any (· ≠ 0) || !a.queEmpty
  else if c.telMove then a.que_exp_num.any (· ≠ 0) || s.waitForExposure
  else c.exposure && s.waitForExposure

/-- The checks -9 to -11, for the command to another device. -/
def devicePostponed (a : Input) (c : Command) : Bool :=
  !c.whileState && (!a.queEmpty || a.que_exp_num.any (0 < ·) || has a.state camExposing ||
    has a.bopState Status.bopTelMove || has a.fullBopState Status.bopTelMove)

/-- `queCommand` on each of the connections. -/
def queCommand (number : Nat) (bopMask : Status) (conns : List Nat) : CameraExec :=
  { s with
    dev := { s.dev with nextComd := false }
    nextComd := none
    queued := s.queued ++ conns.map fun conn =>
      { number := number
        conn := conn
        bopMask := bopMask
        connected := conn ∈ s.connections.map (·.number)
        moved := !s.notMoved
        waiting := s.waiting } }

/-- While commands wait in a queue, `nextCommand` takes the next one. -/
def loop (a : Input) : CameraExec :=
  if a.waits then s.call [.dev .haveNext, .doNextCommand] else s

/-- The command goes to other devices. -/
def queToDevices (comd : NextComd) : CameraExec :=
  let bopMask :=
    if comd.command.whileState then comd.command.bopMask
    else comd.command.bopMask &&& ~~~Status.bopTelMove
  { s with waitForExposure := false }.queCommand comd.number bopMask comd.cmdConns

/-- The command goes to the camera. -/
def queToCamera (comd : NextComd) : CameraExec :=
  { s.queCommand comd.number comd.command.bopMask [ownConn] with
    waitForExposure := comd.command.exposure
    waiting := s.waiting || comd.command.exposure }

/-- `doNextCommand` from the check of the connections on. -/
def send (a : Input) (comd : NextComd) : CameraExec :=
  if comd.cmdConns ≠ [] then
    if devicePostponed a comd.command then s else (s.queToDevices comd).loop a
  else (s.queToCamera comd).loop a

/-- `doNextCommand`, after `haveNextCommand` -/
def doNextCommand (a : Input) : CameraExec :=
  match s.next a with
  | none => s
  | some comd =>
    let s := { s with waitMetaData := false }
    if comd.command.exposure ∧ s.notMoved then s
    else if comd.command.exposure ∧ a.waitForMetaData then { s with waitMetaData := true }
    else if s.postponed a comd.command then s
    else s.send a comd

/-! ## Events -/

/-- The events that kill the script end the wait for an exposure. -/
def clearWait : Dev.Event → CameraExec
  | .killAll => { s with waitForExposure := false, waiting := false }
  | .setTargetKill _ => { s with waitForExposure := false, waiting := false }
  | .setTargetKillNotClear _ => { s with waitForExposure := false, waiting := false }
  | _ => s

/-- The script has nothing to do any more. -/
def scriptDone (a : Input) : Bool :=
  s.dev.script && s.nextComd.isNone && a.isLastCommand && !(a.que_exp_num.any (· ≠ 0)) &&
    !a.commandOriginatorPending

/-- `postEvent` and the callbacks. What the parent class does is `.dev .master`: other events
may come meanwhile. -/
def postEvent (a : Input) : Event → CameraExec
  | .script event => (s.clearWait event).runDev (·.postEvent T (a.dev a.next false) event)
  | .commandOK killCommand =>
    s.runDev (·.postEvent T (a.dev a.next false) (.nextCommand killCommand))
  | .commandFailed waited =>
    { s with waitForExposure := false, waiting := s.waiting && !waited }.call [.dev .nextCommand]
  | .triggered => s.call [.dev .master, .triggered]
  | .idle next =>
    (s.call [.dev .master, .idle]).runDev (·.postEvent T (a.dev a.next false) (.idle next))
  | .exposureStarted =>
    let frames : List Frame :=
      if s.nextComd.any (·.command.whileState) then [.dev .nextCommand, .exposureStarted]
      else [.exposureStarted]
    { s with waiting := false }.call frames
  | .exposureEnd =>
    let s := s.call [.exposureEnd, .exposureEndNext, .dev .master]
    if s.scriptDone a then s.call [.dev (.deleteScript false), .dev .master] else s
  | .exposureFailed => s.call [.dev .master, .dev .nextCommand]
  | .readoutEnd => s.call [.dev .master, .readoutEnd]
  | .processImage =>
    if s.waitMetaData && !s.waitForExposure then s.call [.dev .nextCommand] else s
  | .stateChanged => s.call [.dev .master, .stateChanged]
  | .connected name otherType =>
    { s with
      connections := s.connections ++ [⟨s.connCount, name, otherType⟩]
      connCount := s.connCount + 1 }
  -- the client is deleted with its own connection
  | .removed conn =>
    if conn = ownConn then s
    else { s with connections := s.connections.filter (·.number ≠ conn) }
  | .moved target wasMoved =>
    { s with wasMoved := fun t => if t = target then wasMoved else s.wasMoved t }

/-! ## Calls -/

/-- A call of `DevScript` goes on. `nextCommand` and `getNextCommand` are the camera's; when
`haveNextCommand` deletes the script of the next target it returns 0, and nothing follows. -/
def resumeDev (a : Input) : Dev.Frame → CameraExec
  | .master =>
    match a.event with
    | some event => (s.call [.dev .master]).postEvent T a event
    | none => s
  | .nextCommand => s.call [.dev .haveNext, .doNextCommand]
  | .nextPrepared => s.nextPreparedCommand T a
  | .haveNextAgain =>
    if s.dev.ret then { s with stack := s.stack.tail }.call [.dev (.deleteScript false)] else s
  | frame => s.runDev (·.resume T (a.dev a.next false) frame)

/-- The call on the top of the stack goes on. -/
def resume (a : Input) : Frame → CameraExec
  | .dev frame => s.resumeDev T a frame
  | .scriptCommand => (s.newCommand a).findConnections T a
  | .doNextCommand => s.doNextCommand a
  | .triggered => if s.waitForExposure then s else s.call [.dev .nextCommand]
  | .idle => if s.dev.script ∧ a.notExecuted then s.call [.dev .nextCommand] else s
  | .exposureStarted =>
    let frames : List Frame :=
      if s.waitForExposure && s.nextComd.any (·.command.telMove) then
        [.dev .nextCommand, .dev .master]
      else [.dev .master]
    { s with waitForExposure := false }.call frames
  | .exposureEnd =>
    if s.nextComd.any (fun comd => comd.command.device ≠ s.name ∧ !comd.command.whileState) ∧
        !a.isExposing ∧ a.que_exp_num = some 0 then s.call [.dev .nextCommand]
    else s
  | .exposureEndNext => if s.nextComd.isNone then s.call [.dev .nextCommand] else s
  | .readoutEnd =>
    if s.dev.script then s.call [.dev .nextCommand]
    else s.call [.dev .master, .dev .nextCommand]
  | .stateChanged =>
    if s.nextComd.any (·.cmdConns ≠ []) ∧ !has a.newState Status.bopTelMove ∧
        !has a.fullBopState Status.bopTelMove then s.call [.dev .nextCommand]
    else s

/-- One step: an event, or the call on the top of the stack. -/
def step (a : Input) : CameraExec :=
  match s.stack with
  | [] =>
    match a.event with
    | some event => s.postEvent T a event
    | none => s
  | frame :: rest => { s with stack := rest }.resume T a frame

end CameraExec

end Rts2.Script.Camera
