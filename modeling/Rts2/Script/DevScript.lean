import Rts2.Lib.Run

/-! # The script of a device

A device runs the script of the current target, while the next target waits. The functions
of `DevScript` post events to all connections before they go on, and such an event can
come back as any other event; so a script is a machine with a stack of calls. An input is
an event, or what the call on the top asks of the device class and of the script. -/
namespace Rts2.Script.Dev
open Rts2.Lib

/-- What `getNextCommand` returns. -/
inductive NextCommand where
  | STOP_TARGET
  | NEXT
  | END_SCRIPT
  | KEEP
  | WAITING
  | RESYNC
  | CHECK_WAIT
  | PRECISION_FAILED
  | PRECISION_OK
  | WAIT_ACQUSITION
  | ACQUSITION_IMAGE
  | WAIT_SIGNAL
  | WAIT_MIRROR
  | WAIT_SEARCH
  deriving DecidableEq

def NextCommand.negative : NextCommand → Bool
  | .STOP_TARGET => true
  | .NEXT => true
  | .END_SCRIPT => true
  | _ => false

inductive WaitScript where
  | NO_WAIT
  | WAIT_SLAVE
  | WAIT_MASTER
  | WAIT_SIGNAL
  | WAIT_MIRROR
  | WAIT_SEARCH
  deriving DecidableEq

/-- The argument of `EVENT_ACQUSITION_END`; a script that is deleted sends -5. -/
inductive AcqEnd where
  | ok
  | failed
  | deleted
  deriving DecidableEq

/-- A target is a pointer to an `Rts2Target`. -/
abbrev Target := Nat

/-- The numbers of the targets, which do not change. -/
structure Targets where
  targetID : Target → Int
  obsTargetID : Target → Int

inductive Event where
  | stopTarget (arg : Option Target)
  | killAll
  | setTargetKill (arg : Option Target)
  | setTargetKillNotClear (arg : Option Target)
  | stopObservation
  | setTarget (target : Target)
  | setTargetNotClear (target : Target)
  | scriptEnded (arg : Option Target)
  | observe
  | clearWait
  /-- `EVENT_OK_ASTROMETRY`, `EVENT_NOT_ASTROMETRY` and `EVENT_STAR_DATA`. -/
  | starData
  | mirrorFinish
  | acqusitionEnd (acqEnd : AcqEnd)
  /-- `EVENT_SIGNAL`, which the script has waited for or not. -/
  | signal (waited : Bool)
  /-- The device class asks for the next command; the trigger may be the kill command. -/
  | nextCommand (killCommand : Bool)
  /-- `idle`, after `idle` of the script. -/
  | idle (next : Bool)
  /-- The device class ends the script. -/
  | endScript
  /-- A target gets an observation. -/
  | setObsId (target : Target) (obsId : Int)
  | other
  deriving DecidableEq

/-- A call in progress, at the place where it goes on. -/
inductive Frame where
  /-- An event is posted to all connections. -/
  | master
  /-- The loop of `nextCommand` of the device class. -/
  | nextCommand
  /-- `nextCommand`, after the target of the kill command was set. -/
  | killed
  | nextPrepared
  /-- `nextPreparedCommand`, after it posted an event. -/
  | prepared (negative : Bool)
  /-- `nextPreparedCommand`, after it posted the start of an acquisition. -/
  | acquireStarted
  | haveNext
  /-- `haveNextCommand`, with the next command. -/
  | haveNextPrepared
  /-- `haveNextCommand`, after it deleted the script. -/
  | haveNextDeleted
  /-- `haveNextCommand`, after it started the next target. -/
  | haveNextStarted
  /-- `haveNextCommand`, with the first command of the next target. -/
  | haveNextAgain
  /-- `deleteScript`; `haveNextCommand` may start the next target after it. -/
  | deleteScript (startNext : Bool)
  /-- `deleteScript`, after the end of an acquisition was posted. -/
  | acqusitionPosted (startNext : Bool)
  deriving DecidableEq

/-- An event, or `none` where a posted event is done; and the answers of the device class and
of the script. -/
structure Input where
  event : Option Event
  next : NextCommand
  command : Bool
  /-- `getExecutedCount () == 0` -/
  notExecuted : Bool
  /-- `getFailedCount () > 0` -/
  failed : Bool
  /-- The queue is empty, and the script may end. -/
  canEnd : Bool
  isWaitMove : Bool
  /-- The command is sent; the loop goes on. -/
  sent : Bool
  again : Bool

/-- A start of a script: the target, and whether it was disabled. -/
structure Start where
  target : Target
  disabled : Bool
  deriving DecidableEq

structure DevScript where
  currentTarget : Option Target
  nextTarget : Option Target
  killTarget : Option Target
  scriptKillCommand : Bool
  scriptKillcallScriptEnds : Bool
  script : Bool
  nextComd : Bool
  waitScript : WaitScript
  dont_execute_for : Int
  dont_execute_for_obsid : Int
  scriptLoopCount : Int
  scriptCount : Int
  lastTargetObsID : Int
  /-- What `nextPreparedCommand` returned is negative. -/
  ret : Bool
  stack : List Frame
  obsId : Target → Int
  starts : List Start

def DevScript.create (obsId : Target → Int) : DevScript where
  currentTarget := none
  nextTarget := none
  killTarget := none
  scriptKillCommand := false
  scriptKillcallScriptEnds := false
  script := false
  nextComd := false
  waitScript := .NO_WAIT
  dont_execute_for := -1
  dont_execute_for_obsid := -1
  scriptLoopCount := 0
  scriptCount := 0
  lastTargetObsID := -1
  ret := false
  stack := []
  obsId := obsId
  starts := []

namespace DevScript
variable (T : Targets) (s : DevScript)

/-- The target is the pair that is not executed; with -1 there is none. -/
def disabled (target : Target) : Bool :=
  s.dont_execute_for ≠ -1 && T.targetID target = s.dont_execute_for &&
    s.obsId target = s.dont_execute_for_obsid

def call (frames : List Frame) : DevScript := { s with stack := frames ++ s.stack }

/-- `dont_execute_for = currentTarget->getTargetID ()`, if there is a current target. -/
def disableCurrent : DevScript :=
  match s.currentTarget with
  | some target =>
    { s with
      dont_execute_for := T.targetID target
      dont_execute_for_obsid := s.obsId target }
  | none => s

/-- `startTarget` of the current target, up to the event it posts. -/
def startCurrent (target : Target) : DevScript :=
  let scriptLoopCount :=
    if s.lastTargetObsID = T.obsTargetID target then s.scriptLoopCount + 1 else 0
  { s with
    scriptLoopCount := scriptLoopCount
    scriptCount := s.scriptCount + 1
    script := true
    nextComd := false
    starts := ⟨target, s.disabled T target⟩ :: s.starts }.call [.master]

/-- `startTarget`; the next target becomes the current one if there is none. -/
def startTarget : DevScript :=
  match s.currentTarget, s.nextTarget with
  | some target, _ => s.startCurrent T target
  | none, some target =>
    { s with currentTarget := some target, nextTarget := none }.startCurrent T target
  | none, none => s

/-- `setNextTarget` -/
def setNextTarget (target : Target) : DevScript :=
  if T.targetID target = s.dont_execute_for ∧ s.obsId target = s.dont_execute_for_obsid then
    { s with nextTarget := none }
  else
    { s with
      nextTarget := some target
      dont_execute_for := -1
      dont_execute_for_obsid := -1 }

/-! ## Deleting the script -/

/-- The script of a target that executed nothing is not executed again; nor is the target
when it waits. -/
def disableNotExecuted (target : Target) : DevScript :=
  if 0 ≤ T.targetID target then
    { s.disableCurrent T with
      nextTarget := s.nextTarget.filter fun next => T.targetID next ≠ T.targetID target }
  else s

/-- The script of a target ends: the target may be one that is not executed. -/
def disableEnded (a : Input) (target : Target) : DevScript :=
  let s := if a.notExecuted then s.disableNotExecuted T target else s
  if a.failed then s.disableCurrent T else s

def disableFailed (a : Input) : DevScript :=
  match s.currentTarget with
  | some target => { s with lastTargetObsID := T.obsTargetID target }.disableEnded T a target
  | none => s

/-- `deleteScript` from the reset of the wait on. -/
def dropScript (a : Input) (startNext : Bool) : DevScript :=
  let rest : List Frame := if startNext then [.haveNextDeleted] else []
  let s := { s with waitScript := .NO_WAIT, nextComd := false }
  if s.script then
    { s.disableFailed T a with script := false, currentTarget := none }.call (.master :: rest)
  else s.call rest

/-- `deleteScript` -/
def deleteScript (a : Input) (startNext : Bool) : DevScript :=
  if s.waitScript = .WAIT_MASTER then s.call [.master, .acqusitionPosted startNext]
  else s.dropScript T a startNext

/-! ## The next command -/

/-- `nextPreparedCommand` -/
def nextPreparedCommand (a : Input) : DevScript :=
  if s.nextComd then { s with ret := false }
  else
    let s := { s with nextComd := a.command }
    match a.next with
    | .RESYNC => s.call [.master, .prepared false]
    | .PRECISION_OK => { s with waitScript := .NO_WAIT }.call [.master, .nextPrepared]
    | .PRECISION_FAILED => { s with waitScript := .NO_WAIT }.call [.master, .prepared true]
    | .WAIT_ACQUSITION => { s with waitScript := .WAIT_SLAVE, ret := false }
    | .ACQUSITION_IMAGE => s.call [.master, .acquireStarted]
    | .WAIT_SIGNAL => { s with waitScript := .WAIT_SIGNAL, ret := false }
    | .WAIT_MIRROR => { s with waitScript := .WAIT_MIRROR, ret := false }
    | .WAIT_SEARCH => { s with waitScript := .WAIT_SEARCH, ret := false }
    | .STOP_TARGET => { s.disableCurrent T with ret := true }
    | ret => { s with ret := ret.negative }

/-! ## Events -/

/-- The events that stop the script at once. -/
def kill : DevScript :=
  { s with
    currentTarget := none
    nextTarget := none
    waitScript := .NO_WAIT
    script := false
    nextComd := false }

def enable : DevScript := { s with dont_execute_for := -1, dont_execute_for_obsid := -1 }

/-- The kill command is queued; its target is set once it is done. -/
def killCommand (callScriptEnds : Bool) (arg : Option Target) : DevScript :=
  { s with
    scriptKillCommand := true
    scriptKillcallScriptEnds := callScriptEnds
    killTarget := arg }

/-- `EVENT_OBSERVE` -/
def observe : DevScript :=
  match s.currentTarget with
  | some _ => s.call [.nextCommand]
  | none => (s.call [.nextCommand]).startTarget T

/-- `EVENT_SET_TARGET` -/
def setTarget (target : Target) : DevScript :=
  let s := s.setNextTarget T target
  match s.currentTarget with
  | some _ => s
  | none => (s.call [.nextCommand]).startTarget T

/-- `EVENT_SCRIPT_ENDED` -/
def scriptEnded (arg : Option Target) : DevScript :=
  let s :=
    match arg with
    | some target => s.setNextTarget T target
    | none => s
  match s.currentTarget with
  | some _ => s
  | none => s.observe T

def postEvent (a : Input) : Event → DevScript
  | .stopTarget arg => ((s.disableCurrent T).kill).killCommand true arg
  | .killAll => s.kill.enable
  | .setTargetKill arg => s.kill.enable.killCommand true arg
  | .setTargetKillNotClear arg => s.kill.enable.killCommand false arg
  | .stopObservation => s.call [.deleteScript false]
  | .setTarget target => s.setTarget T target
  | .setTargetNotClear target => s.setTarget T target
  | .scriptEnded arg => s.scriptEnded T arg
  | .observe => s.observe T
  | .clearWait => s.call [.nextCommand]
  | .starData => if s.script ∧ a.isWaitMove then s.call [.nextCommand] else s
  | .mirrorFinish =>
    if s.script ∧ s.waitScript = .WAIT_MIRROR then
      { s with waitScript := .NO_WAIT }.call [.nextCommand]
    else s
  | .acqusitionEnd acqEnd =>
    if s.waitScript = .WAIT_SLAVE then
      match acqEnd with
      | .ok => { s with waitScript := .NO_WAIT }.call [.nextCommand]
      | .failed => { s with waitScript := .NO_WAIT }.call [.deleteScript false]
      | .deleted => { s with waitScript := .NO_WAIT }
    else s
  | .signal waited =>
    if s.script ∧ waited then { s with waitScript := .NO_WAIT }.call [.nextCommand] else s
  | .nextCommand killCommand =>
    if s.scriptKillCommand ∧ killCommand then
      match s.currentTarget, s.killTarget with
      | none, some target => (s.call [.killed, .nextCommand]).setTarget T target
      | _, _ => s.call [.killed, .nextCommand]
    else s.call [.nextCommand]
  | .idle next => if s.script ∧ next then s.call [.nextCommand] else s
  | .endScript => s.call [.deleteScript false]
  | .setObsId target obsId => { s with obsId := fun t => if t = target then obsId else s.obsId t }
  | .other => s

/-! ## Calls -/

/-- The call on the top of the stack goes on. -/
def resume (a : Input) : Frame → DevScript
  | .master =>
    match a.event with
    | some event => (s.call [.master]).postEvent T a event
    | none => s
  | .nextCommand =>
    let s := { s with nextComd := s.nextComd && !a.sent }
    if a.again then s.call [.haveNext, .nextCommand] else s
  | .killed =>
    { s with killTarget := none, scriptKillCommand := false, scriptKillcallScriptEnds := false }
  | .nextPrepared => s.nextPreparedCommand T a
  | .prepared negative => { s with ret := negative }
  | .acquireStarted => { s with waitScript := .WAIT_MASTER, ret := false }
  | .haveNext =>
    if s.script = false ∨ s.waitScript = .WAIT_SLAVE then s
    else s.call [.nextPrepared, .haveNextPrepared]
  | .haveNextPrepared =>
    if s.ret ∧ a.canEnd then s.call [.deleteScript true] else s
  | .haveNextDeleted => (s.call [.haveNextStarted]).startTarget T
  | .haveNextStarted => if s.script then s.call [.nextPrepared, .haveNextAgain] else s
  | .haveNextAgain => if s.ret then s.call [.deleteScript false] else s
  | .deleteScript startNext => s.deleteScript T a startNext
  | .acqusitionPosted startNext => s.dropScript T a startNext

/-- One step: an event, or the call on the top of the stack. -/
def step (a : Input) : DevScript :=
  match s.stack with
  | [] =>
    match a.event with
    | some event => s.postEvent T a event
    | none => s
  | frame :: rest => { s with stack := rest }.resume T a frame

end DevScript

end Rts2.Script.Dev
