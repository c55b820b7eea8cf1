import Rts2.Lib.Mask
import Rts2.Lib.Run
import Rts2.Status

/-! # The command queue of a connection

A connection sends one command at a time and credits the next reply line to it.
`queCommand`, `queSend`, `setBopState`, `masterStateChanged` and
`updateStatusWait` decide when the running command goes out; `commandReturn`
takes the reply in. The peer is the list `wire` of commands it has been sent and
has not answered; it answers them in order. -/
namespace Rts2.CommandQue
open Rts2.Lib

/-! ## Commands -/

/-- `BOP_WHILE_STATE`. -/
def bopWhileState : BitVec 32 := 0x1000#32

/-- `BOP_CIP_MASK`. -/
def bopCipMask : BitVec 32 := 0x6000#32

/-- `cip_state_t`. -/
inductive CipState where
  | notCalled
  | wait
  | run
  | ret
  deriving DecidableEq, Repr

/-- The bits of a progress in the BOP mask. -/
def CipState.bits : CipState → BitVec 32
  | .notCalled => 0x0000#32
  | .wait => 0x2000#32
  | .run => 0x4000#32
  | .ret => 0x6000#32

/-- A `Command`. `statusFor` is the command a `device_status` was issued for and
`ordered` tells the commands given to `queCommand` from the others. -/
structure Command where
  id : Nat
  text : String
  bopMask : BitVec 32
  originator : Option Nat
  statusFor : Option Nat
  ordered : Bool
  deriving DecidableEq, Repr

/-- What a caller hands over: `setBopMask` leaves the progress bits clear. -/
structure Request where
  text : String
  bopMask : BitVec 32
  originator : Option Nat
  cipClear : bopMask &&& bopCipMask = 0#32

/-- `Command::getStatusCallProgress`. -/
def Command.getStatusCallProgress (c : Command) : CipState :=
  if c.bopMask &&& bopCipMask = CipState.wait.bits then .wait
  else if c.bopMask &&& bopCipMask = CipState.run.bits then .run
  else if c.bopMask &&& bopCipMask = CipState.ret.bits then .ret
  else .notCalled

/-- `Command::setStatusCallProgress`. -/
def Command.setStatusCallProgress (c : Command) (progress : CipState) : Command :=
  { c with bopMask := setField c.bopMask bopCipMask progress.bits }

/-- The command waits while a BOP state lasts. -/
def Command.isWhileState (c : Command) : Bool :=
  c.bopMask &&& bopWhileState ≠ 0#32

/-- The BOP bits the command is blocked by, as set in `bop`. -/
def Command.isBlockedBy (c : Command) (bop : Status) : Bool :=
  bop &&& c.bopMask &&& Status.bopMask ≠ 0#32

@[simp] theorem setStatusCallProgress_id (c : Command) (p : CipState) :
    (c.setStatusCallProgress p).id = c.id := rfl

@[simp] theorem setStatusCallProgress_statusFor (c : Command) (p : CipState) :
    (c.setStatusCallProgress p).statusFor = c.statusFor := rfl

@[simp] theorem setStatusCallProgress_ordered (c : Command) (p : CipState) :
    (c.setStatusCallProgress p).ordered = c.ordered := rfl

@[simp] theorem getStatusCallProgress_set (c : Command) (p : CipState) :
    (c.setStatusCallProgress p).getStatusCallProgress = p := by
  simp only [Command.getStatusCallProgress, Command.setStatusCallProgress, setField_and_mask]
  cases p <;> decide

@[simp] theorem isWhileState_set (c : Command) (p : CipState) :
    (c.setStatusCallProgress p).isWhileState = c.isWhileState := by
  have hdisj : bopCipMask &&& bopWhileState = 0#32 := by decide
  simp only [Command.isWhileState, Command.setStatusCallProgress, setField_and_of_disjoint hdisj]

/-- A progress other than `CIP_NOT_CALLED` shows in the mask. -/
theorem bopMask_ne_zero_of_progress {c : Command} (h : c.getStatusCallProgress ≠ .notCalled) :
    c.bopMask ≠ 0#32 := by
  intro hzero
  apply h
  simp only [Command.getStatusCallProgress, hzero]
  decide

/-! ## The connection -/

/-- `conn_state_t`. -/
inductive ConnState where
  | unknow
  | resolvingDevice
  | connecting
  | inprogress
  | connected
  | broken
  | delete
  | authPending
  | authOk
  | authFailed
  deriving DecidableEq, Repr

/-- `runningCommandStatus`. -/
inductive CommandStatus where
  | waiting
  | send
  | returning
  deriving DecidableEq, Repr

/-- What an observer of the connection sees, in order. -/
inductive Action where
  /-- A command is transmitted, with the BOP state of that moment. -/
  | sent (c : Command) (bopState : Status)
  /-- The reply to the command `sender` is credited to the running command. -/
  | credited (sender : Nat) (c : Command) (stat : Int)
  deriving DecidableEq, Repr

/-- The fields of `Connection` the command queue works on, its peer, and the
commands deleted after their reply. -/
structure Conn where
  connState : ConnState
  bopState : Status
  commandQue : List Command
  runningCommand : Option Command
  runningCommandStatus : CommandStatus
  nextId : Nat
  wire : List Nat
  trace : List Action
  finished : List Command
  deriving DecidableEq, Repr

/-- A connection as its constructor leaves it. -/
def Conn.start (connState : ConnState) : Conn where
  connState := connState
  bopState := 0#32
  commandQue := []
  runningCommand := none
  runningCommandStatus := .returning
  nextId := 0
  wire := []
  trace := []
  finished := []

/-- `Command::send`: the text goes to the peer. -/
def Conn.transmit (s : Conn) (c : Command) : Conn :=
  { s with wire := s.wire ++ [c.id], trace := s.trace ++ [.sent c s.bopState] }

/-- The `CommandDeviceStatus` that `sendCommand` issues for a command. -/
def deviceStatus (id : Nat) (c : Command) : Command :=
  { id, text := "device_status", bopMask := CipState.ret.bits, originator := none,
    statusFor := some c.id, ordered := false }

/-- `Connection::sendCommand`. -/
def Conn.sendCommand (s : Conn) : Conn :=
  match s.runningCommand with
  | none => s
  | some c =>
    if c.bopMask ≠ 0#32 then
      if c.isWhileState then
        -- we are waiting for some BOP mask and it has already occurred
        if c.isBlockedBy s.bopState then
          -- just wait for finish
          if c.getStatusCallProgress = .wait then
            { s with runningCommandStatus := .waiting }
          else
            { s.transmit c with
              runningCommand := some (c.setStatusCallProgress .wait)
              runningCommandStatus := .send }
        else { s with runningCommand := some (c.setStatusCallProgress .run) }
      else match c.getStatusCallProgress with
        | .notCalled =>
          let statInfoCall := deviceStatus s.nextId c
          { s.transmit statInfoCall with
            nextId := s.nextId + 1
            commandQue := c.setStatusCallProgress .wait :: s.commandQue
            runningCommand := some statInfoCall
            runningCommandStatus := .send }
        | .wait | .run =>
          if c.isBlockedBy s.bopState then
            { s with
              runningCommand := some (c.setStatusCallProgress .run)
              runningCommandStatus := .waiting }
          else
            { s.transmit c with
              runningCommand := some (c.setStatusCallProgress .ret)
              runningCommandStatus := .send }
        | .ret => s
    else { s.transmit c with runningCommandStatus := .send }

/-- `Connection::sendNextCommand`. -/
def Conn.sendNextCommand (s : Conn) : Conn :=
  match s.commandQue with
  | c :: rest => { s with runningCommand := some c, commandQue := rest }.sendCommand
  | [] => { s with runningCommand := none }

/-- A new command object for a request. -/
def Conn.newCommand (s : Conn) (r : Request) (ordered : Bool) : Command :=
  { id := s.nextId, text := r.text, bopMask := r.bopMask, originator := r.originator,
    statusFor := none, ordered }

/-- `Connection::queCommand`. -/
def Conn.queCommand (s : Conn) (r : Request) : Conn :=
  let cmd := s.newCommand r true
  let s := { s with nextId := s.nextId + 1 }
  if s.runningCommand.isSome ∨ (s.connState ≠ .authOk ∧ s.connState ≠ .connected) then
    { s with commandQue := s.commandQue ++ [cmd] }
  else { s with runningCommand := some cmd }.sendCommand

/-- `Connection::queSend`. -/
def Conn.queSend (s : Conn) (r : Request) : Conn :=
  let cmd := s.newCommand r false
  let s := { s with nextId := s.nextId + 1 }
  if s.connState = .connecting ∨ s.connState = .inprogress ∨ s.connState = .unknow then
    { s with commandQue := cmd :: s.commandQue }
  else match s.runningCommand with
    | some c =>
      -- the actual command was sent or is returning: be the next one
      if s.runningCommandStatus = .send ∨ s.runningCommandStatus = .returning then
        { s with commandQue := cmd :: s.commandQue }
      else { s with commandQue := c :: s.commandQue, runningCommand := some cmd }.sendCommand
    | none => { s with runningCommand := some cmd }.sendCommand

/-- `sendCommand` when the running command is in the given progress. -/
def Conn.sendCommandIn (s : Conn) (progress : CipState) : Conn :=
  match s.runningCommand with
  | some c => if c.getStatusCallProgress = progress then s.sendCommand else s
  | none => s

/-- `Connection::setBopState`. -/
def Conn.setBopState (s : Conn) (inValue : Status) : Conn :=
  { s with bopState := inValue }.sendCommandIn .run

/-- `Connection::masterStateChanged`. -/
def Conn.masterStateChanged (s : Conn) : Conn :=
  s.sendCommandIn .run

/-- `Connection::updateStatusWait`. -/
def Conn.updateStatusWait (s : Conn) : Conn :=
  s.sendCommandIn .wait

/-- `Connection::setConnState`, but for `CONN_AUTH_FAILED`, which closes the connection. -/
def Conn.setConnState (s : Conn) (newConnState : ConnState) : Conn :=
  let s := if (newConnState = .authOk ∨ newConnState = .connected) ∧ s.runningCommand = none then
      s.sendNextCommand
    else s
  { s with connState := newConnState }

/-! ## Replies -/

/-- The calls that reach the queue from outside, and from the handlers that run
while a reply is processed. -/
inductive Call where
  | queCommand (r : Request)
  | queSend (r : Request)
  | setBopState (inValue : Status)
  | masterStateChanged
  | setConnState (newConnState : ConnState) (up : newConnState ≠ .authFailed)

def Conn.call (s : Conn) : Call → Conn
  | .queCommand r => s.queCommand r
  | .queSend r => s.queSend r
  | .setBopState inValue => s.setBopState inValue
  | .masterStateChanged => s.masterStateChanged
  | .setConnState newConnState _ => s.setConnState newConnState

/-- What `Command::commandReturn` answers. -/
inductive ReturnCode where
  /-- `-1`: the command is done. -/
  | done
  /-- `RTS2_COMMAND_REQUE` -/
  | reque
  /-- Any other value: the command is kept. -/
  | keep
  deriving DecidableEq, Repr

/-- `Connection::commandReturn` up to the handlers of the running command. -/
def Conn.beginReturn (s : Conn) (sender : Nat) (c : Command) (stat : Int) : Conn :=
  { s with runningCommandStatus := .returning, trace := s.trace ++ [.credited sender c stat] }

/-- The last switch of `Connection::commandReturn`. -/
def Conn.endReturn (s : Conn) : ReturnCode → Conn
  | .reque => s.sendCommand
  | .done => { s with finished := s.finished ++ s.runningCommand.toList }.sendNextCommand
  | .keep => s

/-- `Connection::commandReturn`, on the next reply of the peer; its handlers make
`calls` and answer `ret`. `CommandStatusInfo::commandReturnOK` calls
`updateStatusWait` on its own connection and is done. -/
def Conn.commandReturn (s : Conn) (stat : Int) (calls : List Call) (ret : ReturnCode) : Conn :=
  match s.wire with
  | [] => s
  | sender :: wire =>
    match s.runningCommand with
    -- logs a return received without command
    | none => { s with wire }
    | some c =>
      let t := run Conn.call ({ s with wire }.beginReturn sender c stat) calls
      if c.statusFor.isSome then t.updateStatusWait.endReturn .done else t.endReturn ret

/-- What happens on a connection that stays up. -/
inductive Event where
  | call (c : Call)
  | reply (stat : Int) (calls : List Call) (ret : ReturnCode)

def Conn.step (s : Conn) : Event → Conn
  | .call c => s.call c
  | .reply stat calls ret => s.commandReturn stat calls ret

/-- The same with `updateStatusWait`, a public function, called at any moment. -/
inductive Entry where
  | event (e : Event)
  | updateStatusWait

def Conn.entry (s : Conn) : Entry → Conn
  | .event e => s.step e
  | .updateStatusWait => s.updateStatusWait

end Rts2.CommandQue
