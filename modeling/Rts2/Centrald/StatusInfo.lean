import Rts2.Connection.CommandQue
import Rts2.Centrald.Conditions

/-! # Gathering the status of all devices

A connection asks the central daemon for `status_info`; the daemon queues a
`status_info` of its own on every device the asker depends on, and sends the
final reply when none of these commands is left: that is seen by scanning all
queues for commands whose originator is the asker, each time one returns and
each time a connection is gone. -/
namespace Rts2.Centrald.StatusInfo
open Rts2.Lib Rts2.CommandQue

/-- Why a request was completed. -/
inductive Cause where
  /-- nobody had to be asked -/
  | atOnce
  /-- a device answered -/
  | reply (device : Nat)
  /-- a connection was removed -/
  | removal
  deriving DecidableEq, Repr

/-- What happens to requests, in order. -/
inductive Entry where
  /-- `asker` sent `status_info`, and the devices were asked for it. -/
  | asked (asker : Nat) (devices : List Nat)
  /-- `device` answered a `status_info` it was sent for `asker`. -/
  | answered (device asker : Nat)
  /-- A connection was removed. -/
  | gone (id : Nat)
  /-- `asker` was sent the final reply. -/
  | final (asker : Nat) (cause : Cause)
  deriving DecidableEq, Repr

/-- `ConnCentrald`, with its command queue. -/
structure StatusConn where
  centraldId : Nat
  type : ConnType
  name : String
  statusCommandRunning : Int
  conn : Conn
  deriving DecidableEq, Repr

/-- `new ConnCentrald`. -/
def StatusConn.new (centraldId : Nat) : StatusConn where
  centraldId := centraldId
  type := .notDefinedServer
  name := ""
  statusCommandRunning := 0
  conn := .start .connected

/-- `Centrald`. -/
structure Central where
  connNum : Nat
  connections : List StatusConn
  log : List Entry
  deriving DecidableEq, Repr

def Central.start : Central := { connNum := 0, connections := [], log := [] }

def Central.find (s : Central) (id : Nat) : Option StatusConn :=
  s.connections.find? fun c => c.centraldId = id

def Central.modify (s : Central) (id : Nat) (f : StatusConn → StatusConn) : Central :=
  { s with connections := s.connections.map fun c => if c.centraldId = id then f c else c }

def Central.record (s : Central) (e : Entry) : Central := { s with log := s.log ++ [e] }

def StatusConn.onConn (f : Conn → Conn) (c : StatusConn) : StatusConn := { c with conn := f c.conn }

/-! ## Pending commands -/

/-- The commands `Connection::queEmptyForOriginator` looks at. -/
def pendingCommands (s : Conn) : List Command :=
  (if s.runningCommandStatus = .returning then [] else s.runningCommand.toList) ++ s.commandQue

/-- `Connection::commandOriginatorPending`. -/
def StatusConn.commandOriginatorPending (c : StatusConn) (originator : Nat) : Bool :=
  (pendingCommands c.conn).any fun cmd => cmd.originator = some originator

/-- `Block::commandOriginatorPending`. -/
def Central.commandOriginatorPending (s : Central) (originator : Nat) (exclude : Option Nat) : Bool :=
  s.connections.any fun c =>
    decide (some c.centraldId ≠ exclude) && c.commandOriginatorPending originator

/-- `ConnCentrald::updateStatusWait` from where it sends the final reply. -/
def Central.finish (s : Central) (asker : Nat) (cause : Cause) : Central :=
  (s.record (.final asker cause)).modify asker fun c =>
    { c with statusCommandRunning := c.statusCommandRunning - 1 }

/-- `ConnCentrald::updateStatusWait (conn)`, called when `conn` has answered. -/
def Central.updateStatusWait (s : Central) (asker conn : Nat) : Central :=
  if s.commandOriginatorPending asker (some conn) then s else s.finish asker (.reply conn)

/-- `ConnCentrald::updateStatusWait (NULL)`. -/
def Central.updateStatusWaitNull (s : Central) (asker : Nat) : Central :=
  match s.find asker with
  | none => s
  | some c =>
    if c.statusCommandRunning = 0 then s
    else if s.commandOriginatorPending asker none then s
    else s.finish asker .removal

/-! ## Requests and replies -/

/-- A `CommandStatusInfo`; its originator is its `control_conn` too. -/
def statusInfoRequest (asker : Nat) : Request where
  text := "status_info"
  bopMask := 0
  originator := some asker
  cipClear := by decide

/-- Any other command of the central daemon, `open` and `close`. -/
def otherRequest (text : String) : Request where
  text := text
  bopMask := 0
  originator := none
  cipClear := by decide

/-- The connections `Centrald::statusInfo` asks. -/
def Central.toAsk (blockDevice : String → String → Bool) (s : Central) (asker : StatusConn) :
    List Nat :=
  (s.connections.filter fun c =>
    decide (c.centraldId ≠ asker.centraldId) && decide (c.type ≠ .clientServer) &&
      (decide (asker.type ≠ .deviceServer) || blockDevice asker.name c.name)).map (·.centraldId)

/-- `Centrald::statusInfo`; without anybody to ask the command ends with OK. -/
def Central.statusInfo (blockDevice : String → String → Bool) (s : Central) (asker : StatusConn) :
    Central :=
  let devices := s.toAsk blockDevice asker
  let ask := fun c : StatusConn =>
    if c.centraldId ∈ devices then c.onConn (·.queCommand (statusInfoRequest asker.centraldId))
    else c
  let s := { s with connections := s.connections.map ask }.record (.asked asker.centraldId devices)
  if devices = [] then s.record (.final asker.centraldId .atOnce)
  else s.modify asker.centraldId fun c =>
    { c with statusCommandRunning := c.statusCommandRunning + 1 }

/-- `Connection::commandReturn` on a connection of the daemon, on the next reply
of its peer: `CommandStatusInfo` updates the asker, and every command is done. -/
def Central.commandReturn (s : Central) (c : StatusConn) (stat : Int) : Central :=
  match c.conn.wire with
  | [] => s
  | sender :: wire =>
    match c.conn.runningCommand with
    | none => s.modify c.centraldId (·.onConn fun q => { q with wire })
    | some cmd =>
      let s := s.modify c.centraldId
        (·.onConn fun q => { q with wire }.beginReturn sender cmd stat)
      let s := match cmd.originator with
        | none => s
        | some asker =>
          (s.record (.answered c.centraldId asker)).updateStatusWait asker c.centraldId
      s.modify c.centraldId (·.onConn (·.endReturn .done))

/-! ## Connections -/

/-- `Command::deleteConnection`. -/
def forgetOriginator (id : Nat) (cmd : Command) : Command :=
  if cmd.originator = some id then { cmd with originator := none } else cmd

/-- `Connection::deleteConnection`. -/
def forgetConnection (id : Nat) (q : Conn) : Conn :=
  { q with
    runningCommand := q.runningCommand.map (forgetOriginator id)
    commandQue := q.commandQue.map (forgetOriginator id) }

/-- `open` or `close` is queued on a device. -/
def Central.queOther (s : Central) (id : Nat) (text : String) : Central :=
  s.modify id (·.onConn (·.queCommand (otherRequest text)))

/-- `Block::deleteConnection` and `Centrald::connectionRemoved`, where the weather
may turn and `commands` be queued, before every connection left is updated. -/
def Central.removeConnection (s : Central) (c : StatusConn) (commands : List (Nat × String)) :
    Central :=
  if c.conn.connState = .delete then
    let left := s.connections.filter (·.centraldId ≠ c.centraldId)
    let s := { s with connections := left.map (.onConn (forgetConnection c.centraldId)) }
    let s := commands.foldl (fun (s : Central) command => s.queOther command.1 command.2) s
    let s := s.record (.gone c.centraldId)
    (s.connections.map StatusConn.centraldId).foldl Central.updateStatusWaitNull s
  else s

/-! ## Runs -/

/-- What happens on a connection. -/
inductive ConnEvent where
  | login (name : String)
  | register (regDevice : String)
  | statusInfo
  | reply (stat : Int)
  | queOther (text : String)
  | connectionError
  | removed (commands : List (Nat × String))

inductive Event where
  /-- A socket is accepted and taken in. -/
  | accept
  | connection (id : Nat) (event : ConnEvent)

def Central.connEvent (blockDevice : String → String → Bool) (s : Central) (c : StatusConn) :
    ConnEvent → Central
  | .login name =>
    if c.type = .notDefinedServer then
      s.modify c.centraldId fun c => { c with name, type := .clientServer }
    else s
  | .register regDevice =>
    if c.type = .notDefinedServer ∧ ∀ c' ∈ s.connections, c'.name ≠ regDevice then
      s.modify c.centraldId fun c => { c with name := regDevice, type := .deviceServer }
    else s
  | .statusInfo => s.statusInfo blockDevice c
  | .reply stat => s.commandReturn c stat
  | .queOther text => s.queOther c.centraldId text
  | .connectionError => s.modify c.centraldId (·.onConn fun q => { q with connState := .delete })
  | .removed commands => s.removeConnection c commands

def Central.step (blockDevice : String → String → Bool) (s : Central) : Event → Central
  | .accept =>
    { s with
      connNum := s.connNum + 1
      connections := s.connections ++ [.new (s.connNum + 1)] }
  | .connection id event =>
    match s.find id with
    | none => s
    | some c => s.connEvent blockDevice c event

end Rts2.Centrald.StatusInfo
