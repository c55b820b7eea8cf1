import Rts2.Connection.ConnFork
import Rts2.Connection.Receive
import Rts2.Connection.ValueLine
import Rts2.Status

/-! # Queries of an external script

`ConnExe` reads the standard output of a script line by line and answers its
queries. `waitidle` and `waitmask` run the main loop in themselves; the loop may
read what the script writes in the meantime, but `processBuffer` is not entered
a second time. -/
namespace Rts2.Script
open Rts2.Connection

/-- The commands of a script that are answered, with their parameters. -/
inductive Query where
  | get (device value : List Byte)
  | getOwn (value : List Byte)
  | state (device : List Byte)
  | waitidle (device : List Byte) (tom : Int)
  | waitmask (device : List Byte) (mask tom : Int)
  | runDevice
  | execDevice
  deriving DecidableEq

/-- `G` -/
def commandGet : List Byte := [71]
/-- `get_own` -/
def commandGetOwn : List Byte := [103, 101, 116, 95, 111, 119, 110]
/-- `S` -/
def commandState : List Byte := [83]
/-- `waitidle` -/
def commandWaitidle : List Byte := [119, 97, 105, 116, 105, 100, 108, 101]
/-- `waitmask` -/
def commandWaitmask : List Byte := [119, 97, 105, 116, 109, 97, 115, 107]
/-- `run_device` -/
def commandRunDevice : List Byte := [114, 117, 110, 95, 100, 101, 118, 105, 99, 101]
/-- `exec_device` -/
def commandExecDevice : List Byte := [101, 120, 101, 99, 95, 100, 101, 118, 105, 99, 101]

/-- How `ConnExe::processLine` and `processCommand` take a line. -/
def query (line : List Byte) : Option Query := do
  let (cmd, params) ← paramNextString line []
  if cmd = commandGet then
    let (device, params) ← paramNextString params []
    let (value, _) ← paramNextString params []
    return .get device value
  else if cmd = commandGetOwn then
    let (value, _) ← paramNextString params []
    return .getOwn value
  else if cmd = commandState then
    let (device, _) ← paramNextString params []
    return .state device
  else if cmd = commandWaitidle then
    let (device, params) ← paramNextString params []
    let (tom, _) ← paramNextInteger params
    return .waitidle device tom
  else if cmd = commandWaitmask then
    let (device, params) ← paramNextString params []
    let (mask, params) ← paramNextInteger params
    let (tom, _) ← paramNextInteger params
    return .waitmask device mask tom
  else if cmd = commandRunDevice then return .runDevice
  else if cmd = commandExecDevice then return .execDevice
  else none

/-- What a query asks of another connection. -/
structure Conn where
  isMount : Bool
  state : Status

/-- The device, its connections and the pipe at the time of a query. `connection` is
`getConnectionForScript`; `value` looks a value up on a connection. -/
structure World where
  value : List Byte → List Byte → Option (List Byte)
  ownValue : List Byte → Option (List Byte)
  connection : List Byte → Option Conn
  deviceName : Option (List Byte)

/-- The readings of the clock by a waiting query: when it is taken, in the condition of its
loop, and behind the loop. -/
structure Clock where
  start : Int
  cond : Int
  after : Int
  cond_le_after : cond ≤ after

/-- `ERR` -/
def replyErr : List Byte := [69, 82, 82]
/-- `None` -/
def replyNone : List Byte := [78, 111, 110, 101]
/-- `processing` -/
def replyProcessing : List Byte := [112, 114, 111, 99, 101, 115, 115, 105, 110, 103]

/-- The text of the answer to a query that does not wait. -/
def World.answer (w : World) : Query → List Byte
  | .get device value => (w.value device value).getD replyErr
  | .getOwn value => (w.ownValue value).getD replyErr
  | .state device =>
    match w.connection device with
    | some conn => decimal (toInt32 conn.state.toNat)
    | none => replyErr
  | .runDevice => replyProcessing
  | .execDevice => w.deviceName.getD replyNone
  -- only when there is no such device
  | .waitidle _ _ => replyErr
  | .waitmask _ _ _ => replyErr

/-- A query in its loop, and the time `tom` up to which it waits. -/
structure Wait where
  query : Query
  tom : Int

/-- The condition of `waitidle`, and of `waitmask`. -/
def Query.holds (q : Query) (conn : Conn) : Bool :=
  match q with
  | .waitmask _ mask _ => conn.state &&& BitVec.ofInt 32 mask = BitVec.ofInt 32 mask
  | _ => (conn.isMount && conn.state &&& Status.telMaskMoving ≠ Status.telMoving) ||
      conn.state &&& Status.deviceStatusMask = Status.deviceIdle

/-- The connection a query waits for, and for how many seconds. -/
def World.waits (w : World) : Query → Option (Conn × Int)
  | .waitidle device tom => (w.connection device).map (·, tom)
  | .waitmask device _ tom => (w.connection device).map (·, tom)
  | _ => none

/-- Where the connection stands. In the main loop `buf` is what stands between `buf` and
`buf_top`. In `processBuffer`, `command` and `rest` are as in `Recv.scan`. In the loop of a
query `rest` follows its line; `overwritten` bytes were read over it. -/
inductive Control where
  | idle (buf : List Byte)
  | processing (command rest : List Byte)
  | waiting (w : Wait) (rest : List Byte) (overwritten : Nat)

/-- `ConnExe`. `received` is all that was read, `replies` all that was given to
`writeToProcess` with the query it answers; `crashed` is set by a `memmove` of a negative
size. -/
structure ConnExe where
  fork : ConnFork
  control : Control
  crashed : Bool
  received : List Byte
  replies : List (Query × List Byte)

def ConnExe.start : ConnExe where
  fork := .start
  control := .idle []
  crashed := false
  received := []
  replies := []

namespace ConnExe

def reply (s : ConnExe) (q : Query) (text : List Byte) (a : PipeWrite) : ConnExe :=
  { s with fork := s.fork.writeToProcess text a, replies := s.replies ++ [(q, text)] }

/-- `if (time (NULL) >= tom) writeToProcess ("0");` -/
def timedOut (s : ConnExe) (w : Wait) (c : Clock) (a : PipeWrite) : ConnExe :=
  if w.tom ≤ c.after then s.reply w.query [48] a else s

/-- The loop of a query is left: `processBuffer` goes on, at the end of what the main loop
has read, if it has read anything. -/
def resume (s : ConnExe) (rest : List Byte) (overwritten : Nat) : ConnExe :=
  if overwritten = 0 then { s with control := .processing [] rest }
  else if overwritten ≤ rest.length + 1 then { s with control := .idle [] }
  else { s with crashed := true }

/-- The condition of the loop of a query and its body up to `oneRunLoop`. -/
def turn (s : ConnExe) (w : Wait) (rest : List Byte) (overwritten : Nat) (conn : Conn) (c : Clock)
    (a a' : PipeWrite) : ConnExe :=
  if c.cond < w.tom then
    if w.query.holds conn then
      ((s.reply w.query [49] a).timedOut w c a').resume rest overwritten
    else { s with control := .waiting w rest overwritten }
  else (s.timedOut w c a').resume rest overwritten

/-- `ConnExe::processLine`. -/
def processLine (s : ConnExe) (line rest : List Byte) (w : World) (c : Clock)
    (a a' : PipeWrite) : ConnExe :=
  match query line with
  | none => { s with control := .processing [] rest }
  | some q =>
    match w.waits q with
    | some (conn, tom) => s.turn ⟨q, toInt32 (tom + c.start)⟩ rest 0 conn c a a'
    | none => { s.reply q (w.answer q) a with control := .processing [] rest }

/-- One turn of the loop of `processBuffer`. -/
def scan (s : ConnExe) (command rest : List Byte) (w : World) (c : Clock) (a a' : PipeWrite) :
    ConnExe :=
  if atEnd rest then { s with control := .idle command }
  else
    let rest := skipSpace rest
    let command := rest.takeWhile inLine
    match ending (rest.dropWhile inLine) with
    | .line rest => s.processLine command rest w c a a'
    | .lastCr => { s with control := .idle (command ++ [cr]) }
    | .unfinished rest => { s with control := .processing command rest }

/-- `Connection::receive`: in the main loop it enters `processBuffer`; in the loop of a query
it reads over what follows the line. -/
def receive (s : ConnExe) (data : List Byte) : ConnExe :=
  match s.control with
  | .idle buf =>
    { s with control := .processing [] (buf ++ data), received := s.received ++ data }
  | .processing _ _ => s
  | .waiting w rest overwritten =>
    { s with
      control := .waiting w rest (overwritten + data.length)
      received := s.received ++ data }

inductive Event where
  | receive (data : List Byte)
  /-- `processBuffer` goes on. -/
  | scan (w : World) (c : Clock) (a a' : PipeWrite)
  /-- A waiting query gets the control back. -/
  | turn (conn : Conn) (c : Clock) (a a' : PipeWrite)
  | add
  | writable (ready : Bool) (a : PipeWrite)

/-- What happens when; an event that cannot come in a state leaves it alone. -/
def step (s : ConnExe) (e : Event) : ConnExe :=
  if s.crashed then s
  else match e, s.control with
    | .receive data, _ => s.receive data
    | .scan w c a a', .processing command rest => s.scan command rest w c a a'
    | .turn conn c a a', .waiting w rest overwritten => s.turn w rest overwritten conn c a a'
    | .add, _ => { s with fork := s.fork.add }
    | .writable ready a, _ => { s with fork := s.fork.writable ready a }
    | _, _ => s

end ConnExe
end Rts2.Script
