import Rts2.Connection.Data
import Rts2.Lib.Run
import Mathlib.Logic.Function.Basic

/-! # Receiving on a connection

`Connection::receive` reads a piece of the stream into the buffer, or straight
into a data channel while a chunk is open; `processBuffer` cuts the buffer into
lines and hands them to `processLine`, and moves the bytes of a chunk that
arrived behind their header out of the buffer. -/
namespace Rts2.Connection
open Rts2.Lib

/-- What the handlers outside the receive path decide: whether a line (the last
of the lines so far) makes them close the connection, and whether a shared
memory segment can be attached. -/
structure Handlers where
  closes : List (List Byte) → Bool
  attach : Int → Bool

/-- The `D` headers accepted: the chunk, and what remained of its channel. -/
structure Header where
  chunk : Int
  rest : Nat
  deriving DecidableEq, Repr

/-- The fields of `Connection` that `processBuffer` works on. `buf` is what
stands between `buf` and `buf_top`. `isOpen` is `sock >= 0`. `crashed` is set by
an exception nothing catches and by undefined behaviour; nothing happens after.
The lines handed to `processLine`, the data handed to `fullDataReceived` and the
headers are kept as a record; `overran` is set by every store that leaves a
channel that does not fit. -/
structure Recv where
  buf : List Byte
  activeReadData : Int
  activeReadChannel : Int
  readChannels : Int → Option DataChannels
  sharedReadMemory : Option Int
  isOpen : Bool
  crashed : Bool
  lines : List (List Byte)
  full : List (Int × DataChannels)
  headers : List Header
  overran : Bool

def Recv.start : Recv where
  buf := []
  activeReadData := -1
  activeReadChannel := 0
  readChannels := fun _ => none
  sharedReadMemory := none
  isOpen := true
  crashed := false
  lines := []
  full := []
  headers := []
  overran := false

def Recv.crash (s : Recv) : Recv := { s with crashed := true }

/-- `Connection::connectionError`. -/
def Recv.connectionError (s : Recv) : Recv :=
  { s with activeReadData := -1, isOpen := false }

def Recv.setChannels (s : Recv) (conn : Int) (channels : Option DataChannels) : Recv :=
  { s with readChannels := Function.update s.readChannels conn channels }

/-- The data is complete, or killed: `fullDataReceived`, then it is erased. -/
def Recv.endData (s : Recv) (conn : Int) (channels : DataChannels) : Recv :=
  { s.setChannels conn none with full := s.full ++ [(conn, channels)] }

/-! ## Storing data -/

/-- The channel of an open chunk, and the channels it is one of. -/
def Recv.activeChannel (s : Recv) : Option (List DataRead × DataRead) :=
  match s.readChannels s.activeReadData with
  | some (.data channels) => (atIdx channels s.activeReadChannel).map (channels, ·)
  | _ => none

/-- Put `data` into the active channel. -/
def Recv.storeActive (s : Recv) (channels : List DataRead) (d : DataRead) (data : List Byte) :
    Recv :=
  { s.setChannels s.activeReadData
      (some (.data (channels.set s.activeReadChannel.toNat (d.store data)))) with
    overran := s.overran || !decide (d.store data).Fits }

/-- `Connection::dataReceived`. -/
def Recv.dataReceived (s : Recv) : Recv :=
  match s.readChannels s.activeReadData with
  | some (.data channels) =>
    match atIdx channels s.activeReadChannel with
    | none => s.crash
    | some d =>
      if restSize channels = 0 then
        { s.endData s.activeReadData (.data channels) with activeReadData := -1 }
      else if d.binaryReadChunkSize = 0 then { s with activeReadData := -1 }
      else s
  -- no such entry, or shared segments, which are never read
  | _ => s.crash

/-- `addData` of the active channel and `dataReceived`: the state, and how many
bytes were taken. `memcpy` of a negative size runs over every buffer. -/
def Recv.takeData (s : Recv) (data : List Byte) : Recv × Nat :=
  match s.activeChannel with
  | none => (s.crash, 0)
  | some (channels, d) =>
    if d.takes data.length < 0 then ({ s.crash with overran := true }, 0)
    else
      let n := (d.takes data.length).toNat
      ((s.storeActive channels d (data.take n)).dataReceived, n)

/-! ## Lines -/

def protoBinary : List Byte := [67]
def protoData : List Byte := [68]
def protoBinaryKilled : List Byte := [72]
def protoShared : List Byte := [73]
def protoSharedFull : List Byte := [74]
def protoSharedKilled : List Byte := [75]
/-- `fits_data` -/
def commandDataInFits : List Byte := [102, 105, 116, 115, 95, 100, 97, 116, 97]

/-- A `C` line: channels are declared. -/
def Recv.lineBinary (s : Recv) (params : List Byte) : Recv :=
  match paramNextInteger params with
  | none => s.connectionError
  | some (dataConn, params) =>
    match initFromConnection params with
    | none => s.crash
    | some channels => s.setChannels dataConn (some (.data channels))

/-- A `D` line: a chunk is announced. -/
def Recv.lineData (s : Recv) (params : List Byte) : Recv :=
  match paramNextInteger params with
  | none => s.connectionError
  | some (conn, params) =>
    match paramNextInteger params with
    | none => s.connectionError
    | some (chan, params) =>
      match s.readChannels conn with
      | none => s.crash
      | some (.shared segments) =>
        -- `readDataSize` of a shared segment reads nothing
        if (atIdx segments chan).isNone then s.crash
        else if paramEnd params then { s with activeReadData := conn, activeReadChannel := chan }
        else s.connectionError
      | some (.data channels) =>
        match atIdx channels chan with
        | none => s.crash
        | some d =>
          match paramNextSSizeT params with
          | none => s.connectionError
          | some (chunk, params) =>
            let s := s.setChannels conn
              (some (.data (channels.set chan.toNat { d with binaryReadChunkSize := chunk })))
            if paramEnd params then
              { s with
                activeReadData := conn
                activeReadChannel := chan
                headers := s.headers ++ [{ chunk, rest := d.binaryReadDataSize }] }
            else s.connectionError

/-- An `H` line: the sender gave the data up. -/
def Recv.lineKilled (s : Recv) (params : List Byte) : Recv :=
  match paramNextInteger params with
  | none => s.connectionError
  | some (conn, _) =>
    match s.readChannels conn with
    | some channels => s.endData conn channels
    | none => s

/-- An `I` line: data in shared memory. -/
def Recv.lineShared (h : Handlers) (s : Recv) (params : List Byte) : Recv :=
  match paramNextInteger params with
  | none => s.connectionError
  | some (conn, params) =>
    match paramNextInteger params with
    | none => s.connectionError
    | some (sharedMem, params) =>
      let attached := s.sharedReadMemory = some sharedMem
      if attached ∨ h.attach sharedMem then
        match initSharedFromConnection params with
        | none => s.crash
        | some segments =>
          { s.setChannels conn (some (.shared segments)) with sharedReadMemory := some sharedMem }
      else { s.connectionError with sharedReadMemory := some (-1) }

/-- A `J` or `K` line: data in shared memory is complete, or killed. A channel
read from the socket is no shared segment to release. -/
def Recv.lineSharedFull (s : Recv) (params : List Byte) : Recv :=
  match paramNextInteger params with
  | none => s.connectionError
  | some (conn, params) =>
    if paramEnd params then
      match s.readChannels conn with
      | none => s
      | some (.data (_ :: _)) => s.crash
      | some channels => s.endData conn channels
    else s.connectionError

/-- A `fits_data` line. -/
def Recv.lineFits (s : Recv) (params : List Byte) : Recv :=
  match paramNextString params [] with
  | none => s.connectionError
  | some (_, params) =>
    match paramNextInteger params with
    | none => s.connectionError
    | some (_, params) => if paramEnd params then s else s.connectionError

/-- `Connection::processLine`; a line of any other command goes to its handler,
which may find the connection broken. -/
def Recv.processLine (h : Handlers) (s : Recv) (line : List Byte) : Recv :=
  let s := { s with lines := s.lines ++ [line] }
  let command := line.takeWhile (!isspace ·)
  let params := (line.dropWhile (!isspace ·)).drop 1
  if command = protoBinary then s.lineBinary params
  else if command = protoData then s.lineData params
  else if command = protoBinaryKilled then s.lineKilled params
  else if command = protoShared then s.lineShared h params
  else if command = protoSharedFull ∨ command = protoSharedKilled then s.lineSharedFull params
  else if command = commandDataInFits then s.lineFits params
  else if h.closes s.lines then s.connectionError
  else s

/-! ## The buffer -/

/-- A byte of a line: no NUL, LF or CR. -/
def inLine (b : Byte) : Bool := b ≠ 0 && b ≠ lf && b ≠ cr

/-- What stands behind the text of a line. -/
inductive Ending where
  /-- LF or CR LF, and the bytes behind it -/
  | line (rest : List Byte)
  /-- CR at the end of the buffer: its LF may come with the next read. -/
  | lastCr
  /-- The end of the buffer, or a CR that ends no line. -/
  | unfinished (rest : List Byte)

/-- `!*buf_top` -/
def atEnd (s : List Byte) : Bool :=
  match s with
  | [] => true
  | b :: _ => b = 0

def ending : List Byte → Ending
  | [] => .unfinished []
  | b :: rest =>
    if b = lf then .line rest
    else if b = cr then
      match rest with
      | [] => .lastCr
      | c :: rest' =>
        if c = lf then .line rest'
        else if c = 0 then .lastCr
        else .unfinished (b :: rest)
    else .unfinished (b :: rest)

/-- `processLine`, and the bytes of the chunk it opened moved out of the buffer. -/
def Recv.endLine (h : Handlers) (s : Recv) (line rest : List Byte) : Recv × List Byte :=
  let s := s.processLine h line
  if s.crashed = false ∧ 0 ≤ s.activeReadData then
    ((s.takeData rest).1, rest.drop (s.takeData rest).2)
  else (s, rest)

/-- The loop of `processBuffer`: `command` is what stands between `command_start`
and `buf_top`, `rest` what follows. -/
def Recv.scan (h : Handlers) : Nat → Recv → List Byte → List Byte → Recv
  | 0, s, command, _ => { s with buf := command }
  | fuel + 1, s, command, rest =>
    if s.crashed then s
    else if atEnd rest then { s with buf := command }
    else
      let rest := skipSpace rest
      let command := rest.takeWhile inLine
      match ending (rest.dropWhile inLine) with
      | .line rest => (s.endLine h command rest).1.scan h fuel [] (s.endLine h command rest).2
      | .lastCr => { s with buf := command ++ [cr] }
      | .unfinished rest => s.scan h fuel command rest

/-- `Connection::processBuffer`, every turn of whose loop takes a byte. -/
def Recv.processBuffer (h : Handlers) (s : Recv) : Recv :=
  { s with buf := [] }.scan h (s.buf.length + 1) [] s.buf

/-! ## Reads -/

/-- `MAX_DATA` -/
def maxData : Nat := 2000

/-- A connection, its buffer and the bytes its peer has sent. -/
structure Link where
  conn : Recv
  bufSize : Nat
  input : List Byte

def Link.start (input : List Byte) : Link where
  conn := .start
  bufSize := maxData
  input := input

/-- `Connection::checkBufferSize`. -/
def Link.checkBufferSize (l : Link) : Link :=
  if toInt32 l.bufSize = l.conn.buf.length then { l with bufSize := l.bufSize + maxData } else l

/-- What `poll` and `read` bring: at most `n` bytes are there, or the read is
interrupted, finds the end of the stream, or fails. -/
inductive Poll where
  | data (n : Nat)
  | eintr
  | eof
  | error

/-- The bytes a `read` of `size` returns when `n` are there. -/
def Link.arrived (l : Link) (n size : Nat) : List Byte := l.input.take (min n size)

/-- `Connection::receive` while a chunk is open. -/
def Link.receiveData (l : Link) (channels : List DataRead) (d : DataRead) : Poll → Link
  | .data n =>
    let data := l.arrived n (d.binaryReadChunkSize % 2 ^ 64).toNat
    if data = [] then l
    else { l with
      conn := (l.conn.storeActive channels d data).dataReceived
      input := l.input.drop data.length }
  | .eintr => l
  | .eof => l
  | .error => { l with conn := l.conn.connectionError.dataReceived }

/-- `read` into the buffer and `processBuffer`. A read of no bytes looks like the
end of the stream. -/
def Link.readText (h : Handlers) (l : Link) (n : Nat) : Link :=
  let data := l.arrived n (l.bufSize - l.conn.buf.length)
  if data = [] then { l with conn := l.conn.connectionError }
  else { l with
    conn := { l.conn with buf := l.conn.buf ++ data }.processBuffer h
    input := l.input.drop data.length }

/-- `Connection::receive` of text. -/
def Link.receiveText (h : Handlers) (l : Link) : Poll → Link
  | .data n => if n = 0 ∨ l.input = [] then l else l.checkBufferSize.readText h n
  | .eintr => l.checkBufferSize
  | .eof => { l.checkBufferSize with conn := l.conn.connectionError }
  | .error => { l.checkBufferSize with conn := l.conn.connectionError }

/-- `Connection::receive`. -/
def Link.receive (h : Handlers) (l : Link) (p : Poll) : Link :=
  if l.conn.crashed ∨ l.conn.isOpen = false then l
  else if 0 ≤ l.conn.activeReadData then
    match l.conn.activeChannel with
    | none => { l with conn := l.conn.crash }
    | some (channels, d) => l.receiveData channels d p
  else l.receiveText h p

end Rts2.Connection
