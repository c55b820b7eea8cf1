import Mathlib.Tactic.Common
import Rts2.Connection.Data
import Rts2.Lib.Pieces
import Rts2.Lib.Run

/-! # Images sent on while they arrive

`AsyncDataAPI` sends an image of a camera to a client, with its pixels converted when the client
asked for another type. It sends what has arrived, as far as the socket takes it, and hands the rest
to the source when the image is complete. -/
namespace Rts2.Rts2json.AsyncData
open Rts2.Lib Rts2.Connection

/-! ## Images -/

/-- `sizeof (struct imghdr)` -/
def imghdrSize : Nat := 44

/-- `ntohs` of `data_type`, which is at the begin of a header. -/
def ntohs (buff : List Byte) : Int := (buff.getD 0 0).toNat * 256 + (buff.getD 1 0).toNat

def htons (type : Int) : List Byte :=
  [UInt8.ofNat ((type % 65536).toNat / 256), UInt8.ofNat ((type % 65536).toNat % 256)]

/-- The type of a header is signed: those of real numbers are negative. -/
def dataType (imgh : List Byte) : Int := (ntohs imgh).bmod 65536

/-- `getPixelByteSize`; 40 is `RTS2_DATA_ULONG`. -/
def pixelByteSize (type : Int) : Nat := if type = 40 then 4 else type.natAbs / 8

/-- A header, and pixels of its type. -/
structure Image where
  imgh : List Byte
  pixels : List (List Byte)
  length_imgh : imgh.length = imghdrSize
  length_pixel : ∀ p ∈ pixels, p.length = pixelByteSize (dataType imgh)
  length_lt : (imgh ++ pixels.flatten).length < 2 ^ 64

def Image.bytes (image : Image) : List Byte := image.imgh ++ image.pixels.flatten
def Image.type (image : Image) : Int := dataType image.imgh

/-- `getScaledData` on one pixel, which becomes one of the new type. -/
structure Scaling (newType : Int) where
  pixel : Int → List Byte → List Byte
  length_pixel : ∀ type p, (pixel type p).length = pixelByteSize newType

/-- `getScaledData`, which puts the new pixels over the old ones. -/
def getScaledData {newType : Int} (scaling : Scaling newType) (type : Int) (data : List Byte)
    (numpix : Nat) : List Byte :=
  (pieces (pixelByteSize type) numpix data).flatMap (scaling.pixel type) ++
    data.drop (pixelByteSize newType * numpix)

/-! ## Requests -/

/-- What is sent on; `stale` is in the buffer before the image arrives. `newType` is 0 when no
conversion was asked for. -/
structure Request where
  image : Image
  stale : List Byte
  newType : Int
  scaling : Scaling newType

/-- What `send` returns: the number of bytes it took, EAGAIN or EINTR, or another error. -/
inductive Ret where
  | accepted (bytes : Nat)
  | again
  | error

/-- How it ended: with an error of the socket, with an image that is not complete, with all bytes
sent, or with the rest given to `setResponse`. -/
inductive Ending where
  | lost
  | closed
  | finished
  | response (rest : List Byte)
  deriving DecidableEq

/-- `AsyncDataAPI`, with the number of bytes that have arrived; source and data are set until there
is an ending. What is announced and sent is kept as a record, and `within` until a length is
negative or exceeds the buffer it is used with. -/
structure State where
  received : Nat
  bytesSoFar : Nat
  oldType : Int
  headerSend : Bool
  ending : Option Ending
  announced : List Nat
  sent : List Byte
  within : Bool

def State.start : State := ⟨0, 0, 0, false, none, [], [], true⟩

def State.check (s : State) (p : Prop) [Decidable p] : State := { s with within := s.within && p }

/-- An `int` in an expression of type `size_t`. -/
def sizeT (x : Int) : Nat := (x % 2 ^ 64).toNat

/-- `(oldSize / 8) * length / (newSize / 8)`, as the lengths are scaled everywhere. -/
def scaled (length : Nat) (num den : Int) : Nat :=
  sizeT (num.tdiv 8) * length % 2 ^ 64 / sizeT (den.tdiv 8)

/-- `doSendData` -/
def doSendData (buf : List Byte) (bufs : Nat) (ret : Ret) (s : State) : State :=
  match ret with
  | .accepted bytes =>
    { s.check (bufs ≤ buf.length) with
      bytesSoFar := s.bytesSoFar + min bytes bufs
      sent := s.sent ++ buf.take (min bytes bufs) }
  | .again => s.check (bufs ≤ buf.length)
  | .error => { s.check (bufs ≤ buf.length) with ending := some .lost }

/-- `setResponse` -/
def setResponse (buf : List Byte) (length : Nat) (s : State) : State :=
  { s.check (length ≤ buf.length) with ending := some (.response (buf.take length)) }

section
variable (r : Request)

/-- `getDataBuff` -/
def Request.buff (s : State) : List Byte := r.image.bytes.take s.received ++ r.stale.drop s.received

/-- `newType != 0 && newType != oldType` -/
def Request.Converts (oldType : Int) : Prop := r.newType ≠ 0 ∧ r.newType ≠ oldType

instance (oldType : Int) : Decidable (r.Converts oldType) := inferInstanceAs (Decidable (_ ∧ _))

/-- The header of the response, at the begin of `sendData`. -/
def announce (s : State) : State :=
  if s.bytesSoFar = 0 ∧ s.headerSend = false ∧ imghdrSize ≤ r.image.bytes.length then
    if r.newType ≠ 0 then
      let oldType := if s.oldType = 0 then ntohs (r.buff s) else s.oldType
      { s.check (0 ≤ r.newType ∧ 8 ≤ oldType) with
        oldType := oldType
        headerSend := true
        announced := s.announced ++
          [(imghdrSize + scaled (r.image.bytes.length - imghdrSize) r.newType oldType) % 2 ^ 64] }
    else
      { s with
        headerSend := true
        announced := s.announced ++ [r.image.bytes.length] }
  else s

/-- `bosend`, the place in the image after the bytes that were sent. -/
def Request.bosend (s : State) : Nat :=
  (imghdrSize + scaled (sizeSub s.bytesSoFar imghdrSize) s.oldType r.newType) % 2 ^ 64

/-- It is not negative. -/
def Request.BosendFits (s : State) : Prop :=
  imghdrSize ≤ s.bytesSoFar ∧ 0 ≤ s.oldType ∧ 8 ≤ r.newType

instance (s : State) : Decidable (r.BosendFits s) := inferInstanceAs (Decidable (_ ∧ _))

/-- `newData`, a copy of what has arrived after `bosend`, and the number of its pixels. -/
def Request.newData (s : State) : List Byte :=
  (r.buff s |>.drop (r.bosend s)).take (sizeSub s.received (r.bosend s))
def Request.numpix (s : State) : Nat :=
  sizeSub s.received (r.bosend s) / sizeT (s.oldType.tdiv 8)

/-- The pixels are in `newData` before and after they are scaled. -/
def Request.PixelsFit (s : State) : Prop :=
  r.BosendFits s ∧ r.bosend s ≤ s.received ∧ 8 ≤ s.oldType ∧
    pixelByteSize s.oldType * r.numpix s ≤ (r.newData s).length ∧
    pixelByteSize r.newType * r.numpix s ≤ (r.newData s).length

instance (s : State) : Decidable (r.PixelsFit s) :=
  inferInstanceAs (Decidable (_ ∧ _ ∧ _ ∧ _ ∧ _))

/-- The scaled pixels, and their length. -/
def Request.scaledData (s : State) : List Byte :=
  getScaledData r.scaling s.oldType (r.newData s) (r.numpix s)
def Request.scaledLength (s : State) : Nat := sizeT (r.newType.tdiv 8) * r.numpix s % 2 ^ 64

/-- The end of `sendData`, after `announce`. -/
def sendBytes (ret : Ret) (s : State) : State :=
  if r.Converts s.oldType then
    if s.bytesSoFar < imghdrSize then
      if imghdrSize ≤ s.received then
        doSendData ((htons r.newType ++ (r.buff s |>.take imghdrSize).drop 2).drop s.bytesSoFar)
          (imghdrSize - s.bytesSoFar) ret s
      else s
    else doSendData (r.scaledData s) (r.scaledLength s) ret (s.check (r.PixelsFit s))
  else
    doSendData (r.buff s |>.drop s.bytesSoFar) (sizeSub s.received s.bytesSoFar) ret
      (s.check (s.bytesSoFar ≤ s.received))

def sendData (ret : Ret) (s : State) : State := sendBytes r ret (announce r s)

/-- The response for an image whose header was not sent completely. The type of a copy of the header
is changed, and the copy is not sent. -/
def responseInHeader (s : State) : State :=
  let oldType := ntohs (r.buff s)
  let rest := imghdrSize - s.bytesSoFar
  let ds := sizeSub (sizeSub s.received (r.bosend s) + s.bytesSoFar) imghdrSize / sizeT (oldType.tdiv 8)
  let length := (imghdrSize + sizeT (r.newType.tdiv 8) * ds) % 2 ^ 64
  let newData := (r.newData s).take rest ++
    getScaledData r.scaling oldType ((r.newData s).drop rest) ds
  let s := s.check (rest ≤ (r.newData s).length ∧
    pixelByteSize oldType * ds + rest ≤ (r.newData s).length ∧
    pixelByteSize r.newType * ds + rest ≤ (r.newData s).length)
  setResponse newData length
    { s with
      oldType := oldType
      headerSend := s.headerSend || decide (s.bytesSoFar = 0)
      announced := s.announced ++ if s.bytesSoFar = 0 ∧ s.headerSend = false then [length] else [] }

def fullDataReceived (s : State) : State :=
  if r.Converts s.oldType then
    let s := s.check (r.BosendFits s)
    if s.received < r.image.bytes.length then { s with ending := some .closed }
    else if r.bosend s < s.received then
      if s.bytesSoFar < imghdrSize then responseInHeader r s
      else setResponse (r.scaledData s) (r.scaledLength s) (s.check (r.PixelsFit s))
    else { s with ending := some .finished }
  else
    if s.received < r.image.bytes.length then { s with ending := some .closed }
    else if s.bytesSoFar < s.received then
      setResponse (r.buff s |>.drop s.bytesSoFar) (s.received - s.bytesSoFar) s
    else { s with ending := some .finished }

/-! ## Runs -/

/-- More bytes of the image arrive; the camera or the idle loop tells so; the image is complete or
its connection was lost. -/
inductive Event where
  | arrive (bytes : Nat)
  | dataReceived (ret : Ret)
  | idle (ret : Ret)
  | fullDataReceived

def step (s : State) : Event → State
  | .arrive bytes => { s with received := min (s.received + bytes) r.image.bytes.length }
  | .dataReceived ret => if s.ending = none then sendData r ret s else s
  | .idle ret => if s.ending = none ∧ s.bytesSoFar < s.received then sendData r ret s else s
  | .fullDataReceived => if s.ending = none then AsyncData.fullDataReceived r s else s

/-! ## What is to be sent -/

/-- The header with the requested type, and each pixel converted. -/
def Request.expected : List Byte :=
  if r.newType = 0 ∨ r.newType = r.image.type then r.image.bytes
  else htons r.newType ++ r.image.imgh.drop 2 ++ r.image.pixels.flatMap (r.scaling.pixel r.image.type)

/-- All that is given to the client, with the rest in the response of the source. -/
def State.output (s : State) : List Byte :=
  match s.ending with
  | some (.response rest) => s.sent ++ rest
  | _ => s.sent

/-- What is sent is expected and announced, all of it when the image is complete, and the lengths
are those of the buffers. -/
structure Sends (s : State) : Prop where
  within : s.within = true
  announced : s.announced = [] ∧ s.output = [] ∨ s.announced = [r.expected.length]
  ordered : s.output <+: r.expected
  whole : s.ending = some .finished ∨ (∃ rest, s.ending = some (.response rest)) →
    s.output = r.expected ∧ s.announced = [r.expected.length]

/-- Sizes of pixels are an eighth of the types' numbers, if pixels are converted or counted. -/
def TypesFit : Prop :=
  r.newType = 0 ∨ 8 ≤ r.image.type ∧ 8 ≤ r.newType ∧
    r.newType.toNat / 8 * r.image.bytes.length < 2 ^ 64 ∧
    (r.newType = r.image.type ∨ r.image.type ≠ 40 ∧ r.newType ≠ 40)

/-- A pixel was not sent in part, and the converted pixels that are to be sent are not longer than
what has arrived. -/
def Aligned (s : State) : Prop :=
  pixelByteSize r.newType ∣ s.bytesSoFar - imghdrSize ∧
    let left := s.received - (imghdrSize + pixelByteSize r.image.type *
      ((s.bytesSoFar - imghdrSize) / pixelByteSize r.newType))
    pixelByteSize r.newType * (left / pixelByteSize r.image.type) ≤ left

instance (s : State) : Decidable (Aligned r s) := inferInstanceAs (Decidable (_ ∧ _))

/-- The type has arrived before it is looked at, and pixels are aligned. -/
def SendFits (s : State) : Prop :=
  s.ending = none → r.newType ≠ 0 →
    (s.headerSend = false → 2 ≤ s.received) ∧
      (r.newType ≠ r.image.type → imghdrSize ≤ s.bytesSoFar → Aligned r s)

instance (s : State) : Decidable (SendFits r s) :=
  inferInstanceAs (Decidable (_ → _ → (_ → _) ∧ (_ → _ → _)))

/-- The image was announced before it is complete, and of a converted one the header was sent. -/
def FullFits (s : State) : Prop :=
  s.ending = none → (r.newType ≠ 0 ∨ s.received = r.image.bytes.length → s.headerSend = true) ∧
    (r.newType ≠ 0 → r.newType ≠ r.image.type → imghdrSize ≤ s.bytesSoFar ∧
      (s.received = r.image.bytes.length → Aligned r s))

instance (s : State) : Decidable (FullFits r s) :=
  inferInstanceAs (Decidable (_ → (_ → _) ∧ (_ → _ → _ ∧ (_ → _))))

def StepFits (s : State) : Event → Prop
  | .arrive _ => True
  | .dataReceived _ => SendFits r s
  | .idle _ => s.bytesSoFar < s.received → SendFits r s
  | .fullDataReceived => FullFits r s

instance (s : State) : ∀ e, Decidable (StepFits r s e)
  | .arrive _ => inferInstanceAs (Decidable True)
  | .dataReceived _ => inferInstanceAs (Decidable (SendFits r s))
  | .idle _ => inferInstanceAs (Decidable (_ → _))
  | .fullDataReceived => inferInstanceAs (Decidable (FullFits r s))

end

end Rts2.Rts2json.AsyncData
