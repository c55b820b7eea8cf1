import Rts2.Connection.Data
import Rts2.Connection.Receive
import Rts2.Connection.ValueLine

/-! # Sending binary data

`startBinaryData` declares the channels of a data connection, `sendBinaryData`
sends a piece of one of them behind its header. A message has to go out in one
`write`; the piece goes out as the socket takes it. -/
namespace Rts2.Connection
open Rts2.Lib

/-- What the socket does with the bytes it is given: it takes at most as many, it is
interrupted, or it fails. -/
inductive Answer where
  | takes (n : Nat)
  | eintr
  | error
  deriving DecidableEq

/-- The fields of `Connection` that sending works on. `isOpen` is `sock != -1`, a
`DataWrite` is the list of what its channels still have to send; `sent` is what the
socket has taken. -/
structure Sender where
  isOpen : Bool
  dataConn : Int
  writeChannels : Int → Option (List Nat)
  sent : List Byte

/-- `Connection::connectionError`. -/
def Sender.connectionError (s : Sender) : Sender := { s with isOpen := false }

/-- The `write` of `sendMsg`. When the answers run out all bytes are taken. -/
def Sender.write (s : Sender) (bytes : List Byte) : List Answer → Sender × Bool
  | [] => ({ s with sent := s.sent ++ bytes }, true)
  | .eintr :: answers => s.write bytes answers
  | .error :: _ => (s.connectionError, false)
  | .takes n :: _ =>
    if bytes.length ≤ n then ({ s with sent := s.sent ++ bytes }, true)
    else ({ s with sent := s.sent ++ bytes.take n }.connectionError, false)

/-- `Connection::sendMsg`, and whether it returned 0. -/
def Sender.sendMsg (s : Sender) (msg : List Byte) (answers : List Answer) : Sender × Bool :=
  if s.isOpen then s.write (msg ++ [lf]) answers else (s, false)

/-- A channel size behind its space. -/
def sizeParam (size : Nat) : List Byte := 32 :: decimal size

/-- The `C` line. -/
def binaryLine (dataConn dataType : Int) (chansize : List Nat) : List Byte :=
  protoBinary ++ 32 :: (decimal dataConn ++ 32 :: (decimal dataType ++
    32 :: (decimal chansize.length ++ chansize.flatMap sizeParam)))

/-- The `D` line. -/
def dataLine (data_conn : Int) (chan dataSize : Nat) : List Byte :=
  protoData ++ 32 :: (decimal data_conn ++ 32 :: (decimal chan ++ 32 :: decimal dataSize))

/-- `Connection::startBinaryData`, and what it returned. -/
def Sender.startBinaryData (s : Sender) (dataType : Int) (chansize : List Nat)
    (answers : List Answer) : Sender × Int :=
  let s := { s with dataConn := s.dataConn + 1 }
  match s.sendMsg (binaryLine s.dataConn dataType chansize) answers with
  | (s, false) => (s, -1)
  | (s, true) =>
    ({ s with writeChannels := Function.update s.writeChannels s.dataConn (some chansize) },
      s.dataConn)

/-- `DataWrite::getDataSize` -/
def writeDataSize (channels : List Nat) : Nat := channels.sum % 2 ^ 64

/-- `Connection::getWriteBinaryDataSize` -/
def Sender.getWriteBinaryDataSize (s : Sender) (data_conn : Int) : Nat :=
  match s.writeChannels data_conn with
  | none => 0
  | some channels => writeDataSize channels

/-- `DataWrite::dataWritten` -/
def dataWritten (channels : List Nat) (chan size : Nat) : List Nat :=
  channels.modify chan (sizeSub · size)

/-- `send` has taken these bytes; the data connection is erased when nothing is left
of it. -/
def Sender.wrote (s : Sender) (data_conn : Int) (chan : Nat) (bytes : List Byte) : Sender :=
  let s := { s with sent := s.sent ++ bytes }
  match s.writeChannels data_conn with
  | none => s
  | some channels =>
    let channels := dataWritten channels chan bytes.length
    let left := if writeDataSize channels = 0 then none else some channels
    { s with writeChannels := Function.update s.writeChannels data_conn left }

/-- The loop of `sendBinaryData`: `data` is what stands between `binaryWriteTop` and
`binaryEnd`. When the answers run out, what is asked for is taken; a size cut to less
than `data` would be asked for, as 0 bytes, for ever. -/
def Sender.sendLoop (data_conn : Int) (chan : Nat) :
    List Answer → Sender → List Byte → Nat → Sender × Bool
  | [], s, data, dataSize =>
    if data = [] then (s, true)
    else (s.wrote data_conn chan (data.take (min dataSize (s.getWriteBinaryDataSize data_conn))),
      true)
  | answer :: answers, s, data, dataSize =>
    if data = [] then (s, true)
    else
      let dataSize := min dataSize (s.getWriteBinaryDataSize data_conn)
      match answer with
      | .error => (s.connectionError, false)
      | .eintr => Sender.sendLoop data_conn chan answers s data dataSize
      | .takes n =>
        Sender.sendLoop data_conn chan answers
          (s.wrote data_conn chan (data.take (min n dataSize))) (data.drop (min n dataSize))
          (dataSize - min n dataSize)

/-- `Connection::sendBinaryData`, and whether it returned 0. -/
def Sender.sendBinaryData (s : Sender) (data_conn : Int) (chan : Nat) (data : List Byte)
    (header answers : List Answer) : Sender × Bool :=
  match s.sendMsg (dataLine data_conn chan data.length) header with
  | (s, false) => (s, false)
  | (s, true) => Sender.sendLoop data_conn chan answers s data data.length

/-! ## Messages -/

/-- One `write` takes all these bytes. -/
def writesWhole (size : Nat) : List Answer → Bool
  | [] => true
  | .eintr :: answers => writesWhole size answers
  | .error :: _ => false
  | .takes n :: _ => decide (size ≤ n)

section
variable {s : Sender} {answers : List Answer}

theorem write_whole {bytes : List Byte} (h : writesWhole bytes.length answers = true) :
    s.write bytes answers = ({ s with sent := s.sent ++ bytes }, true) := by
  induction answers with
  | nil => rfl
  | cons answer answers ih =>
    cases answer with
    | takes n => exact if_pos (of_decide_eq_true h)
    | eintr => exact ih h
    | error => cases h

/-- A message that is cut breaks the connection, with its LF unsent. -/
theorem write_cut {msg : List Byte} (h : writesWhole (msg ++ [lf]).length answers = false) :
    ∃ part, part <+: msg ∧ s.write (msg ++ [lf]) answers =
      ({ s with sent := s.sent ++ part }.connectionError, false) := by
  induction answers with
  | nil => cases h
  | cons answer answers ih =>
    cases answer with
    | takes n =>
      have hn : ¬ (msg ++ [lf]).length ≤ n := of_decide_eq_false h
      have hcut : (msg ++ [lf]).take n = msg.take n := by
        rw [List.length_append, List.length_singleton] at hn
        exact List.take_append_of_le_length (by omega)
      refine ⟨msg.take n, List.take_prefix _ _, ?_⟩
      rw [Sender.write, if_neg hn, hcut]
    | eintr => exact ih h
    | error =>
      refine ⟨[], List.nil_prefix, ?_⟩
      rw [List.append_nil]
      rfl

theorem sendMsg_whole {msg : List Byte} (hopen : s.isOpen = true)
    (h : writesWhole (msg.length + 1) answers = true) :
    s.sendMsg msg answers = ({ s with sent := s.sent ++ (msg ++ [lf]) }, true) := by
  rw [Sender.sendMsg, if_pos hopen]
  exact write_whole (by simpa using h)

theorem sendMsg_cut {msg : List Byte} (hopen : s.isOpen = true)
    (h : writesWhole (msg.length + 1) answers = false) :
    ∃ part, part <+: msg ∧ s.sendMsg msg answers =
      ({ s with sent := s.sent ++ part }.connectionError, false) := by
  rw [Sender.sendMsg, if_pos hopen]
  exact write_cut (by simpa using h)

theorem sendMsg_closed (hclosed : s.isOpen = false) (msg : List Byte) :
    s.sendMsg msg answers = (s, false) := by
  rw [Sender.sendMsg, if_neg (by simp [hclosed])]

end

/-! ## Pieces -/

/-- What is left of a channel after a piece of it. -/
def takeOff (rest : List Nat) (chan size : Nat) : List Nat := rest.modify chan (· - size)

theorem takeOff_zero (rest : List Nat) (chan : Nat) : takeOff rest chan 0 = rest := by
  induction rest generalizing chan with
  | nil => cases chan <;> rfl
  | cons n rest ih =>
    cases chan with
    | zero => rfl
    | succ chan => exact congrArg (n :: ·) (ih chan)

theorem takeOff_takeOff (rest : List Nat) (chan size size' : Nat) :
    takeOff (takeOff rest chan size) chan size' = takeOff rest chan (size + size') := by
  induction rest generalizing chan with
  | nil => cases chan <;> rfl
  | cons n rest ih =>
    cases chan with
    | zero => simp [takeOff, Nat.sub_sub]
    | succ chan => exact congrArg (n :: ·) (ih chan)

theorem takeOff_sum {rest : List Nat} {chan size : Nat} (h : size ≤ rest.getD chan 0) :
    (takeOff rest chan size).sum + size = rest.sum := by
  induction rest generalizing chan with
  | nil =>
    have hzero : size = 0 := by simpa using h
    rw [hzero, takeOff_zero]
    rfl
  | cons n rest ih =>
    cases chan with
    | zero =>
      have hn : size ≤ n := h
      simp only [takeOff, List.modify_zero_cons, List.sum_cons]
      omega
    | succ chan =>
      have hrest : (takeOff rest chan size).sum + size = rest.sum := ih h
      simp only [takeOff, List.modify_succ_cons, List.sum_cons] at hrest ⊢
      omega

theorem getD_le_sum (rest : List Nat) (chan : Nat) : rest.getD chan 0 ≤ rest.sum := by
  induction rest generalizing chan with
  | nil => simp
  | cons n rest ih =>
    cases chan with
    | zero => simp
    | succ chan =>
      have hrest := ih chan
      simp only [List.getD_cons_succ, List.sum_cons]
      omega

theorem takeOff_getD {rest : List Nat} {chan size : Nat} :
    (takeOff rest chan size).getD chan 0 = rest.getD chan 0 - size := by
  induction rest generalizing chan with
  | nil => simp [takeOff]
  | cons n rest ih =>
    cases chan with
    | zero => rfl
    | succ chan => exact ih

theorem modify_congr {f g : Nat → Nat} {l : List Nat} {i : Nat}
    (h : f (l.getD i 0) = g (l.getD i 0)) : l.modify i f = l.modify i g := by
  induction l generalizing i with
  | nil => simp
  | cons n l ih =>
    cases i with
    | zero =>
      have hn : f n = g n := h
      simp [hn]
    | succ i => simp [ih h]

theorem dataWritten_eq {rest : List Nat} {chan size : Nat} (h : size ≤ rest.getD chan 0)
    (htotal : rest.sum < 2 ^ 64) : dataWritten rest chan size = takeOff rest chan size :=
  modify_congr (sizeSub_of_le h (lt_of_le_of_lt (getD_le_sum rest chan) htotal))

/-- The channels of a data connection have this left to send; with nothing left it may
be erased. -/
structure Sending (s : Sender) (data_conn : Int) (rest : List Nat) : Prop where
  entry : s.writeChannels data_conn = some rest ∨ s.writeChannels data_conn = none ∧ rest.sum = 0
  total : rest.sum < 2 ^ 64

section
variable {s : Sender} {data_conn : Int} {rest : List Nat} {chan : Nat}

theorem Sending.getWriteBinaryDataSize (h : Sending s data_conn rest) :
    s.getWriteBinaryDataSize data_conn = rest.sum := by
  unfold Sender.getWriteBinaryDataSize
  rcases h.entry with hsome | ⟨hnone, hzero⟩
  · rw [hsome]
    exact Nat.mod_eq_of_lt h.total
  · rw [hnone, hzero]

theorem wrote_frame (s : Sender) (data_conn : Int) (chan : Nat) (bytes : List Byte) :
    (s.wrote data_conn chan bytes).sent = s.sent ++ bytes ∧
      (s.wrote data_conn chan bytes).isOpen = s.isOpen := by
  unfold Sender.wrote
  dsimp only
  split <;> exact ⟨rfl, rfl⟩

theorem Sending.wrote (h : Sending s data_conn rest) {bytes : List Byte}
    (hlen : bytes.length ≤ rest.getD chan 0) :
    Sending (s.wrote data_conn chan bytes) data_conn (takeOff rest chan bytes.length) := by
  have hsum := takeOff_sum hlen
  have htotal := h.total
  refine ⟨?_, by omega⟩
  unfold Sender.wrote
  rcases h.entry with hsome | ⟨hnone, hzero⟩
  · simp only [hsome, dataWritten_eq hlen htotal]
    split
    next hdone =>
      rw [writeDataSize, Nat.mod_eq_of_lt (by omega)] at hdone
      exact .inr ⟨Function.update_self .., hdone⟩
    next => exact .inl (Function.update_self ..)
  · simp only [hnone]
    exact .inr ⟨trivial, by omega⟩

/-- A piece that is no more than what its channel has left goes out as it is, in
whatever parts the socket takes it. -/
theorem sendLoop_spec (chan : Nat) {answers : List Answer} (hanswers : Answer.error ∉ answers)
    (h : Sending s data_conn rest) {data : List Byte} (hlen : data.length ≤ rest.getD chan 0) :
    ∃ s', Sender.sendLoop data_conn chan answers s data data.length = (s', true) ∧
      s'.sent = s.sent ++ data ∧ s'.isOpen = s.isOpen ∧
      Sending s' data_conn (takeOff rest chan data.length) := by
  induction answers generalizing s data rest with
  | nil =>
    unfold Sender.sendLoop
    split
    next hnil =>
      rw [hnil, List.length_nil, takeOff_zero, List.append_nil]
      exact ⟨s, rfl, rfl, rfl, h⟩
    next =>
      have hsize : data.length ≤ s.getWriteBinaryDataSize data_conn := by
        rw [h.getWriteBinaryDataSize]
        exact hlen.trans (getD_le_sum rest chan)
      rw [min_eq_left hsize, List.take_length]
      obtain ⟨hsent, hopen⟩ := wrote_frame s data_conn chan data
      exact ⟨_, rfl, hsent, hopen, h.wrote hlen⟩
  | cons answer answers ih =>
    obtain ⟨hanswer, hrest⟩ := not_or.mp (mt List.mem_cons.mpr hanswers)
    unfold Sender.sendLoop
    split
    next hnil =>
      rw [hnil, List.length_nil, takeOff_zero, List.append_nil]
      exact ⟨s, rfl, rfl, rfl, h⟩
    next =>
      have hsize : data.length ≤ s.getWriteBinaryDataSize data_conn := by
        rw [h.getWriteBinaryDataSize]
        exact hlen.trans (getD_le_sum rest chan)
      rw [min_eq_left hsize]
      cases answer with
      | error => exact absurd rfl hanswer
      | eintr => exact ih hrest h hlen
      | takes n =>
        have hpiece : (data.take (min n data.length)).length = min n data.length := by
          rw [List.length_take]
          omega
        have hleft : (data.drop (min n data.length)).length = data.length - min n data.length :=
          List.length_drop
        have hwrote := h.wrote (show (data.take (min n data.length)).length ≤ rest.getD chan 0 by
          omega)
        obtain ⟨hsent, hopen⟩ := wrote_frame s data_conn chan (data.take (min n data.length))
        obtain ⟨s', hloop, hsent', hopen', hsending⟩ := ih hrest hwrote
          (show (data.drop (min n data.length)).length ≤ _ by rw [takeOff_getD]; omega)
        rw [hleft] at hloop
        refine ⟨s', hloop, ?_, hopen'.trans hopen, ?_⟩
        · rw [hsent', hsent, List.append_assoc, List.take_append_drop]
        · rw [takeOff_takeOff, hpiece, hleft] at hsending
          rwa [show min n data.length + (data.length - min n data.length) = data.length by omega]
            at hsending

end

end Rts2.Connection
