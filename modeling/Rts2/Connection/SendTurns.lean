import Rts2.Connection.SendBinary
import Rts2.Lib.Endless

/-! # The turns of `sendBinaryData`

The loop of `sendBinaryData` turn by turn, on a socket that answers without an end. The piece that
is sent is clipped to what is left of the whole data connection, while its header and its counter
are those of one channel. -/
namespace Rts2.Connection
open Rts2.Lib

/-- `Connection::getWriteBinaryDataSize` of a channel. -/
def Sender.channelSize (s : Sender) (data_conn : Int) (chan : Nat) : Nat :=
  match s.writeChannels data_conn with
  | none => 0
  | some channels => channels.getD chan 0

/-- The variables of the loop: `data` stands between `binaryWriteTop` and `binaryEnd`. -/
structure Piece where
  conn : Sender
  data : List Byte
  dataSize : Nat

/-- What a turn asks the socket to take. -/
def Piece.asked (data_conn : Int) (p : Piece) : Nat :=
  min p.dataSize (p.conn.getWriteBinaryDataSize data_conn)

inductive SendPhase where
  | turning (p : Piece)
  | returned (s : Sender) (ok : Bool)

/-- A turn of the loop, or the end of it. -/
def Piece.turn (data_conn : Int) (chan : Nat) (p : Piece) (answer : Answer) : SendPhase :=
  if p.data = [] then .returned p.conn true
  else match answer with
    | .error => .returned p.conn.connectionError false
    | .eintr => .turning { p with dataSize := p.asked data_conn }
    | .takes n =>
      let ret := min n (p.asked data_conn)
      .turning ⟨p.conn.wrote data_conn chan (p.data.take ret), p.data.drop ret,
        p.asked data_conn - ret⟩

def SendPhase.next (data_conn : Int) (chan : Nat) : SendPhase → Answer → SendPhase
  | .turning p, answer => p.turn data_conn chan answer
  | .returned s ok, _ => .returned s ok

/-- What `sendBinaryData` does before the loop. -/
def Sender.sendHeader (s : Sender) (data_conn : Int) (chan : Nat) (data : List Byte)
    (header : List Answer) : SendPhase :=
  match s.sendMsg (dataLine data_conn chan data.length) header with
  | (s, false) => .returned s false
  | (s, true) => .turning ⟨s, data, data.length⟩

def Sender.phaseAfter (s : Sender) (data_conn : Int) (chan : Nat) (data : List Byte)
    (header : List Answer) (answers : ℕ → Answer) (k : ℕ) : SendPhase :=
  after (SendPhase.next data_conn chan) (s.sendHeader data_conn chan data header) answers k

/-! ## What a piece has to do -/

/-- The `D` line is sent. -/
def Sender.Announces (s : Sender) (data_conn : Int) (chan : Nat) (data : List Byte)
    (header : List Answer) : Prop :=
  (s.sendMsg (dataLine data_conn chan data.length) header).2 = true

/-- The socket takes something or fails. -/
def Answer.GoesOn : Answer → Prop
  | .takes n => 0 < n
  | .eintr => False
  | .error => True

def SendPhase.Returned : SendPhase → Prop
  | .turning _ => False
  | .returned _ _ => True

/-- What is taken in a turn is in the counters of the channel and of all. -/
def Piece.Covered (data_conn : Int) (chan : Nat) (p : Piece) (answer : Answer) : Prop :=
  p.data = [] ∨ ∀ n, answer = .takes n →
    min n (p.asked data_conn) ≤ p.conn.channelSize data_conn chan ∧
      min n (p.asked data_conn) ≤ p.conn.getWriteBinaryDataSize data_conn

/-- The loop ends unless the socket is interrupted for ever. -/
def Sender.Ends (s : Sender) (data_conn : Int) (chan : Nat) (data : List Byte)
    (header : List Answer) : Prop :=
  ∀ answers, Recurs Answer.GoesOn answers →
    ∃ k, (s.phaseAfter data_conn chan data header answers k).Returned

def Sender.Counts (s : Sender) (data_conn : Int) (chan : Nat) (data : List Byte)
    (header : List Answer) : Prop :=
  ∀ answers k p, s.phaseAfter data_conn chan data header answers k = .turning p →
    p.Covered data_conn chan (answers k)

/-- A piece is announced within its channel and is sent as announced, or the connection is
broken; the loop ends and no counter goes below zero. -/
structure Sender.SendsExactly (s : Sender) (data_conn : Int) (chan : Nat) (data : List Byte)
    (header : List Answer) : Prop where
  announced : s.Announces data_conn chan data header → data.length ≤ s.channelSize data_conn chan
  ends : s.Ends data_conn chan data header
  sent : ∀ answers k s' ok, s.phaseAfter data_conn chan data header answers k = .returned s' ok →
    if ok then s'.sent = s.sent ++ (dataLine data_conn chan data.length ++ [lf]) ++ data
    else s'.isOpen = false
  counts : s.Counts data_conn chan data header

/-- Counters are of type `size_t`. -/
def Sender.Sizes (s : Sender) (data_conn : Int) : Prop :=
  ∀ channels, s.writeChannels data_conn = some channels → ∀ n ∈ channels, n < 2 ^ 64

/-! ## Messages -/

section
variable {s : Sender} {msg : List Byte} {answers : List Answer}

theorem sendMsg_out (h : (s.sendMsg msg answers).2 = true) :
    s.sendMsg msg answers = ({ s with sent := s.sent ++ (msg ++ [lf]) }, true) := by
  by_cases hopen : s.isOpen = true
  · by_cases hwhole : writesWhole (msg.length + 1) answers = true
    · exact sendMsg_whole hopen hwhole
    · obtain ⟨part, -, hcut⟩ := sendMsg_cut hopen (Bool.not_eq_true _ ▸ hwhole)
      rw [hcut] at h
      cases h
  · rw [sendMsg_closed (by simpa using hopen)] at h
    cases h

theorem sendMsg_failed (h : (s.sendMsg msg answers).2 = false) :
    (s.sendMsg msg answers).1.isOpen = false := by
  by_cases hopen : s.isOpen = true
  · by_cases hwhole : writesWhole (msg.length + 1) answers = true
    · rw [sendMsg_whole hopen hwhole] at h
      cases h
    · obtain ⟨part, -, hcut⟩ := sendMsg_cut hopen (Bool.not_eq_true _ ▸ hwhole)
      rw [hcut]
      rfl
  · have hclosed : s.isOpen = false := by simpa using hopen
    rw [sendMsg_closed hclosed]
    exact hclosed

end

/-! ## Counters -/

theorem modify_sum {f : Nat → Nat} {l : List Nat} {i : Nat} (h : i < l.length) :
    (l.modify i f).sum + l.getD i 0 = l.sum + f (l.getD i 0) := by
  induction l generalizing i with
  | nil => exact absurd h (Nat.not_lt_zero _)
  | cons n l ih =>
    cases i with
    | zero =>
      simp only [List.modify_zero_cons, List.sum_cons, List.getD_cons_zero]
      omega
    | succ i =>
      have hrest := ih (Nat.lt_of_succ_lt_succ h)
      simp only [List.modify_succ_cons, List.sum_cons, List.getD_cons_succ]
      omega

theorem sizeSub_lt (a b : Nat) : sizeSub a b < 2 ^ 64 := Nat.mod_lt _ (by decide)

theorem getD_lt {l : List Nat} (h : ∀ n ∈ l, n < 2 ^ 64) (i : Nat) : l.getD i 0 < 2 ^ 64 := by
  induction l generalizing i with
  | nil => simp
  | cons n l ih =>
    cases i with
    | zero => exact h n List.mem_cons_self
    | succ i => exact ih (fun m hm => h m (List.mem_cons_of_mem _ hm)) i

theorem dataWritten_lt {channels : List Nat} {chan size : Nat} (h : ∀ n ∈ channels, n < 2 ^ 64) :
    ∀ n ∈ dataWritten channels chan size, n < 2 ^ 64 := by
  unfold dataWritten
  intro n hn
  obtain ⟨i, hi, rfl⟩ := List.mem_iff_getElem.mp hn
  rw [List.getElem_modify]
  split
  · exact sizeSub_lt _ _
  · exact h _ (List.getElem_mem _)

/-- The counter of the channel may wrap around; the total goes down by what is taken all the
same. -/
theorem writeDataSize_dataWritten (chan : Nat) {channels : List Nat} {size : Nat}
    (hsizes : ∀ n ∈ channels, n < 2 ^ 64) (hsize : size ≤ writeDataSize channels) :
    writeDataSize channels - size ≤ writeDataSize (dataWritten channels chan size) := by
  by_cases hchan : chan < channels.length
  · have hsum := modify_sum (f := (sizeSub · size)) hchan
    have hlt := getD_lt hsizes chan
    have hle := getD_le_sum channels chan
    unfold writeDataSize dataWritten sizeSub at *
    omega
  · rw [dataWritten, List.modify_eq_self (Nat.le_of_not_lt hchan)]
    exact Nat.sub_le _ _

theorem getD_dataWritten {channels : List Nat} {chan size : Nat}
    (hsizes : ∀ n ∈ channels, n < 2 ^ 64) (hsize : size ≤ channels.getD chan 0) :
    (dataWritten channels chan size).getD chan 0 = channels.getD chan 0 - size := by
  have hlt := getD_lt hsizes chan
  have heq : dataWritten channels chan size = takeOff channels chan size :=
    modify_congr (sizeSub_of_le hsize hlt)
  rw [heq, takeOff_getD]

section
variable {s : Sender} {data_conn : Int} {chan : Nat} {bytes : List Byte}

theorem Sender.Sizes.wrote (h : s.Sizes data_conn) :
    (s.wrote data_conn chan bytes).Sizes data_conn := by
  intro channels' hsome'
  unfold Sender.wrote at hsome'
  cases hsome : s.writeChannels data_conn with
  | none =>
    simp only [hsome] at hsome'
    cases hsome'
  | some channels =>
    simp only [hsome, Function.update_self] at hsome'
    split at hsome'
    · cases hsome'
    · cases hsome'
      exact dataWritten_lt (h channels hsome)

theorem wrote_total (chan : Nat) (bytes : List Byte) (h : s.Sizes data_conn)
    (hlen : bytes.length ≤ s.getWriteBinaryDataSize data_conn) :
    s.getWriteBinaryDataSize data_conn - bytes.length ≤
      (s.wrote data_conn chan bytes).getWriteBinaryDataSize data_conn := by
  unfold Sender.getWriteBinaryDataSize Sender.wrote at *
  cases hsome : s.writeChannels data_conn with
  | none =>
    simp only [hsome]
    exact Nat.sub_le _ _
  | some channels =>
    simp only [hsome, Function.update_self] at hlen ⊢
    have hdown := writeDataSize_dataWritten chan (h channels hsome) hlen
    by_cases hzero : writeDataSize (dataWritten channels chan bytes.length) = 0
    · rw [if_pos hzero]
      rwa [hzero] at hdown
    · rw [if_neg hzero]
      exact hdown

/-- What is left of a channel, or nothing is left of all. -/
theorem wrote_channelSize (chan : Nat) (bytes : List Byte) (h : s.Sizes data_conn)
    (hlen : bytes.length ≤ s.channelSize data_conn chan) :
    (s.wrote data_conn chan bytes).getWriteBinaryDataSize data_conn = 0 ∨
      (s.wrote data_conn chan bytes).channelSize data_conn chan =
        s.channelSize data_conn chan - bytes.length := by
  unfold Sender.channelSize Sender.getWriteBinaryDataSize Sender.wrote at *
  cases hsome : s.writeChannels data_conn with
  | none =>
    left
    simp only [hsome]
  | some channels =>
    simp only [hsome, Function.update_self] at hlen ⊢
    by_cases hzero : writeDataSize (dataWritten channels chan bytes.length) = 0
    · left
      rw [if_pos hzero]
    · right
      rw [if_neg hzero]
      exact getD_dataWritten (h channels hsome) hlen

end

/-! ## Turns -/

/-- What is left of the piece is asked for, and there is room for it. -/
structure Piece.Room (data_conn : Int) (p : Piece) : Prop where
  size : p.dataSize = p.data.length
  total : p.data.length ≤ p.conn.getWriteBinaryDataSize data_conn
  sizes : p.conn.Sizes data_conn

/-- What is asked for is in the counter of the channel. -/
structure Piece.InChannel (data_conn : Int) (chan : Nat) (p : Piece) : Prop where
  size : p.dataSize ≤ p.data.length
  channel : p.asked data_conn ≤ p.conn.channelSize data_conn chan
  sizes : p.conn.Sizes data_conn

def SendPhase.IsInChannel (data_conn : Int) (chan : Nat) : SendPhase → Prop
  | .turning p => p.InChannel data_conn chan
  | .returned _ _ => True

def SendPhase.HasRoom (data_conn : Int) : SendPhase → Prop
  | .turning p => p.Room data_conn
  | .returned _ _ => True

/-- The piece is clipped, and nothing more is asked for. -/
def SendPhase.Stuck : SendPhase → Prop
  | .turning p => p.data ≠ [] ∧ p.dataSize = 0
  | .returned _ _ => False

/-- What is sent and what is left of the piece. -/
def SendPhase.Whole (whole : List Byte) : SendPhase → Prop
  | .turning p => p.conn.sent ++ p.data = whole
  | .returned s ok => if ok then s.sent = whole else s.isOpen = false

/-- The bytes that are not sent yet. -/
def SendPhase.left : SendPhase → ℕ
  | .turning p => p.data.length + 1
  | .returned _ _ => 0

section
variable {data_conn : Int} {chan : Nat} {p p' : Piece} {answer : Answer}

theorem Piece.Room.asked (h : p.Room data_conn) : p.asked data_conn = p.data.length := by
  rw [Piece.asked, h.size]
  exact min_eq_left h.total

/-- What a turn can lead to. -/
theorem turn_cases (h : p.turn data_conn chan answer = .turning p') : p.data ≠ [] ∧
    ((answer = .eintr ∧ p' = { p with dataSize := p.asked data_conn }) ∨
      ∃ n, answer = .takes n ∧
        p' = ⟨p.conn.wrote data_conn chan (p.data.take (min n (p.asked data_conn))),
          p.data.drop (min n (p.asked data_conn)),
          p.asked data_conn - min n (p.asked data_conn)⟩) := by
  unfold Piece.turn at h
  by_cases hdata : p.data = []
  · rw [if_pos hdata] at h
    cases h
  · rw [if_neg hdata] at h
    refine ⟨hdata, ?_⟩
    cases answer with
    | error => cases h
    | eintr =>
      cases h
      exact .inl ⟨rfl, rfl⟩
    | takes n =>
      cases h
      exact .inr ⟨n, rfl, rfl⟩

theorem Piece.Room.turn (h : p.Room data_conn) (hturn : p.turn data_conn chan answer = .turning p') :
    p'.Room data_conn := by
  obtain ⟨-, ⟨-, rfl⟩ | ⟨n, -, rfl⟩⟩ := turn_cases hturn
  · exact ⟨h.asked, h.total, h.sizes⟩
  · rw [h.asked]
    have htake : (p.data.take (min n p.data.length)).length = min n p.data.length := by
      rw [List.length_take]
      omega
    have htotal := h.total
    have hdown := wrote_total chan (p.data.take (min n p.data.length)) h.sizes
      (by omega)
    refine ⟨?_, ?_, h.sizes.wrote⟩
    · rw [List.length_drop]
    · show (p.data.drop _).length ≤ (p.conn.wrote data_conn chan _).getWriteBinaryDataSize data_conn
      rw [List.length_drop]
      omega

theorem hasRoom_next (ph : SendPhase) (answer : Answer) (h : ph.HasRoom data_conn) :
    (ph.next data_conn chan answer).HasRoom data_conn := by
  cases ph with
  | returned => trivial
  | turning p =>
    rw [SendPhase.next]
    cases hturn : p.turn data_conn chan answer with
    | returned => trivial
    | turning p' => exact Piece.Room.turn h hturn

theorem left_next_le (ph : SendPhase) (answer : Answer) :
    (ph.next data_conn chan answer).left ≤ ph.left := by
  cases ph with
  | returned => exact Nat.le_refl _
  | turning p =>
    rw [SendPhase.next]
    cases hturn : p.turn data_conn chan answer with
    | returned => exact Nat.zero_le _
    | turning p' =>
      obtain ⟨-, ⟨-, rfl⟩ | ⟨n, -, rfl⟩⟩ := turn_cases hturn
      · exact Nat.le_refl _
      · simp only [SendPhase.left, List.length_drop]
        omega

theorem left_next_lt (ph : SendPhase) (answer : Answer) (hroom : ph.HasRoom data_conn)
    (hanswer : answer.GoesOn) :
    (ph.next data_conn chan answer).Returned ∨ (ph.next data_conn chan answer).left < ph.left := by
  cases ph with
  | returned => exact .inl trivial
  | turning p =>
    rw [SendPhase.next]
    cases hturn : p.turn data_conn chan answer with
    | returned => exact .inl trivial
    | turning p' =>
      right
      obtain ⟨hdata, ⟨rfl, -⟩ | ⟨n, rfl, rfl⟩⟩ := turn_cases hturn
      · cases hanswer
      · have hpos := List.length_pos_of_ne_nil hdata
        have hn : 0 < n := hanswer
        simp only [SendPhase.left, List.length_drop, Piece.Room.asked hroom]
        omega

theorem Piece.InChannel.turn (h : p.InChannel data_conn chan)
    (hturn : p.turn data_conn chan answer = .turning p') : p'.InChannel data_conn chan := by
  have hasked : p.asked data_conn ≤ p.dataSize := min_le_left _ _
  have hsize := h.size
  have hchannel := h.channel
  obtain ⟨-, ⟨-, rfl⟩ | ⟨n, -, rfl⟩⟩ := turn_cases hturn
  · have hagain : ({ p with dataSize := p.asked data_conn } : Piece).asked data_conn =
        p.asked data_conn := by
      simp [Piece.asked]
    refine ⟨hasked.trans hsize, ?_, h.sizes⟩
    rw [hagain]
    exact hchannel
  · have htake : (p.data.take (min n (p.asked data_conn))).length = min n (p.asked data_conn) := by
      rw [List.length_take]
      omega
    refine ⟨?_, ?_, h.sizes.wrote⟩
    · show p.asked data_conn - _ ≤ _
      rw [List.length_drop]
      omega
    · rcases wrote_channelSize chan
        (p.data.take (min n (p.asked data_conn))) h.sizes (by omega) with hzero | hrest
      · rw [Piece.asked, hzero]
        exact (min_le_right _ _).trans (Nat.zero_le _)
      · rw [hrest, htake]
        refine (min_le_left _ _).trans ?_
        show p.asked data_conn - _ ≤ _
        omega

theorem inChannel_next (ph : SendPhase) (answer : Answer) (h : ph.IsInChannel data_conn chan) :
    (ph.next data_conn chan answer).IsInChannel data_conn chan := by
  cases ph with
  | returned => trivial
  | turning p =>
    rw [SendPhase.next]
    cases hturn : p.turn data_conn chan answer with
    | returned => trivial
    | turning p' => exact Piece.InChannel.turn h hturn

theorem SendPhase.Stuck.not_returned {ph : SendPhase} (h : ph.Stuck) : ¬ ph.Returned := by
  cases ph with
  | turning p => exact id
  | returned s ok => exact fun _ => h

theorem stuck_next {ph : SendPhase} (h : ph.Stuck) (hanswer : answer ≠ .error) :
    (ph.next data_conn chan answer).Stuck := by
  cases ph with
  | returned => exact h.elim
  | turning p =>
    obtain ⟨hdata, hsize⟩ := h
    have hasked : p.asked data_conn = 0 := by
      rw [Piece.asked, hsize]
      exact Nat.zero_min _
    unfold SendPhase.next Piece.turn
    simp only [if_neg hdata]
    cases answer with
    | error => exact absurd rfl hanswer
    | eintr => exact ⟨hdata, hasked⟩
    | takes n =>
      simp only [hasked, Nat.min_zero, List.drop_zero]
      exact ⟨hdata, rfl⟩

end

/-- Turns that return do what `sendLoop` does. -/
theorem sendLoop_eq {data_conn : Int} {chan : Nat} {answers : List Answer} {p : Piece} {s' : Sender}
    {ok : Bool} (h : run (SendPhase.next data_conn chan) (.turning p) answers = .returned s' ok) :
    Sender.sendLoop data_conn chan answers p.conn p.data p.dataSize = (s', ok) := by
  have hrest : ∀ (answers : List Answer) (s : Sender) (ok : Bool),
      run (SendPhase.next data_conn chan) (.returned s ok) answers = .returned s ok := by
    intro answers s ok
    exact run_invariant (I := fun ph => ph = SendPhase.returned s ok) rfl
      (by rintro _ _ rfl; rfl) answers
  induction answers generalizing p with
  | nil => cases h
  | cons answer answers ih =>
    change run (SendPhase.next data_conn chan) (p.turn data_conn chan answer) answers = _ at h
    unfold Piece.turn at h
    unfold Sender.sendLoop
    by_cases hdata : p.data = []
    · simp only [if_pos hdata] at h ⊢
      rw [hrest] at h
      cases h
      rfl
    · simp only [if_neg hdata] at h ⊢
      cases answer with
      | error =>
        rw [hrest] at h
        cases h
        rfl
      | eintr => exact ih h
      | takes n => exact ih h

/-! ## The loop -/

section
variable {s : Sender} {data_conn : Int} {chan : Nat} {data : List Byte} {header : List Answer}

theorem sendHeader_announces (h : s.Announces data_conn chan data header) :
    s.sendHeader data_conn chan data header = .turning
      ⟨{ s with sent := s.sent ++ (dataLine data_conn chan data.length ++ [lf]) }, data,
        data.length⟩ := by
  rw [Sender.sendHeader, sendMsg_out h]

theorem sendHeader_fails (h : ¬ s.Announces data_conn chan data header) :
    ∃ s', s'.isOpen = false ∧ s.sendHeader data_conn chan data header = .returned s' false := by
  have hfalse := Bool.not_eq_true _ ▸ h
  refine ⟨_, sendMsg_failed hfalse, ?_⟩
  unfold Sender.sendHeader
  cases hmsg : s.sendMsg (dataLine data_conn chan data.length) header with
  | mk s' ok =>
    rw [hmsg] at hfalse
    cases hfalse
    rfl

theorem after_returned {s' : Sender} {ok : Bool} (answers : ℕ → Answer) (k : ℕ) :
    after (SendPhase.next data_conn chan) (SendPhase.returned s' ok) answers k =
      SendPhase.returned s' ok := by
  induction k with
  | zero => rfl
  | succ k ih =>
    rw [after, ih]
    rfl

/-- Nothing is lost: what is sent and what is left of the piece make the whole. -/
theorem whole_next {whole : List Byte} (ph : SendPhase) (answer : Answer) (h : ph.Whole whole) :
    (ph.next data_conn chan answer).Whole whole := by
  cases ph with
  | returned s' ok => exact h
  | turning p =>
    have hsent : p.conn.sent ++ p.data = whole := h
    unfold SendPhase.next Piece.turn
    by_cases hdata : p.data = []
    · rw [hdata, List.append_nil] at hsent
      simp only [if_pos hdata]
      exact hsent
    · simp only [if_neg hdata]
      cases answer with
      | error => rfl
      | eintr => exact hsent
      | takes n =>
        show Sender.sent (Sender.wrote _ _ _ _) ++ _ = whole
        rw [(wrote_frame _ _ _ _).1, List.append_assoc, List.take_append_drop]
        exact hsent

/-- More than what is left of all channels: the turn after this one asks for nothing. -/
theorem stuck_first {p : Piece} (hsize : p.dataSize = p.data.length)
    (hmore : p.conn.getWriteBinaryDataSize data_conn < p.data.length) :
    (p.turn data_conn chan (.takes p.data.length)).Stuck := by
  have hdata : p.data ≠ [] := List.ne_nil_of_length_pos (by omega)
  have hasked : p.asked data_conn = p.conn.getWriteBinaryDataSize data_conn := by
    rw [Piece.asked, hsize]
    omega
  unfold Piece.turn
  simp only [if_neg hdata, hasked, min_eq_right (Nat.le_of_lt hmore)]
  refine ⟨List.ne_nil_of_length_pos ?_, Nat.sub_self _⟩
  rw [List.length_drop]
  omega

/-- The loop ends if there is room for the piece in what is left of all channels; otherwise it
asks for nothing for ever. -/
theorem ends_iff (hsizes : s.Sizes data_conn) : s.Ends data_conn chan data header ↔
    (s.Announces data_conn chan data header →
      data.length ≤ s.getWriteBinaryDataSize data_conn) := by
  by_cases hann : s.Announces data_conn chan data header
  · rw [forall_prop_of_true hann]
    have hstart := sendHeader_announces hann
    constructor
    · intro hends
      by_contra hmore
      have hpos : 0 < data.length := by omega
      have hstuck : ∀ k, (s.phaseAfter data_conn chan data header (fun _ => .takes data.length)
          (k + 1)).Stuck := by
        intro k
        unfold Sender.phaseAfter
        rw [hstart]
        induction k with
        | zero => exact stuck_first rfl (Nat.lt_of_not_le hmore)
        | succ k ih => exact stuck_next ih (fun h => Answer.noConfusion h)
      obtain ⟨k, hk⟩ := hends (fun _ => .takes data.length) fun k => ⟨k, le_rfl, hpos⟩
      cases k with
      | zero =>
        unfold Sender.phaseAfter at hk
        rw [hstart] at hk
        exact hk
      | succ k => exact (hstuck k).not_returned hk
    · intro hroom answers hanswers
      unfold Sender.phaseAfter
      rw [hstart]
      exact hanswers.eventually SendPhase.left (I := SendPhase.HasRoom data_conn)
        ⟨rfl, hroom, hsizes⟩ hasRoom_next (fun ph a _ => left_next_le ph a)
        (fun ph a hph _ ha => left_next_lt ph a hph ha)
  · obtain ⟨s', -, hstart⟩ := sendHeader_fails hann
    refine ⟨fun _ h => absurd h hann, fun _ answers _ => ⟨0, ?_⟩⟩
    unfold Sender.phaseAfter
    rw [hstart]
    trivial

/-- No counter goes below zero if what is clipped to the rest of all channels is in the one. -/
theorem counts_iff (hsizes : s.Sizes data_conn) : s.Counts data_conn chan data header ↔
    (s.Announces data_conn chan data header →
      min data.length (s.getWriteBinaryDataSize data_conn) ≤ s.channelSize data_conn chan) := by
  by_cases hann : s.Announces data_conn chan data header
  · rw [forall_prop_of_true hann]
    have hstart := sendHeader_announces hann
    constructor
    · intro hcounts
      rcases hcounts (fun _ => .takes data.length) 0 _ hstart with hnil | htakes
      · have hdata : data = [] := hnil
        rw [hdata, List.length_nil, Nat.zero_min]
        exact Nat.zero_le _
      · have hle : min data.length (min data.length (s.getWriteBinaryDataSize data_conn)) ≤
            s.channelSize data_conn chan := (htakes data.length rfl).1
        rwa [min_eq_right (min_le_left _ _)] at hle
    · intro hle answers k p hp
      have hin : (s.phaseAfter data_conn chan data header answers k).IsInChannel data_conn chan := by
        unfold Sender.phaseAfter
        rw [hstart]
        exact after_invariant ⟨le_rfl, hle, hsizes⟩ inChannel_next k
      rw [hp] at hin
      exact .inr fun n _ => ⟨(min_le_right _ _).trans hin.channel,
        (min_le_right _ _).trans (min_le_right _ _)⟩
  · obtain ⟨s', -, hstart⟩ := sendHeader_fails hann
    refine ⟨fun _ h => absurd h hann, fun _ answers k p hp => ?_⟩
    unfold Sender.phaseAfter at hp
    rw [hstart, after_returned] at hp
    cases hp

theorem sends_whole (answers : ℕ → Answer) (k : ℕ) {s' : Sender} {ok : Bool}
    (h : s.phaseAfter data_conn chan data header answers k = .returned s' ok) :
    if ok then s'.sent = s.sent ++ (dataLine data_conn chan data.length ++ [lf]) ++ data
    else s'.isOpen = false := by
  have hwhole : (s.phaseAfter data_conn chan data header answers k).Whole
      (s.sent ++ (dataLine data_conn chan data.length ++ [lf]) ++ data) := by
    refine after_invariant ?_ whole_next k
    by_cases hann : s.Announces data_conn chan data header
    · rw [sendHeader_announces hann]
      rfl
    · obtain ⟨s', hclosed, hstart⟩ := sendHeader_fails hann
      rw [hstart]
      exact hclosed
  rw [h] at hwhole
  exact hwhole

end

/-- A piece is sent exactly if it is no more than what is left of its channel and of all
channels. -/
theorem sendsExactly_iff (s : Sender) (data_conn : Int) (chan : Nat) (data : List Byte)
    (header : List Answer) (hsizes : s.Sizes data_conn) :
    s.SendsExactly data_conn chan data header ↔ (s.Announces data_conn chan data header →
      data.length ≤ s.channelSize data_conn chan ∧
        data.length ≤ s.getWriteBinaryDataSize data_conn) := by
  constructor
  · exact fun h hann => ⟨h.announced hann, (ends_iff hsizes).mp h.ends hann⟩
  · intro h
    exact ⟨fun hann => (h hann).1, (ends_iff hsizes).mpr fun hann => (h hann).2,
      fun answers k s' ok => sends_whole answers k,
      (counts_iff hsizes).mpr fun hann => (min_le_left _ _).trans (h hann).1⟩

/-- Two channels with two bytes left of each. -/
def twoChannels : Sender := ⟨true, 1, fun _ => some [2, 2], []⟩

theorem twoChannels_sizes : twoChannels.Sizes 1 := by
  rintro channels ⟨⟩
  decide

theorem sendsExactly_two : twoChannels.SendsExactly 1 0 [7, 8] [] :=
  (sendsExactly_iff twoChannels 1 0 [7, 8] [] twoChannels_sizes).mpr fun _ => by decide

/-- Three bytes wrap the counter of a channel around; five are asked for without an end. -/
theorem not_sendsExactly_three : ¬ twoChannels.SendsExactly 1 0 [7, 8, 9] [] ∧
    ¬ twoChannels.Counts 1 0 [7, 8, 9] [] ∧ ¬ twoChannels.Ends 1 0 [7, 8, 9, 10, 11] [] := by
  refine ⟨fun h => ?_, fun h => ?_, fun h => ?_⟩
  · exact absurd (h.announced rfl) (by decide)
  · exact absurd ((counts_iff twoChannels_sizes).mp h rfl) (by decide)
  · exact absurd ((ends_iff twoChannels_sizes).mp h rfl) (by decide)

end Rts2.Connection
