import Rts2.Connection.DataBounds

/-! # Data connections named by the peer

`D` headers name a data connection and one of its channels; neither is looked up
before it is used. The exceptions of `C` and `I` lines leave `processBuffer` with
`full_data_end` set, and a failed read resets the open chunk before
`dataReceived` looks for it. A peer that names what it has declared and writes
its `C` and `I` lines well, on a socket that does not fail within a chunk, keeps
the receiver from all three. -/
namespace Rts2.Connection
open Rts2.Lib

/-! ## Uses of a channel -/

theorem atIdx_lt {α : Type} {l : List α} {i : Int} {a : α} (h : atIdx l i = some a) :
    0 ≤ i ∧ i < l.length := by
  obtain ⟨hlt, -⟩ := List.getElem?_eq_some_iff.mp (atIdx_eq_some h)
  unfold atIdx at h
  split at h
  · cases h
  · omega

/-- The size of the vector. -/
def DataChannels.count : DataChannels → Nat
  | .data channels => channels.length
  | .shared segments => segments.length

/-- `conn` is in `readChannels` and `chan` is below its number of channels. -/
def Recv.hasChannel (s : Recv) (conn chan : Int) : Bool :=
  match s.readChannels conn with
  | none => false
  | some channels => decide (0 ≤ chan) && decide (chan < channels.count)

/-- `activeReadData` names an entry, `activeReadChannel` one of its channels. -/
def Recv.hasActive (s : Recv) : Bool := s.hasChannel s.activeReadData s.activeReadChannel

def commandOf (line : List Byte) : List Byte := line.takeWhile (!isspace ·)

def paramsOf (line : List Byte) : List Byte := (line.dropWhile (!isspace ·)).drop 1

/-- The data connection and the channel a `D` header uses. -/
def headerOf (line : List Byte) : Option (Int × Int) :=
  if commandOf line = protoData then
    match paramNextInteger (paramsOf line) with
    | none => none
    | some (conn, params) => (paramNextInteger params).map fun r => (conn, r.1)
  else none

/-- `initFromConnection` or `initSharedFromConnection` throws on the line. -/
def Recv.lineThrows (h : Handlers) (s : Recv) (line : List Byte) : Bool :=
  if commandOf line = protoBinary then
    match paramNextInteger (paramsOf line) with
    | none => false
    | some (_, params) => (initFromConnection params).isNone
  else if commandOf line = protoShared then
    match paramNextInteger (paramsOf line) with
    | none => false
    | some (_, params) =>
      match paramNextInteger params with
      | none => false
      | some (sharedMem, params) =>
        (decide (s.sharedReadMemory = some sharedMem) || h.attach sharedMem) &&
          (initSharedFromConnection params).isNone
  else false

/-- A line on its way to `processLine`, and the bytes behind it in the buffer. -/
structure Handover where
  conn : Recv
  line : List Byte
  rest : List Byte

/-- The lines the loop of `processBuffer` hands over. -/
def Recv.handovers (h : Handlers) : Nat → Recv → List Byte → List Byte → List Handover
  | 0, _, _, _ => []
  | fuel + 1, s, _, rest =>
    if s.crashed then []
    else if atEnd rest then []
    else
      let rest := skipSpace rest
      let command := rest.takeWhile inLine
      match ending (rest.dropWhile inLine) with
      | .line rest =>
        ⟨s, command, rest⟩ ::
          (s.endLine h command rest).1.handovers h fuel [] (s.endLine h command rest).2
      | .lastCr => []
      | .unfinished rest => s.handovers h fuel command rest

/-- The lines `processBuffer` hands over. -/
def Recv.bufferHandovers (h : Handlers) (s : Recv) : List Handover :=
  { s with buf := [] }.handovers h (s.buf.length + 1) [] s.buf

/-- The lines `readText` hands over. -/
def Link.textHandovers (h : Handlers) (l : Link) (n : Nat) : List Handover :=
  { l.conn with buf := l.conn.buf ++ l.arrived n (l.bufSize - l.conn.buf.length) }.bufferHandovers h

/-- The lines a `receive` of text hands over. -/
def Link.handovers (h : Handlers) (l : Link) : Poll → List Handover
  | .data n => if n = 0 ∨ l.input = [] then [] else l.checkBufferSize.textHandovers h n
  | .eintr => []
  | .eof => []
  | .error => []

/-- `addData` of the open chunk uses a channel there is, and so does the
`dataReceived` that follows it. -/
structure ChunkSafe (s : Recv) : Prop where
  added : s.hasActive = true
  received : ∀ channels d data, s.activeChannel = some (channels, d) →
    (s.storeActive channels d data).hasActive = true

/-- What is used while a line is processed is there, and nothing is thrown. -/
structure Handover.Safe (h : Handlers) (e : Handover) : Prop where
  header : ∀ u ∈ headerOf e.line, e.conn.hasChannel u.1 u.2 = true
  returns : e.conn.lineThrows h e.line = false
  chunk : (e.conn.processLine h e.line).crashed = false →
    0 ≤ (e.conn.processLine h e.line).activeReadData → ChunkSafe (e.conn.processLine h e.line)

/-- The `read` fails. -/
def Poll.failed : Poll → Bool
  | .error => true
  | _ => false

/-- What a `receive` uses is there: `getData` and the `dataReceived` after it while
a chunk is open, also after a failed read; else what its lines use. -/
structure ReceiveSafe (h : Handlers) (l : Link) (p : Poll) : Prop where
  chunk : l.conn.crashed = false → l.conn.isOpen = true → 0 ≤ l.conn.activeReadData →
    ChunkSafe l.conn ∧ (p.failed = true → l.conn.connectionError.hasActive = true)
  text : l.conn.crashed = false → l.conn.isOpen = true → l.conn.activeReadData < 0 →
    ∀ e ∈ l.handovers h p, e.Safe h

/-- The peer names the channels it has declared, and the line is read without an
exception. -/
def Handover.Keeps (h : Handlers) (e : Handover) : Prop :=
  (∀ u ∈ headerOf e.line, e.conn.hasChannel u.1 u.2 = true) ∧ e.conn.lineThrows h e.line = false

/-- The peer names the channels it has declared and its `C` and `I` lines are
read without an exception; the socket does not fail while a chunk is open. -/
def PeerKeeps (h : Handlers) (l : Link) (p : Poll) : Prop :=
  (0 ≤ l.conn.activeReadData → p.failed = false) ∧
  (l.conn.activeReadData < 0 → ∀ e ∈ l.handovers h p, e.Keeps h)

instance (h : Handlers) (e : Handover) : Decidable (e.Keeps h) :=
  inferInstanceAs (Decidable (_ ∧ _))

instance (h : Handlers) (l : Link) (p : Poll) : Decidable (PeerKeeps h l p) :=
  inferInstanceAs (Decidable (_ ∧ _))

section Commands
variable (h : Handlers) (s : Recv) {line : List Byte}

theorem processLine_binary (hline : commandOf line = protoBinary) :
    s.processLine h line =
      Recv.lineBinary { s with lines := s.lines ++ [line] } (paramsOf line) :=
  if_pos hline

theorem processLine_data (hline : commandOf line = protoData) :
    s.processLine h line = Recv.lineData { s with lines := s.lines ++ [line] } (paramsOf line) := by
  have hne : commandOf line ≠ protoBinary := by rw [hline]; decide
  exact (if_neg hne).trans (if_pos hline)

end Commands

/-! ## An open chunk names a channel -/

/-- A connection between two events: if a chunk is open, its channel exists. -/
def Ready (s : Recv) : Prop :=
  s.crashed = false → 0 ≤ s.activeReadData → s.hasActive = true

theorem Ready.of_closed {s : Recv} (h : s.activeReadData < 0) : Ready s := by
  intro _ hactive
  omega

theorem Ready.of_crashed {s : Recv} (h : s.crashed = true) : Ready s := by
  intro hcrash _
  rw [h] at hcrash
  cases hcrash

theorem hasActive_storeActive {s : Recv} {channels : List DataRead} {d : DataRead}
    (h : s.activeChannel = some (channels, d)) (data : List Byte) :
    (s.storeActive channels d data).hasActive = true := by
  obtain ⟨-, hat⟩ := activeChannel_eq_some h
  simp [Recv.hasActive, Recv.hasChannel, Recv.storeActive, Recv.setChannels, DataChannels.count,
    atIdx_lt hat]

theorem chunkSafe_of_hasActive {s : Recv} (h : s.hasActive = true) : ChunkSafe s :=
  ⟨h, fun _ _ data hactive => hasActive_storeActive hactive data⟩

/-- `dataReceived` closes the chunk or leaves its channel. -/
theorem ready_dataReceived {s : Recv} (h : s.hasActive = true) : Ready s.dataReceived := by
  unfold Recv.dataReceived
  split
  · split
    · exact .of_crashed rfl
    · split
      · exact .of_closed (by simp)
      · split
        · exact .of_closed (by simp)
        · exact fun _ _ => h
  · exact .of_crashed rfl

/-- The bytes behind a header: the chunk stays open only when all were taken. -/
theorem ready_takeData (s : Recv) (data : List Byte) :
    Ready (s.takeData data).1 ∧
      ((s.takeData data).1.crashed = false → 0 ≤ (s.takeData data).1.activeReadData →
        (s.takeData data).2 = data.length) := by
  unfold Recv.takeData
  cases hactive : s.activeChannel with
  | none => exact ⟨.of_crashed rfl, nofun⟩
  | some open_ =>
    obtain ⟨channels, d⟩ := open_
    dsimp only
    split
    · exact ⟨.of_crashed rfl, nofun⟩
    · rename_i htakes
      refine ⟨ready_dataReceived (hasActive_storeActive hactive _), fun _ hopen => ?_⟩
      dsimp only at hopen ⊢
      by_contra hne
      -- a chunk shorter than the bytes is exhausted, and closed
      have hshort : (d.takes data.length).toNat = d.binaryReadChunkSize := by
        unfold DataRead.takes at htakes hne ⊢
        split at hne <;> split <;> omega
      have hlen : d.binaryReadChunkSize ≤ data.length := by
        unfold DataRead.takes at htakes hne
        split at hne <;> omega
      obtain ⟨hchan, hat⟩ := activeChannel_eq_some hactive
      have hstored : (s.storeActive channels d
          (data.take (d.takes data.length).toNat)).activeChannel =
          some (channels.set s.activeReadChannel.toNat
            (d.store (data.take (d.takes data.length).toNat)),
            d.store (data.take (d.takes data.length).toNat)) := by
        simp [Recv.activeChannel, Recv.storeActive, Recv.setChannels, atIdx_set hat]
      have hclosed := dataReceived_exhausted hstored (by
        simp only [DataRead.store, List.length_take]
        omega)
      omega

theorem connectionError_closed (s : Recv) : s.connectionError.activeReadData < 0 := by
  show (-1 : Int) < 0
  decide

section Lines
variable {s : Recv} (hclosed : s.activeReadData < 0) (params : List Byte)
include hclosed

theorem lineBinary_closed : (s.lineBinary params).activeReadData < 0 := by
  unfold Recv.lineBinary
  split
  · exact connectionError_closed s
  · split <;> exact hclosed

theorem lineKilled_closed : (s.lineKilled params).activeReadData < 0 := by
  unfold Recv.lineKilled
  split
  · exact connectionError_closed s
  · split <;> exact hclosed

theorem lineShared_closed (h : Handlers) : (s.lineShared h params).activeReadData < 0 := by
  unfold Recv.lineShared
  split
  · exact connectionError_closed s
  split
  · exact connectionError_closed s
  dsimp only
  split
  · split <;> exact hclosed
  · exact connectionError_closed s

theorem lineSharedFull_closed : (s.lineSharedFull params).activeReadData < 0 := by
  unfold Recv.lineSharedFull
  split
  · exact connectionError_closed s
  split
  · split <;> exact hclosed
  · exact connectionError_closed s

theorem lineFits_closed : (s.lineFits params).activeReadData < 0 := by
  unfold Recv.lineFits
  split
  · exact connectionError_closed s
  split
  · exact connectionError_closed s
  split
  · exact hclosed
  · exact connectionError_closed s

/-- `D` headers apart, a line opens no chunk. -/
theorem processLine_closed (h : Handlers) {line : List Byte}
    (hline : commandOf line ≠ protoData) : (s.processLine h line).activeReadData < 0 := by
  simp only [commandOf] at hline
  simp only [Recv.processLine, if_neg hline]
  have hsame : ({ s with lines := s.lines ++ [line] } : Recv).activeReadData < 0 := hclosed
  split
  · exact lineBinary_closed hsame _
  split
  · exact lineKilled_closed hsame _
  split
  · exact lineShared_closed hsame _ h
  split
  · exact lineSharedFull_closed hsame _
  split
  · exact lineFits_closed hsame _
  split
  · exact connectionError_closed _
  · exact hsame

end Lines

/-- A header opens a chunk of a channel there is. -/
theorem ready_lineData (s : Recv) (params : List Byte) : Ready (s.lineData params) := by
  unfold Recv.lineData
  split
  · exact .of_closed (connectionError_closed _)
  split
  · exact .of_closed (connectionError_closed _)
  split
  · exact .of_crashed rfl
  · rename_i segments hshared
    split
    · exact .of_crashed rfl
    · rename_i hsome
      obtain ⟨seg, hseg⟩ := Option.isSome_iff_exists.mp (Option.isSome_iff_ne_none.mpr fun hnone =>
        hsome (Option.isNone_iff_eq_none.mpr hnone))
      split
      · intro _ _
        simp [Recv.hasActive, Recv.hasChannel, hshared, DataChannels.count, atIdx_lt hseg]
      · exact .of_closed (connectionError_closed _)
  · rename_i channels _
    split
    · exact .of_crashed rfl
    rename_i d hat
    split
    · exact .of_closed (connectionError_closed _)
    dsimp only
    split
    · intro _ _
      simp [Recv.hasActive, Recv.hasChannel, Recv.setChannels, DataChannels.count, atIdx_lt hat]
    · exact .of_closed (connectionError_closed _)

theorem ready_processLine (h : Handlers) {s : Recv} (hclosed : s.activeReadData < 0)
    (line : List Byte) : Ready (s.processLine h line) := by
  by_cases hline : commandOf line = protoData
  · rw [processLine_data h s hline]
    exact ready_lineData _ _
  · exact .of_closed (processLine_closed hclosed h hline)

/-! ## Reads -/

/-- Where the loop of `processBuffer` stands: a chunk is open only when the buffer
is used up. -/
structure Scanning (s : Recv) (rest : List Byte) : Prop where
  ready : Ready s
  spent : s.crashed = false → 0 ≤ s.activeReadData → rest = []

theorem Scanning.endLine {h : Handlers} {s : Recv} (hclosed : s.activeReadData < 0)
    (line rest : List Byte) :
    Scanning (s.endLine h line rest).1 (s.endLine h line rest).2 := by
  unfold Recv.endLine
  dsimp only
  split
  · obtain ⟨hready, hall⟩ := ready_takeData (s.processLine h line) rest
    refine ⟨hready, fun hcrash hopen => ?_⟩
    rw [hall hcrash hopen, List.drop_length]
  · rename_i hnone
    exact ⟨ready_processLine h hclosed line, fun hcrash hopen => absurd ⟨hcrash, hopen⟩ hnone⟩

/-- The loop of `processBuffer`: if the peer keeps to the protocol, what each line
uses is there. -/
theorem handovers_safe {h : Handlers} {fuel : Nat} {s : Recv} {command rest : List Byte}
    (hscan : Scanning s rest)
    (hpeer : ∀ e ∈ s.handovers h fuel command rest, e.Keeps h) :
    (∀ e ∈ s.handovers h fuel command rest, e.Safe h) ∧ Ready (s.scan h fuel command rest) := by
  induction fuel generalizing s command rest with
  | zero => exact ⟨nofun, hscan.ready⟩
  | succ fuel ih =>
    unfold Recv.handovers at hpeer ⊢
    unfold Recv.scan
    by_cases hcrash : s.crashed = true
    · simp only [if_pos hcrash]
      exact ⟨nofun, hscan.ready⟩
    by_cases hend : atEnd rest = true
    · simp only [if_neg hcrash, if_pos hend]
      exact ⟨nofun, hscan.ready⟩
    have hclosed : s.activeReadData < 0 := by
      by_contra hopen
      have hnil := hscan.spent (by simpa using hcrash) (by omega)
      rw [hnil] at hend
      exact hend rfl
    simp only [if_neg hcrash, if_neg hend] at hpeer ⊢
    cases hline : ending ((skipSpace rest).dropWhile inLine) with
    | line rest' =>
      simp only [hline] at hpeer ⊢
      obtain ⟨hheader, hreturns⟩ := hpeer _ (List.mem_cons_self ..)
      have hready := ready_processLine h hclosed ((skipSpace rest).takeWhile inLine)
      obtain ⟨hsafe, hlast⟩ := ih (.endLine hclosed _ rest')
        fun e he => hpeer e (List.mem_cons_of_mem _ he)
      refine ⟨fun e he => ?_, hlast⟩
      rcases List.mem_cons.mp he with rfl | he
      · exact ⟨hheader, hreturns, fun hc hopen => chunkSafe_of_hasActive (hready hc hopen)⟩
      · exact hsafe e he
    | lastCr =>
      simp only
      exact ⟨nofun, hscan.ready⟩
    | unfinished rest' =>
      simp only [hline] at hpeer ⊢
      exact ih ⟨hscan.ready, fun _ hopen => absurd hclosed (by omega)⟩ hpeer

theorem ready_receiveData {l : Link} {p : Poll} (hready : Ready l.conn)
    {found : List DataRead × DataRead} (hactive : l.conn.activeChannel = some found)
    (hsocket : p.failed = false) : Ready (l.receiveData found.1 found.2 p).conn := by
  cases p with
  | data n =>
    simp only [Link.receiveData]
    split
    · exact hready
    · exact ready_dataReceived (hasActive_storeActive hactive _)
  | eintr => exact hready
  | eof => exact hready
  | error => cases hsocket

theorem processBuffer_safe {h : Handlers} {s : Recv} (hclosed : s.activeReadData < 0)
    (hpeer : ∀ e ∈ s.bufferHandovers h, e.Keeps h) :
    (∀ e ∈ s.bufferHandovers h, e.Safe h) ∧ Ready (s.processBuffer h) :=
  handovers_safe ⟨.of_closed hclosed, fun _ hopen => absurd hopen (Int.not_le.mpr hclosed)⟩ hpeer

theorem readText_safe {h : Handlers} {l : Link} {n : Nat} (hclosed : l.conn.activeReadData < 0)
    (hpeer : ∀ e ∈ l.textHandovers h n, e.Keeps h) :
    (∀ e ∈ l.textHandovers h n, e.Safe h) ∧ Ready (l.readText h n).conn := by
  obtain ⟨hsafe, hlast⟩ := processBuffer_safe (s := { l.conn with
    buf := l.conn.buf ++ l.arrived n (l.bufSize - l.conn.buf.length) }) hclosed hpeer
  refine ⟨hsafe, ?_⟩
  simp only [Link.readText]
  split
  · exact .of_closed (connectionError_closed _)
  · exact hlast

theorem receiveText_safe {h : Handlers} {l : Link} {p : Poll} (hclosed : l.conn.activeReadData < 0)
    (hpeer : ∀ e ∈ l.handovers h p, e.Keeps h) :
    (∀ e ∈ l.handovers h p, e.Safe h) ∧ Ready (l.receiveText h p).conn := by
  have hgrown : l.checkBufferSize.conn.activeReadData < 0 := by
    rw [checkBufferSize_conn]
    exact hclosed
  cases p with
  | data n =>
    simp only [Link.handovers, Link.receiveText] at hpeer ⊢
    by_cases hnone : n = 0 ∨ l.input = []
    · simp only [if_pos hnone]
      exact ⟨List.forall_mem_nil _, .of_closed hclosed⟩
    · simp only [if_neg hnone] at hpeer ⊢
      exact readText_safe hgrown hpeer
  | eintr =>
    simp only [Link.receiveText]
    exact ⟨List.forall_mem_nil _, Ready.of_closed hgrown⟩
  | eof => exact ⟨List.forall_mem_nil _, .of_closed (connectionError_closed _)⟩
  | error => exact ⟨List.forall_mem_nil _, .of_closed (connectionError_closed _)⟩

/-- A receive keeps an open chunk's channel, and uses only what is there if the
peer keeps to the protocol. -/
theorem receive_safe {h : Handlers} {l : Link} {p : Poll} (hready : Ready l.conn)
    (hpeer : PeerKeeps h l p) : ReceiveSafe h l p ∧ Ready (l.receive h p).conn := by
  obtain ⟨hsocket, hlines⟩ := hpeer
  have hchunk : l.conn.crashed = false → l.conn.isOpen = true → 0 ≤ l.conn.activeReadData →
      ChunkSafe l.conn ∧ (p.failed = true → l.conn.connectionError.hasActive = true) := by
    intro hcrash _ hopen
    refine ⟨chunkSafe_of_hasActive (hready hcrash hopen), fun hfailed => ?_⟩
    rw [hsocket hopen] at hfailed
    cases hfailed
  by_cases hstop : l.conn.crashed = true ∨ l.conn.isOpen = false
  · rw [Link.receive, if_pos hstop]
    refine ⟨⟨hchunk, fun hcrash hopen => ?_⟩, hready⟩
    simp [hcrash, hopen] at hstop
  rw [Link.receive, if_neg hstop]
  by_cases hopen : 0 ≤ l.conn.activeReadData
  · rw [if_pos hopen]
    refine ⟨⟨hchunk, fun _ _ hclosed => absurd hopen (by omega)⟩, ?_⟩
    cases hactive : l.conn.activeChannel with
    | none => exact .of_crashed rfl
    | some found => exact ready_receiveData hready hactive (hsocket hopen)
  · rw [if_neg hopen]
    have hclosed : l.conn.activeReadData < 0 := by omega
    obtain ⟨hsafe, hlast⟩ := receiveText_safe hclosed (hlines hclosed)
    exact ⟨⟨hchunk, fun _ _ _ => hsafe⟩, hlast⟩

theorem ready_start (input : List Byte) : Ready (Link.start input).conn :=
  .of_closed (by simp [Link.start, Recv.start])

/-- `C 1 0 1 10`, `D 1 0 6`, six bytes, and `H 1`. -/
def killedStream : List Byte :=
  [67, 32, 49, 32, 48, 32, 49, 32, 49, 48, 10, 68, 32, 49, 32, 48, 32, 54, 10,
    49, 50, 51, 52, 53, 54, 72, 32, 49, 10]

/-- `D 1 0 4`, of a data connection nobody has declared. -/
def undeclaredStream : List Byte := [68, 32, 49, 32, 48, 32, 52, 10]

end Rts2.Connection
