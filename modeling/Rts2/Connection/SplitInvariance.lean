import Rts2.Connection.Feed

/-! # The stream may be cut anywhere

A peer sends lines and payloads; `read` returns the bytes in pieces of any size.
What the connection has received depends on the bytes read alone. -/
namespace Rts2.Connection
open Rts2.Lib

/-! ## What the buffer holds -/

/-- What is kept of a text is what would be kept of it again. -/
structure KeptText (buf : List Byte) : Prop where
  kept : run keep [] buf = buf
  text : IsText buf

theorem KeptText.nil : KeptText [] := ⟨rfl, fun _ hb => by cases hb⟩

theorem KeptText.keep {buf : List Byte} (h : KeptText buf) {b : Byte} (hnul : b ≠ 0)
    (hlf : b ≠ lf) : KeptText (keep buf b) := by
  unfold Connection.keep
  split
  · split
    · exact .nil
    · rename_i hspace
      refine ⟨?_, fun c hc => by rw [List.mem_singleton.1 hc]; exact ⟨hnul, hlf⟩⟩
      rw [run_cons, run_nil, Connection.keep, if_pos (.inl rfl), if_neg hspace]
  · rename_i hin
    refine ⟨?_, List.forall_mem_append.2 ⟨h.text, by simpa using ⟨hnul, hlf⟩⟩⟩
    rw [run_append, h.kept, run_cons, run_nil, Connection.keep, if_neg hin]

section
variable {h : Handlers} {s : Recv}

@[simp] theorem endLine_buf (line rest : List Byte) : (s.endLine h line rest).1.buf = s.buf := by
  unfold Recv.endLine
  dsimp only
  split <;> simp

theorem feedLf_buf : (s.feedLf h).buf = [] := by
  unfold Recv.feedLf
  split
  · assumption
  · rw [endLine_buf]

theorem KeptText.feed (hkept : KeptText s.buf) {b : Byte} (hclean : Clean h s b) :
    KeptText (s.feed h b).buf := by
  unfold Recv.feed
  split
  · exact hkept
  rename_i hc
  split
  · rw [takeData_buf]
    exact hkept
  rename_i hclosed
  split
  · rw [feedLf_buf]
    exact .nil
  · rename_i hlf
    exact hkept.keep (hclean.text (Bool.not_eq_true _ ▸ hc) (not_le.1 hclosed)) hlf

theorem keptText_run_feed (hkept : KeptText s.buf) {bytes : List Byte}
    (hclean : Along (Recv.feed h) (Clean h) s bytes) :
    KeptText (run (Recv.feed h) s bytes).buf :=
  hclean.invariant (I := fun s => KeptText s.buf) hkept fun _ _ hs hstep => hs.feed hstep

/-- A byte makes what is kept longer by one at most. -/
theorem feed_buf_length (b : Byte) : (s.feed h b).buf.length ≤ s.buf.length + 1 := by
  unfold Recv.feed
  split
  · omega
  split
  · rw [takeData_buf]
    omega
  split
  · rw [feedLf_buf, List.length_nil]
    omega
  · unfold keep
    dsimp only
    split
    · split <;> simp
    · rw [List.length_append, List.length_singleton]

theorem run_feed_buf_length (bytes : List Byte) :
    (run (Recv.feed h) s bytes).buf.length ≤ s.buf.length + bytes.length := by
  induction bytes generalizing s with
  | nil => simp
  | cons b bytes ih =>
    have hstep := feed_buf_length (h := h) (s := s) b
    have hrest := ih (s := s.feed h b)
    rw [run_cons, List.length_cons]
    omega

/-- `processBuffer` takes the bytes just read as if they had come one by one. -/
theorem processBuffer_feed (hb : Bounded s) (hc : s.crashed = false)
    (hclosed : s.activeReadData < 0) (hkept : KeptText s.buf) {data : List Byte}
    (hclean : Along (Recv.feed h) (Clean h) s data) :
    ({ s with buf := s.buf ++ data } : Recv).processBuffer h = run (Recv.feed h) s data := by
  have hagain : run (Recv.feed h) { s with buf := [] } s.buf = s := by
    rw [run_feed_text (s := { s with buf := [] }) hc hclosed hkept.text]
    dsimp only
    rw [hkept.kept]
  have halong : Along (Recv.feed h) (Clean h) { s with buf := [] } (s.buf ++ data) := by
    rw [along_append, hagain]
    exact ⟨along_clean_text (hb.withBuf []) hc hclosed hkept.text, hclean⟩
  have hscan := scan_feed (s := { s with buf := [] }) (Nat.lt_succ_self _) rfl
    ⟨hb.withBuf [], fun _ hopen => absurd hopen (not_le.2 hclosed)⟩ halong
  rw [run_append, hagain] at hscan
  exact hscan

end

/-! ## Reads -/

/-- The connection after `taken` has been read: in the state in which the bytes
would have left it one by one, or given up in that state. -/
structure Arrived (h : Handlers) (taken : List Byte) (l : Link) : Prop where
  conn : l.conn = run (Recv.feed h) .start taken ∨
    l.conn = (run (Recv.feed h) .start taken).connectionError
  room : l.conn.buf.length ≤ l.bufSize

theorem checkBufferSize_input (l : Link) : l.checkBufferSize.input = l.input := by
  unfold Link.checkBufferSize
  split <;> rfl

theorem checkBufferSize_bufSize (l : Link) : l.bufSize ≤ l.checkBufferSize.bufSize := by
  unfold Link.checkBufferSize
  split
  · exact Nat.le_add_right _ _
  · exact le_rfl

theorem bounded_start : Bounded .start :=
  Fit.bounded ⟨fun _ _ hnone => absurd hnone (by simp [Recv.start]), rfl⟩
    (.inr (by simp [Recv.start]))

theorem Arrived.start (h : Handlers) (input : List Byte) : Arrived h [] (.start input) :=
  ⟨.inl rfl, by simp [Link.start, Recv.start]⟩

theorem Link.input_eq_arrived (l : Link) (n size : Nat) :
    l.input = l.arrived n size ++ l.input.drop (l.arrived n size).length := by
  rw [Link.arrived, List.length_take]
  rcases le_total (min n size) l.input.length with hle | hle
  · rw [min_eq_left hle, List.take_append_drop]
  · rw [min_eq_right hle, List.take_of_length_le hle, List.drop_length, List.append_nil]

/-- A read straight into an open chunk brings no more than the chunk. -/
theorem arrived_le_chunk {l : Link} (hb : Bounded l.conn) {channels : List DataRead} {d : DataRead}
    (hchunk : OpenChunk l.conn 1 channels d) (n : Nat) :
    (l.arrived n (d.binaryReadChunkSize % 2 ^ 64).toNat).length ≤ d.binaryReadChunkSize.toNat := by
  obtain ⟨hchan, hat⟩ := activeChannel_eq_some hchunk.active
  have hsize := (hb.fit.channels _ _ hchan).size_lt (mem_of_atIdx hat)
  have hfits : d.bytes.length + d.binaryReadDataSize = d.size :=
    (hb.fit.channels _ _ hchan).fits d (mem_of_atIdx hat)
  have hleast := hchunk.least
  have hrest := hchunk.rest
  rw [Int.emod_eq_of_lt (by omega) (by omega), Link.arrived, List.length_take]
  omega

/-- Such a read stores what its bytes would store one by one. -/
theorem readDirect_feed {h : Handlers} {s : Recv} (hb : Bounded s) (hc : s.crashed = false)
    (hopen : 0 ≤ s.activeReadData) {channels : List DataRead} {d : DataRead}
    (hchunk : OpenChunk s 1 channels d) {data : List Byte}
    (hlen : data.length ≤ d.binaryReadChunkSize.toNat) :
    (s.storeActive channels d data).dataReceived = run (Recv.feed h) s data := by
  have hrun := run_feed_takeData (h := h) hb hc hopen data
  rw [takeData_eq hchunk (by decide), List.take_of_length_le hlen, min_eq_left hlen,
    List.take_length] at hrun
  exact hrun

/-- The next bytes of the stream, as far as a read took them, have arrived. -/
def Advanced (h : Handlers) (taken : List Byte) (l l' : Link) : Prop :=
  ∃ data, l.input = data ++ l'.input ∧ Arrived h (taken ++ data) l'

section
variable {h : Handlers} {taken : List Byte} {l : Link}

theorem Arrived.stay {l' : Link} (harrived : Arrived h taken l') (hinput : l'.input = l.input) :
    Advanced h taken l l' :=
  ⟨[], by simp [hinput], by simpa using harrived⟩

theorem Arrived.receiveData (harrived : Arrived h taken l)
    (hconn : l.conn = run (Recv.feed h) .start taken) (hbounded : Bounded l.conn)
    (hc : l.conn.crashed = false) (hopen : 0 ≤ l.conn.activeReadData)
    {channels : List DataRead} {d : DataRead} (hchunk : OpenChunk l.conn 1 channels d) (n : Nat) :
    Advanced h taken l (l.receiveData channels d (.data n)) := by
  have hlen := arrived_le_chunk hbounded hchunk n
  have hinput := l.input_eq_arrived n (d.binaryReadChunkSize % 2 ^ 64).toNat
  have hroom := harrived.room
  simp only [Link.receiveData]
  generalize l.arrived n (d.binaryReadChunkSize % 2 ^ 64).toNat = data at *
  split
  · exact harrived.stay rfl
  · refine ⟨data, hinput, .inl ?_, ?_⟩
    · rw [run_append, ← hconn]
      exact readDirect_feed hbounded hc hopen hchunk hlen
    · rw [dataReceived_buf]
      exact hroom

theorem Arrived.readText (harrived : Arrived h taken l)
    (hconn : l.conn = run (Recv.feed h) .start taken) (hbounded : Bounded l.conn)
    (hc : l.conn.crashed = false) (hclosed : l.conn.activeReadData < 0)
    (hkept : KeptText l.conn.buf) (hclean : Along (Recv.feed h) (Clean h) l.conn l.input) (n : Nat) :
    Advanced h taken l (l.readText h n) := by
  have hinput := l.input_eq_arrived n (l.bufSize - l.conn.buf.length)
  have hlen : (l.arrived n (l.bufSize - l.conn.buf.length)).length ≤
      l.bufSize - l.conn.buf.length := by
    rw [Link.arrived, List.length_take]
    omega
  have hroom := harrived.room
  unfold Link.readText
  dsimp only
  generalize l.arrived n (l.bufSize - l.conn.buf.length) = data at *
  split
  · exact Arrived.stay ⟨.inr (congrArg Recv.connectionError hconn), hroom⟩ rfl
  · rw [hinput, along_append] at hclean
    have hrun := processBuffer_feed hbounded hc hclosed hkept hclean.1
    have hlonger := run_feed_buf_length (h := h) (s := l.conn) data
    refine ⟨data, hinput, .inl ?_, ?_⟩
    · rw [run_append, ← hconn]
      exact hrun
    · show (Recv.processBuffer h _).buf.length ≤ l.bufSize
      rw [hrun]
      omega

theorem Arrived.receiveText (harrived : Arrived h taken l)
    (hconn : l.conn = run (Recv.feed h) .start taken) (hbounded : Bounded l.conn)
    (hc : l.conn.crashed = false) (hclosed : l.conn.activeReadData < 0)
    (hkept : KeptText l.conn.buf) (hclean : Along (Recv.feed h) (Clean h) l.conn l.input) (n : Nat) :
    Advanced h taken l (l.receiveText h (.data n)) := by
  have hgrown : ∀ grown : Link, grown.conn = l.conn → grown.input = l.input →
      l.bufSize ≤ grown.bufSize → Advanced h taken l (grown.readText h n) := by
    intro grown hsame hinput hmore
    have hroom : grown.conn.buf.length ≤ grown.bufSize := hsame ▸ le_trans harrived.room hmore
    rw [← hsame] at hconn hbounded hc hclosed hkept hclean
    rw [← hinput] at hclean
    obtain ⟨data, hdata, h'⟩ :=
      Arrived.readText ⟨.inl hconn, hroom⟩ hconn hbounded hc hclosed hkept hclean n
    exact ⟨data, hinput ▸ hdata, h'⟩
  unfold Link.receiveText
  dsimp only
  split
  · exact harrived.stay rfl
  · exact hgrown _ (checkBufferSize_conn l) (checkBufferSize_input l) (checkBufferSize_bufSize l)

/-- **One read** takes the next bytes of the stream as if they had come one by one. -/
theorem Arrived.receive (harrived : Arrived h taken l)
    (hclean : Along (Recv.feed h) (Clean h) .start (taken ++ l.input)) (n : Nat) :
    Advanced h taken l (l.receive h (.data n)) := by
  unfold Link.receive
  split
  · exact harrived.stay rfl
  rename_i hlive
  obtain ⟨hc, hisOpen⟩ := not_or.1 hlive
  replace hc : l.conn.crashed = false := Bool.not_eq_true _ ▸ hc
  have hconn : l.conn = run (Recv.feed h) .start taken := by
    rcases harrived.conn with hconn | hconn
    · exact hconn
    · exact absurd (by rw [hconn]; rfl) hisOpen
  obtain ⟨hcleanTaken, hclean⟩ := (along_append _ _ _).1 hclean
  have hbounded := bounded_run_feed bounded_start hcleanTaken
  have hkept := keptText_run_feed .nil hcleanTaken
  rw [← hconn] at hclean hbounded hkept
  split
  · rename_i hopen
    obtain ⟨channels, d, hchunk⟩ := hbounded.chunk hc hopen
    simp only [hchunk.active]
    exact harrived.receiveData hconn hbounded hc hopen hchunk n
  · rename_i hopen
    exact harrived.receiveText hconn hbounded hc (not_le.1 hopen) hkept hclean n

end

/-! ## Protocol streams -/

/-- A line with its end, LF or CR LF, and the payload behind it: the bytes of the
chunk when the line is the header of one, else nothing. -/
structure Item where
  text : List Byte
  crlf : Bool
  payload : List Byte

/-- The line without its LF. -/
def Item.line (it : Item) : List Byte := if it.crlf then it.text ++ [cr] else it.text

def Item.bytes (it : Item) : List Byte := it.line ++ lf :: it.payload

/-- The bytes of a stream. -/
def stream (items : List Item) : List Byte := (items.map Item.bytes).flatten

/-- A connection that is handed lines hands on those with some text. -/
def Recv.deliverLine (h : Handlers) (s : Recv) (it : Item) : Recv :=
  if s.crashed ∨ run keep [] it.line = [] then s
  else s.processLine h (lineOf (run keep [] it.line))

/-- A connection that is handed lines, and payloads in one piece. -/
def Recv.deliver (h : Handlers) (s : Recv) (it : Item) : Recv :=
  if (s.deliverLine h it).crashed ∨ (s.deliverLine h it).activeReadData < 0 then
    s.deliverLine h it
  else ((s.deliverLine h it).takeData it.payload).1

/-- The payload is the chunk that is open, no more than its channel misses. With no
chunk open there is none. -/
def Recv.announced (s : Recv) (payload : List Byte) : Bool :=
  s.crashed ||
    if s.activeReadData < 0 then payload.isEmpty
    else match s.activeChannel with
      | none => false
      | some (_, d) => decide (d.binaryReadChunkSize = payload.length ∧
          payload.length ≤ d.binaryReadDataSize)

/-- A text, and behind a `D` header its payload, within the declared channel. -/
structure ItemOk (h : Handlers) (s : Recv) (it : Item) : Prop where
  text : IsText it.text
  payload : (s.deliverLine h it).announced it.payload = true

instance (h : Handlers) (s : Recv) (it : Item) : Decidable (ItemOk h s it) :=
  decidable_of_iff (IsText it.text ∧ (s.deliverLine h it).announced it.payload = true)
    ⟨fun hok => ⟨hok.1, hok.2⟩, fun hok => ⟨hok.text, hok.payload⟩⟩

/-- Every `D` header of the stream respects what its channel misses by then. -/
def ProtocolStream (h : Handlers) (items : List Item) : Prop :=
  Along (Recv.deliver h) (ItemOk h) .start items

/-- Between two items: nothing is kept and no chunk is open. -/
structure Idle (s : Recv) : Prop where
  bounded : Bounded s
  buf : s.buf = []
  closed : s.crashed = false → s.activeReadData < 0

section
variable {h : Handlers} {s : Recv} {it : Item}

theorem Item.line_isText (htext : IsText it.text) : IsText it.line := by
  unfold Item.line
  split
  · exact List.forall_mem_append.2 ⟨htext, by simp [cr, lf]⟩
  · exact htext

/-- A payload of the length of the chunk fills it byte by byte. -/
theorem payload_clean (hb : Bounded s) (hc : s.crashed = false) (hopen : 0 ≤ s.activeReadData)
    {channels : List DataRead} {d : DataRead} (hchunk : OpenChunk s 1 channels d)
    {payload : List Byte} (hlen : d.binaryReadChunkSize = payload.length) :
    Along (Recv.feed h) (Clean h) s payload := by
  induction payload generalizing s channels d with
  | nil => trivial
  | cons b payload ih =>
    have hleast := hchunk.least
    have hfeed := feed_chunk (h := h) hc hopen b
    have hchunk0 : OpenChunk s 0 channels d := ⟨hchunk.active, by omega, hchunk.rest⟩
    have hbounded := (hb.fit.takeData hchunk0 [b]).1
    refine ⟨⟨fun _ hclosed => absurd hclosed (not_lt.2 hopen),
      fun _ hclosed => absurd hclosed (not_lt.2 hopen), hfeed ▸ hbounded⟩, ?_⟩
    rw [hfeed]
    by_cases hone : d.binaryReadChunkSize = 1
    · have hnil : payload = [] := by
        rw [hone, List.length_cons] at hlen
        exact List.length_eq_zero_iff.1 (by omega)
      rw [hnil]
      trivial
    · obtain ⟨hbyte, -, hchunk'⟩ := hb.fit.takeData_byte hchunk hone b
      have hlen' : (d.store [b]).binaryReadChunkSize = payload.length := by
        simp [DataRead.store, hlen]
      rw [hbyte] at hbounded ⊢
      exact ih hbounded hc hopen hchunk' hlen'

/-- A line that arrives byte by byte is handed over whole; an empty chunk it opens is
closed at once. -/
theorem line_feed (hidle : Idle s) (hc : s.crashed = false) (htext : IsText it.text) :
    run (Recv.feed h) s (it.line ++ [lf]) =
      if (s.deliverLine h it).crashed = false ∧ 0 ≤ (s.deliverLine h it).activeReadData then
        ((s.deliverLine h it).takeData []).1
      else s.deliverLine h it := by
  have hclosed := hidle.closed hc
  have hrun := run_feed_text (h := h) hc hclosed (Item.line_isText htext)
  rw [hidle.buf] at hrun
  rw [run_append, hrun, run_cons, run_nil]
  by_cases hkept : run keep [] it.line = []
  · have hsame : s.deliverLine h it = s := if_pos (.inr hkept)
    rw [hsame, if_neg fun hopen => absurd hopen.2 (not_le.2 hclosed), hkept, ← hidle.buf,
      feed_lf hc hclosed, Recv.feedLf, if_pos hidle.buf]
  · have hline : s.deliverLine h it = s.processLine h (lineOf (run keep [] it.line)) :=
      if_neg (by simp [hc, hkept])
    rw [feed_lf_word hc hclosed hidle.buf hkept rfl, hline, endLine_nil rfl]

theorem deliverLine_buf : (s.deliverLine h it).buf = s.buf := by
  unfold Recv.deliverLine
  split
  · rfl
  · exact processLine_buf _ _ _

/-- An open chunk is the one announced. -/
theorem announced_chunk {payload : List Byte} (hann : s.announced payload = true)
    (hc : s.crashed = false) (hopen : 0 ≤ s.activeReadData) :
    ∃ channels d, OpenChunk s 0 channels d ∧ d.binaryReadChunkSize = payload.length := by
  rw [Recv.announced, hc, Bool.false_or, if_neg (not_lt.2 hopen)] at hann
  split at hann
  · cases hann
  · rename_i channels d hactive
    obtain ⟨hlen, hrest⟩ := of_decide_eq_true hann
    exact ⟨channels, d, ⟨hactive, by omega, by omega⟩, hlen⟩

theorem announced_roomy {payload : List Byte} (hann : s.announced payload = true) : Roomy s := by
  intro hc hopen
  obtain ⟨channels, d, hchunk, -⟩ := announced_chunk hann hc hopen
  exact .inr ⟨channels, d, hchunk⟩

theorem deliverLine_fit (hidle : Idle s) : Fit (s.deliverLine h it) := by
  unfold Recv.deliverLine
  split
  · exact hidle.bounded.fit
  · rename_i hlive
    exact (processLine_done h hidle.bounded.fit
      (hidle.closed (Bool.not_eq_true _ ▸ (not_or.1 hlive).1)) _).fit

/-- A payload that is the open chunk closes it. -/
theorem payload_feed (hb : Bounded s) (hc : s.crashed = false) (hopen : 0 ≤ s.activeReadData)
    {channels : List DataRead} {d : DataRead} (hchunk : OpenChunk s 1 channels d)
    {payload : List Byte} (hlen : d.binaryReadChunkSize = payload.length) :
    run (Recv.feed h) s payload = (s.takeData payload).1 ∧
      (s.takeData payload).1.activeReadData < 0 := by
  have hfull : payload.take d.binaryReadChunkSize.toNat = payload :=
    List.take_of_length_le (by omega)
  have htake := takeData_eq hchunk (by decide) payload
  rw [hfull] at htake
  have hrun := run_feed_takeData (h := h) hb hc hopen payload
  rw [htake, show min payload.length d.binaryReadChunkSize.toNat = payload.length by omega,
    List.take_length] at hrun
  obtain ⟨-, hopen'⟩ := hb.fit.storeActive hchunk payload (le_of_eq hlen.symm)
  have hdone := dataReceived_exhausted hopen'.active (by simp [DataRead.store, hlen])
  rw [htake]
  exact ⟨hrun.symm, by rw [hdone]; decide⟩

theorem along_clean_crashed (hb : Bounded s) (hc : s.crashed = true) (bytes : List Byte) :
    Along (Recv.feed h) (Clean h) s bytes := by
  induction bytes with
  | nil => trivial
  | cons b bytes ih =>
    have hfeed := feed_crashed (h := h) hc b
    exact ⟨⟨fun hlive => absurd hlive (by simp [hc]), fun hlive => absurd hlive (by simp [hc]),
      hfeed.symm ▸ hb⟩, hfeed.symm ▸ ih⟩

/-- A line that opens a chunk its channel has room for is clean. -/
theorem line_clean (hidle : Idle s) (hc : s.crashed = false) (htext : IsText it.text)
    (hroomy : Roomy (s.deliverLine h it))
    (hbounded : Bounded (run (Recv.feed h) s (it.line ++ [lf]))) :
    Along (Recv.feed h) (Clean h) s (it.line ++ [lf]) := by
  have hclosed := hidle.closed hc
  have hrun := run_feed_text (h := h) hc hclosed (Item.line_isText htext)
  rw [hidle.buf] at hrun
  rw [run_append] at hbounded
  rw [along_append]
  refine ⟨along_clean_text hidle.bounded hc hclosed (Item.line_isText htext),
    ⟨fun _ _ => by decide, fun _ _ _ hkept => ?_, hbounded⟩, trivial⟩
  rw [hrun] at hkept ⊢
  have hline : s.deliverLine h it = s.processLine h (lineOf (run keep [] it.line)) :=
    if_neg (by simpa [hc] using hkept)
  rw [hline] at hroomy
  rwa [← hidle.buf] at hroomy ⊢

/-- **One item**, byte by byte, leaves what it leaves when it is handed over whole. -/
theorem item_feed (hidle : Idle s) (hok : ItemOk h s it) :
    run (Recv.feed h) s it.bytes = s.deliver h it ∧
      Along (Recv.feed h) (Clean h) s it.bytes ∧ Idle (s.deliver h it) := by
  rcases Bool.eq_false_or_eq_true s.crashed with hc | hc
  · have hline : s.deliverLine h it = s := if_pos (.inl hc)
    have hitem : s.deliver h it = s := by
      rw [Recv.deliver, hline, if_pos (.inl hc)]
    rw [hitem]
    exact ⟨run_feed_crashed hc _, along_clean_crashed hidle.bounded hc _, hidle⟩
  have hline := line_feed (h := h) hidle hc hok.text
  have hclean := line_clean (h := h) hidle hc hok.text (announced_roomy hok.payload)
  have hfit : Fit (s.deliverLine h it) := deliverLine_fit hidle
  have hbuf : (s.deliverLine h it).buf = [] := deliverLine_buf.trans hidle.buf
  have hbytes : it.bytes = (it.line ++ [lf]) ++ it.payload := by simp [Item.bytes]
  have hann := hok.payload
  unfold Recv.deliver
  rw [hline] at hclean
  rw [hbytes, run_append, along_append, hline]
  generalize s.deliverLine h it = s' at *
  by_cases hdone : s'.crashed = true ∨ s'.activeReadData < 0
  · have hbounded : Bounded s' := hfit.bounded hdone
    have hnot : ¬ (s'.crashed = false ∧ 0 ≤ s'.activeReadData) := by
      rintro ⟨hlive, hopen⟩
      rcases hdone with hc' | hclosed
      · rw [hc'] at hlive
        cases hlive
      · omega
    rw [if_neg hnot] at hclean ⊢
    rw [if_pos hdone]
    rcases Bool.eq_false_or_eq_true s'.crashed with hc' | hc'
    · exact ⟨run_feed_crashed hc' _, ⟨hclean hbounded, along_clean_crashed hbounded hc' _⟩,
        hbounded, hbuf, fun hlive => absurd hlive (by simp [hc'])⟩
    · have hclosed : s'.activeReadData < 0 := hdone.resolve_left (by simp [hc'])
      have hnil : it.payload = [] := by
        rw [Recv.announced, hc', Bool.false_or, if_pos hclosed] at hann
        exact List.isEmpty_iff.1 hann
      rw [hnil]
      exact ⟨rfl, ⟨hclean hbounded, trivial⟩, hbounded, hbuf, fun _ => hclosed⟩
  · obtain ⟨hc', hopen⟩ : s'.crashed = false ∧ 0 ≤ s'.activeReadData := by
      rw [not_or, Bool.not_eq_true, not_lt] at hdone
      exact hdone
    obtain ⟨channels, d, hchunk, hlen⟩ := announced_chunk hann hc' hopen
    rw [if_pos ⟨hc', hopen⟩] at hclean ⊢
    rw [if_neg hdone]
    cases hpayload : it.payload with
    | nil =>
      -- the empty chunk is closed when its header ends
      have hbounded := (hfit.takeData hchunk []).1
      refine ⟨rfl, ⟨hclean hbounded, trivial⟩, hbounded, by simp [hbuf], fun _ => ?_⟩
      obtain ⟨-, hopen'⟩ := hfit.storeActive hchunk [] (by simpa using hchunk.least)
      have hclosed := dataReceived_exhausted hopen'.active
        (by simp [DataRead.store, hlen, hpayload])
      rw [takeData_eq hchunk le_rfl, List.take_nil, hclosed]
      decide
    | cons b payload =>
      have hchunk1 : OpenChunk s' 1 channels d :=
        ⟨hchunk.active, by rw [hlen, hpayload]; simp, hchunk.rest⟩
      have hbounded : Bounded s' := ⟨hfit, fun _ _ => ⟨channels, d, hchunk1⟩⟩
      rw [hpayload] at hlen
      rw [hfit.takeData_nil hchunk1] at hclean ⊢
      obtain ⟨hrun, hclosed⟩ := payload_feed (h := h) hbounded hc' hopen hchunk1 hlen
      have hcleanPayload := payload_clean (h := h) hbounded hc' hopen hchunk1 hlen
      refine ⟨hrun, ⟨hclean hbounded, hcleanPayload⟩, ?_, by simp [hbuf], fun _ => hclosed⟩
      rw [← hrun]
      exact bounded_run_feed hbounded hcleanPayload

/-- **A stream**, byte by byte, leaves what its items leave. -/
theorem stream_feed {items : List Item} (hidle : Idle s)
    (hok : Along (Recv.deliver h) (ItemOk h) s items) :
    run (Recv.feed h) s (stream items) = run (Recv.deliver h) s items ∧
      Along (Recv.feed h) (Clean h) s (stream items) ∧ Idle (run (Recv.deliver h) s items) := by
  induction items generalizing s with
  | nil => exact ⟨rfl, trivial, hidle⟩
  | cons it items ih =>
    obtain ⟨hit, hrest⟩ := hok
    obtain ⟨hrun, hclean, hidle'⟩ := item_feed hidle hit
    obtain ⟨hruns, hcleans, hidles⟩ := ih hidle' hrest
    have hcons : stream (it :: items) = it.bytes ++ stream items := rfl
    rw [hcons, run_append, along_append, hrun, run_cons]
    exact ⟨hruns, ⟨hclean, hcleans⟩, hidles⟩

end

/-! ## Lines are handed over in order -/

section
variable {h : Handlers} {s : Recv}

@[simp] theorem dataReceived_lines (s : Recv) : s.dataReceived.lines = s.lines := by
  unfold Recv.dataReceived
  repeat' split
  all_goals rfl

@[simp] theorem takeData_lines (s : Recv) (data : List Byte) :
    (s.takeData data).1.lines = s.lines := by
  unfold Recv.takeData
  split
  · rfl
  · split
    · rfl
    · rw [dataReceived_lines]
      rfl

theorem processLine_lines (s : Recv) (line : List Byte) :
    (s.processLine h line).lines = s.lines ++ [line] := by
  unfold Recv.processLine Recv.lineBinary Recv.lineData Recv.lineKilled Recv.lineShared
    Recv.lineSharedFull Recv.lineFits
  dsimp only
  repeat' split
  all_goals rfl

theorem endLine_lines (line rest : List Byte) :
    (s.endLine h line rest).1.lines = s.lines ++ [line] := by
  unfold Recv.endLine
  dsimp only
  split
  · rw [takeData_lines, processLine_lines]
  · exact processLine_lines s line

theorem feed_lines (b : Byte) : s.lines <+: (s.feed h b).lines := by
  unfold Recv.feed
  split
  · exact List.prefix_refl _
  split
  · exact ⟨[], by rw [takeData_lines, List.append_nil]⟩
  split
  · unfold Recv.feedLf
    split
    · exact List.prefix_refl _
    · rw [endLine_lines]
      exact List.prefix_append _ _
  · exact List.prefix_refl _

theorem run_feed_lines (bytes : List Byte) : s.lines <+: (run (Recv.feed h) s bytes).lines := by
  induction bytes generalizing s with
  | nil => exact List.prefix_refl _
  | cons b bytes ih => exact (feed_lines b).trans ih

end

/-! ## Splits -/

/-- The connection after it has read the stream in pieces of at most these sizes. -/
def reads (h : Handlers) (items : List Item) (sizes : List Nat) : Link :=
  run (fun l n => l.receive h (.data n)) (.start (stream items)) sizes

/-- The same lines were handed to `processLine`, the channels hold the same bytes,
and the same data was handed to `fullDataReceived`. -/
structure SameReceived (s s' : Recv) : Prop where
  lines : s.lines = s'.lines
  readChannels : s.readChannels = s'.readChannels
  full : s.full = s'.full

theorem Arrived.run {h : Handlers} {taken : List Byte} {l : Link} (harrived : Arrived h taken l)
    (hclean : Along (Recv.feed h) (Clean h) .start (taken ++ l.input)) (sizes : List Nat) :
    Advanced h taken l (run (fun l n => l.receive h (.data n)) l sizes) := by
  induction sizes generalizing taken l with
  | nil => exact harrived.stay rfl
  | cons n sizes ih =>
    obtain ⟨data, hdata, harrived'⟩ := harrived.receive hclean n
    obtain ⟨data', hdata', harrived''⟩ :=
      ih harrived' (by rw [List.append_assoc, ← hdata]; exact hclean)
    rw [List.append_assoc] at harrived''
    refine ⟨data ++ data', ?_, harrived''⟩
    rw [List.append_assoc, hdata, hdata', run_cons]

/-- What was read is the start of the stream, and it left what its bytes leave. -/
theorem reads_arrived {h : Handlers} {items : List Item} (hstream : ProtocolStream h items)
    (sizes : List Nat) :
    ∃ taken, stream items = taken ++ (reads h items sizes).input ∧
      Arrived h taken (reads h items sizes) := by
  have hidle : Idle .start := ⟨bounded_start, rfl, fun _ => by decide⟩
  obtain ⟨-, hclean, -⟩ := stream_feed hidle hstream
  exact (Arrived.start h (stream items)).run hclean sizes

theorem Arrived.same {h : Handlers} {taken : List Byte} {l : Link} (harrived : Arrived h taken l) :
    SameReceived l.conn (Lib.run (Recv.feed h) .start taken) ∧
      l.conn.buf = (Lib.run (Recv.feed h) .start taken).buf ∧
      l.conn.crashed = (Lib.run (Recv.feed h) .start taken).crashed := by
  rcases harrived.conn with hconn | hconn <;> rw [hconn] <;> exact ⟨⟨rfl, rfl, rfl⟩, rfl, rfl⟩

/-- Text with no CR in it is kept from its first word on. -/
theorem run_keep_text {text : List Byte} (htext : ∀ b ∈ text, inLine b = true) :
    run keep [] text = skipSpace text := by
  induction text with
  | nil => rfl
  | cons b text ih =>
    by_cases hb : isspace b = true
    · rw [run_cons, keep_space hb, ih (List.forall_mem_cons.1 htext).2]
      simp [skipSpace, hb]
    · rw [(run_keep_word htext (by simpa using hb) (List.cons_ne_nil _ _)).1]
      simp [skipSpace, hb]

theorem inLine_of_part {text part : List Byte} (htext : IsText text) (hcr : cr ∉ text)
    (hpart : part <+: text) : ∀ b ∈ part, inLine b = true := by
  intro b hb
  have hmem := hpart.subset hb
  exact (inLine_iff b).2 ⟨(htext b hmem).1, (htext b hmem).2, fun h => hcr (h ▸ hmem)⟩

/-- An unfinished line is kept from its first word on, its CR included. -/
theorem run_keep_part {text part : List Byte} (htext : IsText text) (hcr : cr ∉ text)
    (hpart : part <+: text ++ [cr]) : run keep [] part = skipSpace part := by
  rcases List.prefix_concat_iff.1 hpart with rfl | hpart
  · have hin := inLine_of_part htext hcr (List.prefix_refl _)
    rw [run_append, run_keep_text hin, run_cons, run_nil]
    have happend : skipSpace (text ++ [cr]) =
        if (skipSpace text).isEmpty then skipSpace [cr] else skipSpace text ++ [cr] :=
      List.dropWhile_append
    rw [happend]
    split
    · rename_i hempty
      rw [List.isEmpty_iff.1 hempty]
      rfl
    · rename_i hword
      have hne : skipSpace text ≠ [] := fun hnil => hword (by rw [hnil]; rfl)
      have hinSkip : ∀ b ∈ skipSpace text, inLine b = true :=
        fun b hb => hin b ((List.dropWhile_sublist _).subset hb)
      exact (run_keep_word hinSkip skipSpace_head hne).2.keep_cr
  · exact run_keep_text (inLine_of_part htext hcr hpart)

/-- The text of an item arrives: it is all kept. -/
theorem part_feed {h : Handlers} {s : Recv} (hidle : Idle s) (hc : s.crashed = false)
    {text part : List Byte} (htext : IsText text) (hcr : cr ∉ text)
    (hpart : part <+: text ++ [cr]) :
    (run (Recv.feed h) s part).buf = skipSpace part := by
  have hpartText : IsText part := fun b hb =>
    (List.forall_mem_append.2 ⟨htext, by simp [cr, lf]⟩ : IsText (text ++ [cr])) b (hpart.subset hb)
  rw [run_feed_text hc (hidle.closed hc) hpartText, hidle.buf]
  exact run_keep_part htext hcr hpart

theorem lines_of_input {h : Handlers} {items : List Item} (hstream : ProtocolStream h items)
    {sizes sizes' : List Nat}
    (hmore : (reads h items sizes').input <:+ (reads h items sizes).input) :
    (reads h items sizes).conn.lines <+: (reads h items sizes').conn.lines := by
  obtain ⟨taken, htaken, harrived⟩ := reads_arrived hstream sizes
  obtain ⟨taken', htaken', harrived'⟩ := reads_arrived hstream sizes'
  obtain ⟨between, hbetween⟩ := hmore
  rw [htaken', ← hbetween, ← List.append_assoc] at htaken
  rw [harrived.same.1.lines, harrived'.same.1.lines, List.append_cancel_right htaken, run_append]
  exact run_feed_lines between

/-- What holds of a stream however it is cut into reads. -/
structure CutAnywhere (h : Handlers) (items : List Item) : Prop where
  /-- the same bytes read, the same lines and data handed over -/
  same : ∀ sizes sizes', (reads h items sizes).input = (reads h items sizes').input →
    SameReceived (reads h items sizes).conn (reads h items sizes').conn
  /-- more bytes read, no other lines before -/
  more : ∀ sizes sizes', (reads h items sizes').input <:+ (reads h items sizes).input →
    (reads h items sizes).conn.lines <+: (reads h items sizes').conn.lines
  /-- all bytes read, what the items hold was handed over -/
  all : ∀ sizes, (reads h items sizes).input = [] →
    SameReceived (reads h items sizes).conn (run (Recv.deliver h) .start items)
  room : ∀ sizes, (reads h items sizes).conn.buf.length ≤ (reads h items sizes).bufSize
  /-- an unfinished line is kept whole, with the CR whose LF is missing -/
  kept : ∀ sizes before it after part, items = before ++ it :: after → cr ∉ it.text →
    part <+: it.text ++ [cr] → (reads h items sizes).conn.crashed = false →
    stream items = stream before ++ part ++ (reads h items sizes).input →
    (reads h items sizes).conn.buf = skipSpace part

/-- `C 1 0 1 4`, `D 1 0 4` ended by CR LF and its payload, and `ab`. -/
def smallItems : List Item :=
  [⟨[67, 32, 49, 32, 48, 32, 49, 32, 52], false, []⟩,
    ⟨[68, 32, 49, 32, 48, 32, 52], true, [0, 10, 13, 7]⟩, ⟨[97, 98], true, []⟩]

end Rts2.Connection
