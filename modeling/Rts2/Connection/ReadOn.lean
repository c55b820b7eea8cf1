import Rts2.Connection.SplitInvariance

/-! # Reading goes on

A stream that leaves the connection open is read to its end, as long as `int`s count
what the buffer holds: every read that is given bytes takes some, and none breaks the
connection. -/
namespace Rts2.Connection
open Rts2.Lib

/-! ## A closed connection -/

section
variable {h : Handlers} {s : Recv}

@[simp] theorem dataReceived_isOpen (s : Recv) : s.dataReceived.isOpen = s.isOpen := by
  unfold Recv.dataReceived
  repeat' split
  all_goals rfl

@[simp] theorem takeData_isOpen (s : Recv) (data : List Byte) :
    (s.takeData data).1.isOpen = s.isOpen := by
  unfold Recv.takeData
  split
  · rfl
  · split
    · rfl
    · rw [dataReceived_isOpen]
      rfl

theorem processLine_closes (hclosed : s.isOpen = false) (line : List Byte) :
    (s.processLine h line).isOpen = false := by
  unfold Recv.processLine Recv.lineBinary Recv.lineData Recv.lineKilled Recv.lineShared
    Recv.lineSharedFull Recv.lineFits
  dsimp only
  repeat' split
  all_goals first
    | rfl
    | exact hclosed

theorem feed_closed (hclosed : s.isOpen = false) (b : Byte) : (s.feed h b).isOpen = false := by
  unfold Recv.feed
  split
  · exact hclosed
  split
  · rw [takeData_isOpen]
    exact hclosed
  split
  · unfold Recv.feedLf Recv.endLine
    dsimp only
    repeat' split
    · exact hclosed
    · rw [takeData_isOpen]
      exact processLine_closes (s := { s with buf := [] }) hclosed _
    · exact processLine_closes (s := { s with buf := [] }) hclosed _
  · exact hclosed

/-- What is open at the end was open all along. -/
theorem open_of_run {bytes : List Byte} (hopen : (run (Recv.feed h) s bytes).isOpen = true) :
    s.isOpen = true := by
  by_contra hclosed
  rw [Bool.not_eq_true] at hclosed
  have hend := run_invariant (I := fun s => s.isOpen = false) hclosed
    (fun (s : Recv) b (hs : s.isOpen = false) => feed_closed (h := h) hs b) bytes
  exact absurd (hopen.symm.trans hend) (by decide)

theorem alive_of_run {bytes : List Byte} (halive : (run (Recv.feed h) s bytes).crashed = false) :
    s.crashed = false := by
  by_contra hcrash
  rw [Bool.not_eq_false] at hcrash
  rw [run_feed_crashed hcrash] at halive
  exact absurd (hcrash.symm.trans halive) (by decide)

end

/-! ## A read -/

/-- A stream that leaves the connection open, and of which no more than `most` bytes
are kept at any time. -/
structure Readable (h : Handlers) (most : Nat) (bytes : List Byte) : Prop where
  clean : Along (Recv.feed h) (Clean h) .start bytes
  alive : (run (Recv.feed h) .start bytes).crashed = false
  isOpen : (run (Recv.feed h) .start bytes).isOpen = true
  kept : ∀ taken, taken <+: bytes → (run (Recv.feed h) .start taken).buf.length ≤ most

/-- The connection after `taken` has been read, in a buffer with room for more. -/
structure Reading (h : Handlers) (most : Nat) (taken : List Byte) (l : Link) : Prop where
  conn : l.conn = run (Recv.feed h) .start taken
  room : l.conn.buf.length ≤ l.bufSize
  size : l.bufSize ≤ most + maxData

/-- The next bytes of the stream, as far as a read took them, have been read. -/
structure ReadMore (h : Handlers) (most : Nat) (taken : List Byte) (l : Link) (n : Nat)
    (l' : Link) : Prop where
  reading : ∃ data, l.input = data ++ l'.input ∧ Reading h most (taken ++ data) l' ∧
    (0 < n → l.input ≠ [] → data ≠ [])

section
variable {h : Handlers} {most : Nat} {bytes taken : List Byte} {l : Link}

theorem Reading.start (h : Handlers) (most : Nat) (bytes : List Byte) :
    Reading h most [] (.start bytes) :=
  ⟨rfl, Nat.zero_le _, Nat.le_add_left _ _⟩

theorem checkBufferSize_room (hroom : l.conn.buf.length ≤ l.bufSize) (hint : l.bufSize < 2 ^ 31) :
    l.conn.buf.length < l.checkBufferSize.bufSize ∧
      l.checkBufferSize.bufSize ≤ max l.bufSize (l.conn.buf.length + maxData) := by
  have hsize : toInt32 l.bufSize = l.bufSize := Int.bmod_eq_of_le (by omega) (by omega)
  unfold Link.checkBufferSize
  rw [hsize]
  split
  next hfull =>
    have hpos : 0 < maxData := by decide
    dsimp only
    omega
  next hfree => omega

theorem arrived_ne_nil {n size : Nat} (hn : 0 < n) (hinput : l.input ≠ []) (hsize : 0 < size) :
    l.arrived n size ≠ [] := by
  have hlen := List.length_pos_iff.mpr hinput
  rw [← List.length_pos_iff, Link.arrived, List.length_take]
  omega

/-- The chunk a read is asked for is not empty. -/
theorem chunk_pos {s : Recv} (hb : Bounded s) {channels : List DataRead} {d : DataRead}
    (hchunk : OpenChunk s 1 channels d) : 0 < (d.binaryReadChunkSize % 2 ^ 64).toNat := by
  obtain ⟨hchan, hat⟩ := activeChannel_eq_some hchunk.active
  have hsize := (hb.fit.channels _ _ hchan).size_lt (mem_of_atIdx hat)
  have hfits : d.bytes.length + d.binaryReadDataSize = d.size :=
    (hb.fit.channels _ _ hchan).fits d (mem_of_atIdx hat)
  have hleast := hchunk.least
  have hrest := hchunk.rest
  rw [Int.emod_eq_of_lt (by omega) (by omega)]
  omega

variable (hreadable : Readable h most bytes) (hreading : Reading h most taken l)
  (hbytes : bytes = taken ++ l.input)
include hreadable hreading hbytes

theorem Reading.live : l.conn.crashed = false ∧ l.conn.isOpen = true := by
  have halive := hreadable.alive
  have hopen := hreadable.isOpen
  rw [hbytes, run_append, ← hreading.conn] at halive hopen
  exact ⟨alive_of_run halive, open_of_run hopen⟩

/-- A read of text that has room for a byte. -/
theorem Reading.readText (hclosed : l.conn.activeReadData < 0)
    (hfree : l.conn.buf.length < l.bufSize) {n : Nat} (hn : 0 < n) (hinput : l.input ≠ []) :
    ReadMore h most taken l n (l.readText h n) := by
  have hcleanAll := hreadable.clean
  rw [hbytes, along_append] at hcleanAll
  obtain ⟨hcleanTaken, hclean⟩ := hcleanAll
  have hbounded := bounded_run_feed bounded_start hcleanTaken
  have hkept := keptText_run_feed .nil hcleanTaken
  rw [← hreading.conn] at hclean hbounded hkept
  have hlive := (hreading.live hreadable hbytes).1
  have hdata := l.input_eq_arrived n (l.bufSize - l.conn.buf.length)
  have hne := arrived_ne_nil hn hinput
    (show 0 < l.bufSize - l.conn.buf.length by omega)
  have hlen : (l.arrived n (l.bufSize - l.conn.buf.length)).length ≤
      l.bufSize - l.conn.buf.length := by
    rw [Link.arrived, List.length_take]
    omega
  unfold Link.readText
  dsimp only
  generalize l.arrived n (l.bufSize - l.conn.buf.length) = data at *
  rw [if_neg hne]
  rw [hdata, along_append] at hclean
  have hrun := processBuffer_feed hbounded hlive hclosed hkept hclean.1
  have hlonger := run_feed_buf_length (h := h) (s := l.conn) data
  refine ⟨data, hdata, ⟨?_, ?_, hreading.size⟩, fun _ _ => hne⟩
  · rw [run_append, ← hreading.conn]
    exact hrun
  · show (Recv.processBuffer h _).buf.length ≤ l.bufSize
    rw [hrun]
    omega

/-- **One read** takes a byte at least, if it is given one. -/
theorem Reading.receive (hmost : most + maxData < 2 ^ 31) (n : Nat) :
    ReadMore h most taken l n (l.receive h (.data n)) := by
  obtain ⟨hlive, hopen⟩ := hreading.live hreadable hbytes
  have hkept : l.conn.buf.length ≤ most := by
    rw [hreading.conn]
    exact hreadable.kept taken (hbytes ▸ List.prefix_append _ _)
  unfold Link.receive
  rw [if_neg (by simp [hlive, hopen])]
  split
  next hactive =>
    have hclean := hreadable.clean
    rw [hbytes, along_append] at hclean
    have hbounded := bounded_run_feed bounded_start hclean.1
    rw [← hreading.conn] at hbounded
    obtain ⟨channels, d, hchunk⟩ := hbounded.chunk hlive hactive
    have hlen := arrived_le_chunk hbounded hchunk n
    have hdata := l.input_eq_arrived n (d.binaryReadChunkSize % 2 ^ 64).toNat
    have hne : 0 < n → l.input ≠ [] → l.arrived n (d.binaryReadChunkSize % 2 ^ 64).toNat ≠ [] :=
      fun hn hinput => arrived_ne_nil hn hinput (chunk_pos hbounded hchunk)
    simp only [hchunk.active, Link.receiveData]
    generalize l.arrived n (d.binaryReadChunkSize % 2 ^ 64).toNat = data at *
    split
    next hnil =>
      rw [hnil] at hne
      exact ⟨[], rfl, by rw [List.append_nil]; exact hreading, hne⟩
    next =>
      refine ⟨data, hdata, ⟨?_, ?_, hreading.size⟩, hne⟩
      · rw [run_append, ← hreading.conn]
        exact readDirect_feed hbounded hlive hactive hchunk hlen
      · rw [dataReceived_buf]
        exact hreading.room
  next hclosed =>
    have hgrown : ∀ grown : Link, grown.conn = l.conn → grown.input = l.input →
        grown.conn.buf.length < grown.bufSize → grown.bufSize ≤ most + maxData → 0 < n →
        l.input ≠ [] → ReadMore h most taken l n (grown.readText h n) := by
      intro grown hsame hinput hfree hsize hn hne
      obtain ⟨data, hdata, hmore⟩ := (Reading.readText (l := grown) hreadable
        ⟨hsame.trans hreading.conn, hfree.le, hsize⟩ (hinput ▸ hbytes) (hsame ▸ not_le.mp hclosed)
        hfree hn (hinput ▸ hne)).reading
      exact ⟨data, hinput ▸ hdata, hinput ▸ hmore⟩
    obtain ⟨hfree, hsize⟩ := checkBufferSize_room hreading.room (by have := hreading.size; omega)
    unfold Link.receiveText
    dsimp only
    split
    next hnone =>
      refine ⟨[], rfl, by rw [List.append_nil]; exact hreading, fun hn hne => ?_⟩
      rcases hnone with hzero | hnil
      · omega
      · exact absurd hnil hne
    next hsome =>
      obtain ⟨hn, hne⟩ := not_or.mp hsome
      refine hgrown _ (checkBufferSize_conn l) (checkBufferSize_input l)
        (by rw [checkBufferSize_conn]; exact hfree) ?_ (by omega) hne
      have hbound := hreading.size
      omega

end

/-- The connection after it has read `bytes` in pieces of at most these sizes. -/
def readsOf (h : Handlers) (bytes : List Byte) (sizes : List Nat) : Link :=
  run (fun l n => l.receive h (.data n)) (.start bytes) sizes

section
variable {h : Handlers} {most : Nat} {bytes taken : List Byte} {l : Link}
  (hmost : most + maxData < 2 ^ 31) (hreadable : Readable h most bytes)
include hmost hreadable

theorem Reading.run (hreading : Reading h most taken l) (hbytes : bytes = taken ++ l.input)
    (sizes : List Nat) :
    ∃ data, l.input = data ++ (Lib.run (fun l n => l.receive h (.data n)) l sizes).input ∧
      Reading h most (taken ++ data) (Lib.run (fun l n => l.receive h (.data n)) l sizes) ∧
      min (sizes.filter (0 < ·)).length l.input.length ≤ data.length := by
  induction sizes generalizing taken l with
  | nil => exact ⟨[], rfl, by rw [List.append_nil]; exact hreading, Nat.min_le_left _ _⟩
  | cons n sizes ih =>
    obtain ⟨data, hdata, hnext, hmore⟩ := (hreading.receive hreadable hbytes hmost n).reading
    obtain ⟨data', hdata', hlast, hleast⟩ := ih hnext (by rw [List.append_assoc, ← hdata, hbytes])
    refine ⟨data ++ data', ?_, ?_, ?_⟩
    · rw [run_cons, List.append_assoc, ← hdata', ← hdata]
    · rw [← List.append_assoc]
      exact hlast
    · have hlen := congrArg List.length hdata
      rw [List.length_append] at hlen ⊢
      rw [List.filter_cons]
      split
      next hn =>
        rw [List.length_cons]
        by_cases hinput : l.input = []
        · rw [hinput]
          exact (Nat.min_le_right _ _).trans (Nat.zero_le _)
        · have hpos := List.length_pos_iff.mpr (hmore (of_decide_eq_true hn) hinput)
          omega
      next => omega

/-- **Every split** of such a stream leaves what its bytes leave, and reads that bring
something take all of it in the end. -/
theorem readsOf_all (sizes : List Nat) :
    ((readsOf h bytes sizes).input = [] →
      (readsOf h bytes sizes).conn = Lib.run (Recv.feed h) .start bytes) ∧
    (bytes.length ≤ (sizes.filter (0 < ·)).length → (readsOf h bytes sizes).input = []) := by
  obtain ⟨data, hdata, hreading, hleast⟩ :=
    (Reading.start h most bytes).run hmost hreadable rfl sizes
  have hinput : bytes = data ++ (readsOf h bytes sizes).input := hdata
  have hread : Reading h most data (readsOf h bytes sizes) := hreading
  replace hleast : min (sizes.filter (0 < ·)).length bytes.length ≤ data.length := hleast
  refine ⟨fun hnil => ?_, fun henough => ?_⟩
  · rw [hnil, List.append_nil] at hinput
    rw [hread.conn, ← hinput]
  · have hlen := congrArg List.length hinput
    rw [List.length_append] at hlen
    exact List.length_eq_zero_iff.mp (by omega)

end

/-! ## What is kept of a protocol stream -/

section
variable {h : Handlers} {s : Recv}

/-- Within the payload of an item nothing is kept. -/
theorem payload_kept {it : Item} (hidle : Idle s) (hc : s.crashed = false) (hok : ItemOk h s it)
    {part : List Byte} (hpart : part <+: it.payload) :
    (run (Recv.feed h) s (it.line ++ [lf] ++ part)).buf = [] := by
  have hline := line_feed (h := h) hidle hc hok.text
  have hbuf : (s.deliverLine h it).buf = [] := deliverLine_buf.trans hidle.buf
  have hfit : Fit (s.deliverLine h it) := deliverLine_fit hidle
  have hann := hok.payload
  rw [run_append, hline]
  generalize s.deliverLine h it = s' at *
  split
  next hlive =>
    obtain ⟨hc', hopen⟩ := hlive
    obtain ⟨channels, d, hchunk, hlen⟩ := announced_chunk hann hc' hopen
    have hle := hpart.length_le
    cases part with
    | nil => rw [run_nil, takeData_buf, hbuf]
    | cons b part =>
      rw [List.length_cons] at hle
      have hchunk1 : OpenChunk s' 1 channels d := ⟨hchunk.active, by omega, hchunk.rest⟩
      have hrun := run_feed_takeData (h := h) ⟨hfit, fun _ _ => ⟨channels, d, hchunk1⟩⟩ hc' hopen
        (b :: part)
      have htaken : (s'.takeData (b :: part)).2 = (b :: part).length := by
        rw [takeData_eq hchunk le_rfl]
        show min (b :: part).length d.binaryReadChunkSize.toNat = _
        rw [List.length_cons]
        omega
      rw [htaken, List.take_length] at hrun
      rw [hfit.takeData_nil hchunk1, ← hrun, takeData_buf, hbuf]
  next hdone =>
    rcases Bool.eq_false_or_eq_true s'.crashed with hc' | hc'
    · rw [run_feed_crashed hc', hbuf]
    · have hclosed : s'.activeReadData < 0 := not_le.mp fun hopen => hdone ⟨hc', hopen⟩
      rw [Recv.announced, hc', Bool.false_or, if_pos hclosed] at hann
      rw [List.isEmpty_iff.mp hann, List.prefix_nil] at hpart
      rw [hpart, run_nil, hbuf]

/-- What is kept of an item is never longer than its line. -/
theorem item_kept {it : Item} (hidle : Idle s) (hok : ItemOk h s it) {taken : List Byte}
    (htaken : taken <+: it.bytes) : (run (Recv.feed h) s taken).buf.length ≤ it.line.length := by
  rcases Bool.eq_false_or_eq_true s.crashed with hc | hc
  · rw [run_feed_crashed hc, hidle.buf]
    exact Nat.zero_le _
  have hbytes : it.bytes = it.line ++ [lf] ++ it.payload := by simp [Item.bytes]
  rw [hbytes] at htaken
  by_cases hshort : taken.length ≤ it.line.length
  · have hlen := run_feed_buf_length (h := h) (s := s) taken
    rw [hidle.buf, List.length_nil] at hlen
    omega
  · have hlonger : it.line ++ [lf] <+: taken := by
      refine List.prefix_of_prefix_length_le (List.prefix_append _ _) htaken ?_
      rw [List.length_append, List.length_singleton]
      omega
    obtain ⟨part, rfl⟩ := hlonger
    rw [payload_kept hidle hc hok ((List.prefix_append_right_inj _).mp htaken)]
    exact Nat.zero_le _

/-- What is kept of a stream is never longer than its longest line. -/
theorem stream_kept (most : Nat) {items : List Item} (hidle : Idle s)
    (hok : Along (Recv.deliver h) (ItemOk h) s items)
    (hlines : ∀ it ∈ items, it.line.length ≤ most) {taken part : List Byte}
    (hpart : part.length ≤ most) (htaken : taken <+: stream items ++ part) :
    (run (Recv.feed h) s taken).buf.length ≤ most := by
  induction items generalizing s taken with
  | nil =>
    have hlen := run_feed_buf_length (h := h) (s := s) taken
    have hle : taken.length ≤ part.length := htaken.length_le
    rw [hidle.buf, List.length_nil] at hlen
    omega
  | cons it items ih =>
    obtain ⟨hit, hrest⟩ := hok
    obtain ⟨hrun, -, hidle'⟩ := item_feed hidle hit
    have hcons : stream (it :: items) ++ part = it.bytes ++ (stream items ++ part) := by
      rw [← List.append_assoc]
      rfl
    rw [hcons] at htaken
    rcases le_total taken.length it.bytes.length with hle | hle
    · have hbegin := List.prefix_of_prefix_length_le htaken (List.prefix_append _ _) hle
      exact (item_kept hidle hit hbegin).trans (hlines it List.mem_cons_self)
    · obtain ⟨taken', rfl⟩ :=
        List.prefix_of_prefix_length_le (List.prefix_append _ _) htaken hle
      rw [run_append, hrun]
      exact ih hidle' hrest (fun x hx => hlines x (List.mem_cons_of_mem _ hx))
        ((List.prefix_append_right_inj _).mp htaken)

/-- A text behind a protocol stream that ends the way a message does not is kept. -/
theorem stream_part {items : List Item} (hidle : Idle s)
    (hok : Along (Recv.deliver h) (ItemOk h) s items) {part : List Byte} (hpart : IsText part) :
    Along (Recv.feed h) (Clean h) s (stream items ++ part) ∧
      run (Recv.feed h) s (stream items ++ part) =
        { run (Recv.deliver h) s items with
          buf := (run (Recv.feed h) s (stream items ++ part)).buf } := by
  obtain ⟨hrun, hclean, hidle'⟩ := stream_feed hidle hok
  rw [along_append, run_append, hrun]
  rcases Bool.eq_false_or_eq_true (run (Recv.deliver h) s items).crashed with hc | hc
  · rw [run_feed_crashed hc]
    exact ⟨⟨hclean, along_clean_crashed hidle'.bounded hc _⟩, rfl⟩
  · have hclosed := hidle'.closed hc
    rw [run_feed_text hc hclosed hpart]
    exact ⟨⟨hclean, along_clean_text hidle'.bounded hc hclosed hpart⟩, rfl⟩

end

end Rts2.Connection
